import CodeIndex.Ignore.Glob
import CodeIndex.Text.Basic

/-!
# Ignore rules

Each line of an ignore file is a rule: a pattern that hides the paths it matches, or that shows them
again when it starts with an exclamation mark.  Of the rules that match a path the last one decides.
-/

namespace CodeIndex

/-- One rule. -/
structure IgnoreRule where
  glob : Glob
  /-- The rule shows what earlier rules hide. -/
  shows : Bool
  /-- The rule is about directories only. -/
  onlyDirectories : Bool
  deriving Inhabited

/-- Rules in the order in which they were given. -/
abbrev IgnoreRules := List IgnoreRule

namespace IgnoreRule

/-- The text of a line without the blanks at its end, which count only behind a backslash. -/
def content (line : List Char) : List Char :=
  if [' ', '\\'].isPrefixOf line.reverse then line else Text.trimEnd line

/-- What the signs at the start of a line say. -/
structure Signs where
  shows : Bool
  /-- The pattern starts at the root. -/
  anchored : Bool
  rest : List Char

/-- Takes the signs from the start of a line. -/
def signs (line : List Char) : Signs :=
  match line with
  | '\\' :: '!' :: rest => ⟨false, false, '!' :: rest⟩
  | '\\' :: '#' :: rest => ⟨false, false, '#' :: rest⟩
  | '!' :: '/' :: rest => ⟨true, true, rest⟩
  | '!' :: rest => ⟨true, false, rest⟩
  | '/' :: rest => ⟨false, true, rest⟩
  | line => ⟨false, false, line⟩

/-- A pattern without the slash at its end, nor a backslash before that slash. -/
def withoutSlash (pattern : List Char) : List Char :=
  match pattern.reverse with
  | '/' :: '\\' :: rest => rest.reverse
  | '/' :: rest => rest.reverse
  | _ => pattern

/-- A pattern without a slash matches at any depth, unless it is anchored. -/
def atAnyDepth (anchored : Bool) (pattern : List Char) : List Char :=
  if anchored || pattern.contains '/' || pattern == ['*', '*'] then pattern
  else ['*', '*', '/'] ++ pattern

/-- Two stars at the end match what a directory holds, but not the directory itself. -/
def insideOnly (pattern : List Char) : List Char :=
  if ['*', '*', '/'].isPrefixOf pattern.reverse then pattern ++ ['/', '*'] else pattern

/-- The rule of a line, if it has one: comments and blank lines have none. -/
def ofLine (line : List Char) : Except Glob.ParseError (Option IgnoreRule) :=
  if line.head? = some '#' then .ok none
  else
    let line := content line
    if line = [] then .ok none
    else
      let s := signs line
      let pattern := withoutSlash s.rest
      (Glob.parse (insideOnly (atAnyDepth s.anchored pattern))).map fun glob =>
        some ⟨glob, s.shows, s.rest.getLast? == some '/'⟩

/-- Whether a rule has something to say about a path. -/
def concerns (r : IgnoreRule) (path : RawPath) (isDirectory : Bool) : Bool :=
  (isDirectory || !r.onlyDirectories) && r.glob.isMatch path

end IgnoreRule

namespace IgnoreRules

/-- The rules of several lines in order. -/
def ofLines : List (List Char) → Except Glob.ParseError IgnoreRules
  | [] => .ok []
  | line :: lines =>
    match IgnoreRule.ofLine line with
    | .error e => .error e
    | .ok rule => (ofLines lines).map (rule.toList ++ ·)

/-- A line without the carriage return at its end. -/
def withoutReturn (line : List Char) : List Char :=
  if line.getLast? = some '\r' then line.dropLast else line

/-- The lines of an ignore file.  Marks of byte order before the first one are dropped, and what
follows the last line feed is a line only if there is something. -/
def fileLines (text : String) : List (List Char) :=
  let pieces := (text.toList.dropWhile (· == '\uFEFF')).splitOn '\n'
  pieces.dropLast.map withoutReturn ++ (pieces.getLast?.toList.filter (· != []))

/-- Whether a path is hidden: the last rule that concerns it decides. -/
def isIgnored (rules : IgnoreRules) (path : RawPath) (isDirectory : Bool) : Bool :=
  match rules.reverse.find? fun r => r.concerns path isDirectory with
  | some r => !r.shows
  | none => false

end IgnoreRules

end CodeIndex
