import CodeIndex.FilePath

/-!
# Glob patterns

A pattern is a list of tokens that matches octet sequences.  A star and a question mark never match
a slash; two stars between slashes stand for any number of directories.  `Glob.parse` reads the text
of a pattern, and `Glob.isMatch` answers whether it matches a whole path.
-/

namespace CodeIndex

/-- One piece of a pattern. -/
inductive GlobToken where
  | literal (c : Char)
  /-- Any octet but a slash. -/
  | anyOctet
  /-- Any run of octets without a slash. -/
  | star
  /-- Nothing, a slash, or anything that ends in a slash. -/
  | leadingDirs
  /-- A slash and anything after it. -/
  | trailingAny
  /-- A slash, or anything between two slashes along with them. -/
  | innerDirs
  /-- One octet inside, or outside, of ranges of characters. -/
  | oneOf (negated : Bool) (ranges : List (Char × Char))
  /-- One of several patterns. -/
  | alternatives (branches : List (List GlobToken))
  deriving Inhabited

/-- A pattern. -/
abbrev Glob := List GlobToken

namespace Glob

/-- What is wrong with the text of a pattern. -/
inductive ParseError where
  /-- The last character is a backslash. -/
  | danglingEscape
  /-- A range that ends before it starts. -/
  | invalidRange (first last : Char)
  | unopenedAlternatives
  | unclosedAlternatives
  deriving DecidableEq, Repr

/-! ## §1 Reading a pattern -/

/-- The patterns under construction, the innermost branch first, tokens last first.  `opened` has
the number of branches below each open brace. -/
structure Pending where
  branches : List (List GlobToken)
  opened : List Nat

namespace Pending

/-- Adds a token to the innermost branch. -/
def push (p : Pending) (t : GlobToken) : Pending :=
  match p.branches with
  | b :: bs => { p with branches := (t :: b) :: bs }
  | [] => { p with branches := [[t]] }

/-- Adds two stars that are no more than a star. -/
def pushStars (p : Pending) : Pending := (p.push .star).push .star

/-- Whether the innermost branch has no token. -/
def atStart (p : Pending) : Bool := (p.branches.headD []).isEmpty

/-- Whether some brace is open. -/
def insideBraces (p : Pending) : Bool := 1 < p.branches.length

/-- Opens a brace. -/
def openBrace (p : Pending) : Pending := ⟨[] :: p.branches, p.branches.length :: p.opened⟩

/-- Starts the next branch inside a brace. -/
def nextBranch (p : Pending) : Pending := { p with branches := [] :: p.branches }

/-- Closes the innermost brace: its branches become one token. -/
def closeBrace (p : Pending) : Except ParseError Pending :=
  match p.opened with
  | [] => .error .unopenedAlternatives
  | below :: opened =>
    let inner := p.branches.take (p.branches.length - below)
    let outer := p.branches.drop (p.branches.length - below)
    .ok (Pending.push ⟨outer, opened⟩ (.alternatives (inner.reverse.map List.reverse)))

/-- Puts the token for two stars in place of the slash before them.  Two stars that follow others of
their kind add nothing. -/
def replaceSlash (p : Pending) (t : GlobToken) : Pending :=
  match p.branches with
  | (.leadingDirs :: b) :: bs => { p with branches := (.leadingDirs :: b) :: bs }
  | (.trailingAny :: b) :: bs => { p with branches := (.trailingAny :: b) :: bs }
  | (_ :: b) :: bs => { p with branches := (t :: b) :: bs }
  | _ => p.push t

end Pending

/-- The ranges read so far in brackets, last first, and whether a minus waits for its end. -/
structure ClassState where
  ranges : List (Char × Char)
  inRange : Bool

/-- Takes one character of a bracket expression. -/
def ClassState.take (s : ClassState) (c : Char) : Except ParseError ClassState :=
  match s.inRange, s.ranges with
  | true, (a, _) :: more =>
    if c < a then .error (.invalidRange a c) else .ok ⟨(a, c) :: more, false⟩
  | _, ranges => .ok ⟨(c, c) :: ranges, false⟩

/-- The inside of brackets up to the closing one: the ranges in order and the rest of the text.
`none` when nothing closes them. -/
def classBody (first : Bool) (s : ClassState) :
    List Char → Except ParseError (Option (List (Char × Char) × List Char))
  | [] => .ok none
  | c :: rest =>
    if c = ']' ∧ ¬ first then
      let ranges := if s.inRange then ('-', '-') :: s.ranges else s.ranges
      .ok (some (ranges.reverse, rest))
    else if c = ']' then
      classBody false { s with ranges := (']', ']') :: s.ranges } rest
    else if c = '-' ∧ ¬ first ∧ ¬ s.inRange then
      classBody false { s with inRange := true } rest
    else
      match s.take c with
      | .error e => .error e
      | .ok s => classBody false s rest

/-- A bracket expression whose opening bracket has been taken. -/
def parseClass (s : List Char) : Except ParseError (Option (GlobToken × List Char)) :=
  let (negated, body) := match s with
    | '!' :: rest => (true, rest)
    | '^' :: rest => (true, rest)
    | s => (false, s)
  (classBody true ⟨[], false⟩ body).map fun found =>
    found.map fun (ranges, rest) => (.oneOf negated ranges, rest)

/-- What two stars become; `previous` is the character before them.  Answers the number of
characters after the stars that they take along. -/
def parseStars (p : Pending) (previous : Option Char) (rest : List Char) : Pending × Nat :=
  let next := rest.head?
  if p.atStart then
    match next with
    | none => (p.push .leadingDirs, 0)
    | some '/' => (p.push .leadingDirs, 1)
    | some _ => (p.pushStars, 0)
  else if previous ≠ some '/'
      ∧ (¬ p.insideBraces ∨ (previous ≠ some ',' ∧ previous ≠ some '\x7b')) then
    (p.pushStars, 0)
  else
    match next with
    | none => (p.replaceSlash .trailingAny, 0)
    | some '/' => (p.replaceSlash .innerDirs, 1)
    | some c =>
      if (c = ',' ∨ c = '\x7d') ∧ p.insideBraces then (p.replaceSlash .trailingAny, 0)
      else (p.pushStars, 0)

/-- Reads the rest of a pattern.  `previous` is the character before it, and `plainBrackets` is set
once an opening bracket has been found without its closing one: from there on brackets stand for
themselves. -/
def parseRest : Nat → Pending → Option Char → Bool → List Char → Except ParseError Pending
  | 0, p, _, _, _ => .ok p
  | _, p, _, _, [] => .ok p
  | fuel + 1, p, previous, plainBrackets, c :: rest =>
    if c = '?' then parseRest fuel (p.push .anyOctet) (some c) plainBrackets rest
    else if c = '*' then
      match rest with
      | '*' :: rest =>
        let (p, n) := parseStars p previous rest
        parseRest fuel p (if n = 0 then some '*' else some '/') plainBrackets (rest.drop n)
      | rest => parseRest fuel (p.push .star) (some c) plainBrackets rest
    else if c = '[' ∧ ¬ plainBrackets then
      match parseClass rest with
      | .error e => .error e
      | .ok (some (t, rest)) => parseRest fuel (p.push t) (some ']') plainBrackets rest
      | .ok none => parseRest fuel (p.push (.literal '[')) (some c) true rest
    else if c = '\x7b' then parseRest fuel p.openBrace (some c) plainBrackets rest
    else if c = '\x7d' then
      match p.closeBrace with
      | .error e => .error e
      | .ok p => parseRest fuel p (some c) plainBrackets rest
    else if c = ',' ∧ p.opened ≠ [] then
      parseRest fuel p.nextBranch (some c) plainBrackets rest
    else if c = '\\' then
      match rest with
      | [] => .error .danglingEscape
      | c :: rest => parseRest fuel (p.push (.literal c)) (some c) plainBrackets rest
    else parseRest fuel (p.push (.literal c)) (some c) plainBrackets rest

/-- The pattern that a text spells. -/
def parse (s : List Char) : Except ParseError Glob :=
  match parseRest (s.length + 1) ⟨[[]], []⟩ none false s with
  | .error e => .error e
  | .ok p =>
    match p.branches with
    | [tokens] => .ok tokens.reverse
    | _ => .error .unclosedAlternatives

/-! ## §2 Matching -/

/-- All ends of a list, itself included. -/
def suffixes : Text.Octets → List Text.Octets
  | [] => [[]]
  | b :: rest => (b :: rest) :: suffixes rest

/-- What may remain after a run of octets without a slash. -/
def afterRun : Text.Octets → List Text.Octets
  | [] => [[]]
  | b :: rest => if b = FilePath.slash then [b :: rest] else (b :: rest) :: afterRun rest

/-- The ends that follow a slash. -/
def afterSlashes : Text.Octets → List Text.Octets
  | [] => []
  | b :: rest => if b = FilePath.slash then rest :: afterSlashes rest else afterSlashes rest

/-- The octet ranges of a range of characters: the end of the first character's octets up to the
start of the last one's, and every other octet of the two by itself. -/
def octetRanges (first last : Char) : List (UInt8 × UInt8) :=
  let single := fun b : UInt8 => (b, b)
  let a := String.utf8EncodeChar first
  if first = last then a.map single
  else
    let z := String.utf8EncodeChar last
    a.dropLast.map single ++ [(a.getLastD 0, z.headD 0)] ++ z.tail.map single

/-- Whether an octet falls in one of several ranges of characters. -/
def inRanges (ranges : List (Char × Char)) (b : UInt8) : Bool :=
  ranges.any fun (first, last) =>
    (octetRanges first last).any fun (lo, hi) => decide (lo ≤ b ∧ b ≤ hi)

/-- One of each length; ends of one sequence with the same length are the same. -/
def distinct (rests : List Text.Octets) : List Text.Octets :=
  rests.foldr (fun r acc => if acc.any fun a => a.length == r.length then acc else r :: acc) []

mutual

/-- Whether a token can match anything but nothing at all for want of content. -/
def hasContent : GlobToken → Bool
  | .alternatives branches => anyHasContent branches
  | _ => true

/-- Whether a token of a branch has content. -/
def branchHasContent : List GlobToken → Bool
  | [] => false
  | t :: ts => hasContent t || branchHasContent ts

/-- Whether a branch has content. -/
def anyHasContent : List (List GlobToken) → Bool
  | [] => false
  | b :: bs => branchHasContent b || anyHasContent bs

end

mutual

/-- What may remain of an octet sequence after one token. -/
def afterToken : GlobToken → Text.Octets → List Text.Octets
  | .literal c, s =>
    let bytes := String.utf8EncodeChar c
    if bytes.isPrefixOf s then [s.drop bytes.length] else []
  | .anyOctet, s =>
    match s with
    | b :: rest => if b = FilePath.slash then [] else [rest]
    | [] => []
  | .star, s => afterRun s
  | .leadingDirs, s => s :: afterSlashes s
  | .trailingAny, s =>
    match s with
    | b :: rest => if b = FilePath.slash then suffixes rest else []
    | [] => []
  | .innerDirs, s =>
    match s with
    | b :: rest => if b = FilePath.slash then rest :: afterSlashes rest else []
    | [] => []
  | .oneOf negated ranges, s =>
    match s with
    | b :: rest => if inRanges ranges b != negated then [rest] else []
    | [] => []
  | .alternatives branches, s =>
    if anyHasContent branches then afterAnyBranch branches s else [s]

/-- What may remain after a whole pattern. -/
def afterTokens : List GlobToken → Text.Octets → List Text.Octets
  | [], s => [s]
  | t :: ts, s => distinct ((distinct (afterToken t s)).flatMap fun rest => afterTokens ts rest)

/-- What may remain after one of several branches; a branch without content does not count. -/
def afterAnyBranch : List (List GlobToken) → Text.Octets → List Text.Octets
  | [], _ => []
  | b :: bs, s => (if branchHasContent b then afterTokens b s else []) ++ afterAnyBranch bs s

end

/-- Whether the pattern matches the whole of a path.  Two stars alone match everything. -/
def isMatch (g : Glob) (path : Text.Octets) : Bool :=
  match g with
  | [.leadingDirs] => true
  | g => (afterTokens g path).any List.isEmpty

end Glob

end CodeIndex
