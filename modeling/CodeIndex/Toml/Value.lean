/-!
# TOML documents

A document is a table.  How a table came about decides who may add to it: `Toml.define`,
`Toml.append` and `Toml.assign` are the three statements of the language, and each answers `none`
when it would define something twice.
-/

namespace CodeIndex

/-- How a table came about. -/
inductive TableOrigin where
  /-- Named on the way to a table in a header. -/
  | implied
  /-- Named by a header. -/
  | header
  /-- Named on the way to a key before an equals sign. -/
  | dotted
  /-- Written as a value. -/
  | inline
  deriving DecidableEq, Inhabited, Repr

/-- A value of a document. -/
inductive Toml where
  | text (s : String)
  | integer (n : Int)
  /-- A number with a fraction or an exponent; nothing here depends on which. -/
  | float
  | boolean (b : Bool)
  /-- A date, a time or both; nothing here depends on which. -/
  | moment
  | array (items : List Toml)
  /-- Tables that share a header. -/
  | tables (elements : List Toml)
  | table (origin : TableOrigin) (entries : List (String × Toml))
  deriving Inhabited

namespace Toml

/-- The document that nothing has been written to. -/
def empty : Toml := .table .header []

/-- Entries with the value of `key` replaced. -/
def replace (key : String) (v : Toml) (entries : List (String × Toml)) : List (String × Toml) :=
  entries.map fun (k, old) => if k = key then (k, v) else (k, old)

/-- Changes the table at a path, with all missing tables on the way.  The path of a key does not
lead through tables that a header has named, and no path leads through values; among tables that
share a header the last one is meant. -/
def change (byKey : Bool) (f : Toml → Option Toml) : List String → Toml → Option Toml
  | [], t => f t
  | key :: path, .table origin entries =>
    match entries.lookup key with
    | none =>
      let fresh := .table (if byKey then .dotted else .implied) []
      (change byKey f path fresh).map fun t => .table origin (entries ++ [(key, t)])
    | some (.table childOrigin children) =>
      if childOrigin = .inline ∨ (byKey ∧ childOrigin = .header) then none
      else
        (change byKey f path (.table childOrigin children)).map fun t =>
          .table origin (replace key t entries)
    | some (.tables elements) =>
      match elements.getLast? with
      | none => none
      | some last =>
        (change byKey f path last).map fun t =>
          .table origin (replace key (.tables (elements.dropLast ++ [t])) entries)
    | some _ => none
  | _ :: _, _ => none

/-- Makes `key` a table named by a header. -/
def defineEntry (key : String) : Toml → Option Toml
  | .table origin entries =>
    match entries.lookup key with
    | none => some (.table origin (entries ++ [(key, .table .header [])]))
    | some (.table .implied children) =>
      some (.table origin (replace key (.table .header children) entries))
    | some _ => none
  | _ => none

/-- Adds a table to those that share the header `key`. -/
def appendEntry (key : String) : Toml → Option Toml
  | .table origin entries =>
    match entries.lookup key with
    | none => some (.table origin (entries ++ [(key, .tables [.table .header []])]))
    | some (.tables elements) =>
      some (.table origin (replace key (.tables (elements ++ [.table .header []])) entries))
    | some _ => none
  | _ => none

/-- Gives `key` a value; `direct` when no other key stands before it. -/
def assignEntry (direct : Bool) (key : String) (v : Toml) : Toml → Option Toml
  | .table origin entries =>
    if (origin == .dotted) == direct ∨ (entries.lookup key).isSome then none
    else some (.table origin (entries ++ [(key, v)]))
  | _ => none

/-- The header of a table. -/
def define (doc : Toml) (path : List String) : Option Toml :=
  path.getLast?.bind fun key => change false (defineEntry key) path.dropLast doc

/-- The header of one of several tables. -/
def append (doc : Toml) (path : List String) : Option Toml :=
  path.getLast?.bind fun key => change false (appendEntry key) path.dropLast doc

/-- A value below the table at `place`. -/
def assign (doc : Toml) (place path : List String) (v : Toml) : Option Toml :=
  path.getLast?.bind fun key =>
    change false (change true (assignEntry path.dropLast.isEmpty key v) path.dropLast) place doc

/-- The table that a value of several entries is. -/
def inlineTable (entries : List (List String × Toml)) : Option Toml :=
  match entries.foldlM (fun t (path, v) => assign t [] path v) empty with
  | some (.table _ entries) => some (.table .inline entries)
  | _ => none

end Toml

end CodeIndex
