import CodeIndex.Json.Value
import CodeIndex.Json.Reader

/-!
# Decoding JSON values

Readers of single types.  A structure stands as an object, in which unknown names are passed over,
no known name is repeated and a member that may be missing may be left out; or as an array of all
its members in order.
-/

namespace CodeIndex.Json

/-- A text. -/
def asText? : Json → Option String
  | .string s => s
  | _ => none

/-- A natural number written without point and exponent. -/
def asNat? : Json → Option Nat
  | .number n =>
    if n.negative ∨ n.fraction.isSome ∨ n.exponent.isSome then none
    else some (n.whole.foldl (fun n d => n * 10 + d) 0)
  | _ => none

/-- A number in single precision. -/
def asSingle? : Json → Option Single
  | .number n => n.toSingle?
  | _ => none

/-- A list of items. -/
def asList? {α : Type} (item? : Json → Option α) : Json → Option (List α)
  | .array items => items.mapM item?
  | _ => none

/-- A value that may be missing. -/
def asOptional? {α : Type} (value? : Json → Option α) : Json → Option (Option α)
  | .null => some none
  | v => (value? v).map some

/-- A list of texts. -/
def asStrings? : Json → Option (List String) := asList? asText?

/-- A name out of a fixed set: a text, or an object whose only member has that name and no value. -/
def asName? {α : Type} (ofName? : String → Option α) : Json → Option α
  | .string (some s) => ofName? s
  | .object [(some s, .null)] => ofName? s
  | _ => none

/-- The members of a structure by their names; those left out are `none`. -/
abbrev Fields := List (Option Json)

/-- The known member of this name; `none` if it is there twice. -/
def field? (members : List (Option String × Json)) (name : String) : Option (Option Json) :=
  match members.filter fun (n, _) => n == some name with
  | [] => some none
  | [(_, v)] => some (some v)
  | _ => none

/-- The members of a structure with these names, in their order. -/
def asFields? (names : List String) : Json → Option Fields
  | .object members =>
    if members.any fun (n, _) => n.isNone then none else names.mapM (field? members)
  | .array items => if items.length = names.length then some (items.map some) else none
  | _ => none

/-- A member that has to be there. -/
def requiredField? {α : Type} (value? : Json → Option α) (v : Option Json) : Option α :=
  v.bind value?

/-- A member that may be missing or left out. -/
def optionalField? {α : Type} (value? : Json → Option α) : Option Json → Option (Option α)
  | none => some none
  | some v => asOptional? value? v

end CodeIndex.Json
