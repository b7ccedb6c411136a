import CodeIndex.Error

/-!
# Chunking

A text of more tokens than one request may carry is cut into consecutive windows of tokens.  A
window is as large as the limit allows while its octets still spell a text; only when no such window
exists does it grow beyond the limit, to the first one that does.
-/

namespace CodeIndex

/-- The octets of a text's tokens, in order. -/
abbrev Tokens := List ByteArray

/-- A window of a text and the number of tokens in it. -/
structure TextChunk where
  text : String
  tokens : Nat
  deriving DecidableEq, Inhabited, Repr

namespace Tokens

/-- The octets of several tokens in a row. -/
def octets (tokens : Tokens) : ByteArray := tokens.foldl (· ++ ·) ByteArray.empty

/-- The text that the first `n` tokens spell, if they spell one. -/
def spell? (tokens : Tokens) (n : Nat) : Option String :=
  String.fromUTF8? (Tokens.octets (tokens.take n))

/-- The text of the first `n` tokens along with `n`. -/
def cut? (tokens : Tokens) (n : Nat) : Option (Nat × String) :=
  (tokens.spell? n).map fun text => (n, text)

/-- The largest window within the limit. -/
def windowWithin? (limit : Nat) (tokens : Tokens) : Option (Nat × String) :=
  (List.range' 1 (tokens.take limit).length).reverse.findSome? tokens.cut?

/-- The smallest window beyond the limit. -/
def windowBeyond? (limit : Nat) (tokens : Tokens) : Option (Nat × String) :=
  (List.range' (limit + 1) (tokens.length - limit)).findSome? tokens.cut?

/-- The first window of a list of tokens: how many it takes, and its text. -/
def window? (limit : Nat) (tokens : Tokens) : Option (Nat × String) :=
  match windowWithin? limit tokens with
  | some w => some w
  | none => windowBeyond? limit tokens

/-- What is cut off is one of the numbers of tokens that were tried, with their text. -/
theorem mem_of_findSome?_cut? {tokens : Tokens} {ns : List Nat} {n : Nat} {text : String}
    (h : ns.findSome? tokens.cut? = some (n, text)) : n ∈ ns ∧ tokens.spell? n = some text := by
  obtain ⟨before, m, after, hsplit, hm, _⟩ := List.findSome?_eq_some_iff.1 h
  obtain ⟨t, ht, heq⟩ := Option.map_eq_some_iff.1 hm
  obtain ⟨rfl, rfl⟩ := Prod.mk.inj heq
  exact ⟨by simp [hsplit], ht⟩

private theorem window?_bounds {limit : Nat} {tokens : Tokens} {n : Nat} {text : String}
    (h : window? limit tokens = some (n, text)) : 0 < n ∧ n ≤ tokens.length := by
  simp only [window?] at h
  split at h
  · rename_i hw
    cases h
    have := (mem_of_findSome?_cut? hw).1
    simp only [List.mem_reverse, List.mem_range'_1, List.length_take] at this
    omega
  · have := (mem_of_findSome?_cut? h).1
    simp only [List.mem_range'_1] at this
    omega

/-- The windows of a list of tokens; `start` is the place of the first of them in the text. -/
def windows (limit : Nat) (start : Nat) (tokens : Tokens) : Except IndexError (List TextChunk) :=
  if tokens.isEmpty then .ok []
  else
    match _h : window? limit tokens with
    | none => .error (.tokenizer start)
    | some (n, text) => (windows limit (start + n) (tokens.drop n)).map (⟨text, n⟩ :: ·)
  termination_by tokens.length
  decreasing_by
    have := window?_bounds _h
    simp only [List.length_drop]
    omega

/-- A text's tokens from their lengths in octets. -/
def ofLengths (bytes : ByteArray) (start : Nat) : List Nat → Tokens
  | [] => []
  | n :: ns => bytes.extract start (start + n) :: ofLengths bytes (start + n) ns

end Tokens

/-- The chunks of a text with at most `limit` tokens each, a limit of zero counting as one.  A text
within the limit is its own only chunk, and one without tokens has the weight of one. -/
def chunkText (limit : Nat) (text : String) (tokens : Tokens) :
    Except IndexError (List TextChunk) :=
  let limit := max 1 limit
  if tokens.length ≤ limit then .ok [⟨text, max 1 tokens.length⟩]
  else tokens.windows limit 0

end CodeIndex
