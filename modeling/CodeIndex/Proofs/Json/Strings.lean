import CodeIndex.Json.Decode
import CodeIndex.Json.Writer

/-!
# Written lists of strings

Reading takes back what writing escapes: `stringChar?_escapeChar` for one character,
`string?_append` for a string, and `ofText?_writeStrings` for a whole list of strings.
-/

namespace CodeIndex.Json

/-! ## §1 Characters -/

private theorem hexDigit?_digitChar :
    ∀ n < 16, Text.hexDigit? (Nat.digitChar n) = some n := by
  decide

private theorem hex4?_hexOctet {n : Nat} (h : n < 256) (rest : List Char) :
    hex4? ('0' :: '0' :: (Text.hexOctet n.toUInt8 ++ rest)) = some (n, rest) := by
  have hn : (n.toUInt8).toNat = n := by
    simpa using Nat.mod_eq_of_lt h
  have hzero : Text.hexDigit? '0' = some 0 := by decide
  have hhigh := hexDigit?_digitChar (n / 16) (by omega)
  have hlow := hexDigit?_digitChar (n % 16) (by omega)
  simp only [Text.hexOctet, hn, List.cons_append, List.nil_append, hex4?, hzero, hhigh, hlow]
  congr 2
  omega

/-- The characters with an escape of their own. -/
def shortEscaped : List Char := ['"', '\\', '\x08', '\x0c', '\n', '\r', '\t']

private theorem escapeChar_of_not_shortEscaped {c : Char} (h : c ∉ shortEscaped) : escapeChar c =
    if c.toNat < 0x20 then ['\\', 'u', '0', '0'] ++ Text.hexOctet c.toNat.toUInt8 else [c] := by
  simp only [shortEscaped, List.mem_cons, List.not_mem_nil, or_false, not_or] at h
  simp only [escapeChar, h, if_false]

/-- An escaped character is read back, whatever follows. -/
theorem stringChar?_escapeChar (c : Char) (rest : List Char) :
    stringChar? (escapeChar c ++ rest) = some (some c, rest) := by
  by_cases hshort : c ∈ shortEscaped
  · simp only [shortEscaped, List.mem_cons, List.not_mem_nil, or_false] at hshort
    rcases hshort with rfl | rfl | rfl | rfl | rfl | rfl | rfl <;> rfl
  rw [escapeChar_of_not_shortEscaped hshort]
  split
  · next hcontrol =>
    -- the remaining control characters are spelled by their code points
    have hhex := hex4?_hexOctet (n := c.toNat) (by omega) rest
    have hhigh : isHighSurrogate c.toNat = false := by
      simp only [isHighSurrogate, Bool.and_eq_false_iff, decide_eq_false_iff_not]
      omega
    have hlow : isLowSurrogate c.toNat = false := by
      simp only [isLowSurrogate, Bool.and_eq_false_iff, decide_eq_false_iff_not]
      omega
    simp only [List.cons_append, List.nil_append, stringChar?, hhex, hhigh, hlow,
      Bool.false_eq_true, if_false, Char.ofNat_toNat]
  · -- any other character stands for itself
    have hquote : c ≠ '"' := fun h => hshort (by simp [shortEscaped, h])
    have hslash : c ≠ '\\' := fun h => hshort (by simp [shortEscaped, h])
    simp only [List.cons_append, List.nil_append]
    rw [stringChar?.eq_def]
    split
    all_goals simp_all

/-- No escaped character looks like the end of a string. -/
theorem escapeChar_head (c : Char) (rest : List Char) :
    ∃ d more, escapeChar c ++ rest = d :: more ∧ d ≠ '"' := by
  by_cases hshort : c ∈ shortEscaped
  · simp only [shortEscaped, List.mem_cons, List.not_mem_nil, or_false] at hshort
    rcases hshort with rfl | rfl | rfl | rfl | rfl | rfl | rfl <;> exact ⟨'\\', _, rfl, by decide⟩
  · rw [escapeChar_of_not_shortEscaped hshort]
    split
    · exact ⟨'\\', _, rfl, by decide⟩
    · exact ⟨c, rest, rfl, fun h => hshort (by simp [shortEscaped, h])⟩

private theorem escapeChar_ne_nil (c : Char) : escapeChar c ≠ [] := by
  obtain ⟨d, more, hhead, -⟩ := escapeChar_head c []
  rw [List.append_nil] at hhead
  rw [hhead]
  exact List.cons_ne_nil d more

/-! ## §2 Strings -/

private theorem stringBody?_append (cs rest : List Char) :
    ∀ fuel, cs.length < fuel →
      stringBody? fuel (cs.flatMap escapeChar ++ '"' :: rest) = some (some cs, rest) := by
  induction cs with
  | nil =>
    intro fuel hfuel
    obtain ⟨fuel, rfl⟩ := Nat.exists_eq_succ_of_ne_zero (Nat.ne_of_gt hfuel)
    rfl
  | cons c cs ih =>
    intro fuel hfuel
    rw [List.length_cons] at hfuel
    obtain ⟨fuel, rfl⟩ := Nat.exists_eq_succ_of_ne_zero (by omega : fuel ≠ 0)
    -- the reader looks for the closing quote first, and an escape never begins with one
    rw [List.flatMap_cons, List.append_assoc]
    have hchar := stringChar?_escapeChar c (cs.flatMap escapeChar ++ '"' :: rest)
    obtain ⟨d, more, hhead, hd⟩ := escapeChar_head c (cs.flatMap escapeChar ++ '"' :: rest)
    rw [hhead] at hchar ⊢
    rw [stringBody?.eq_def]
    simp only [hchar, ih fuel (by omega)]
    split
    · next heq => exact absurd (List.cons.inj heq).1 hd
    · rfl

private theorem length_le_flatMap_escapeChar (cs : List Char) :
    cs.length ≤ (cs.flatMap escapeChar).length := by
  induction cs with
  | nil => simp
  | cons c cs ih =>
    have := List.length_pos_iff.2 (escapeChar_ne_nil c)
    rw [List.flatMap_cons, List.length_append, List.length_cons]
    omega

/-- A string is read up to its closing quote. -/
theorem string?_append (s : String) (rest : List Char) :
    string? (s.toList.flatMap escapeChar ++ '"' :: rest) = some (some s, rest) := by
  have hfuel : s.toList.length <
      (s.toList.flatMap escapeChar ++ '"' :: rest).length + 1 := by
    have := length_le_flatMap_escapeChar s.toList
    simp only [List.length_append, List.length_cons]
    omega
  rw [string?, stringBody?_append _ _ _ hfuel]
  simp

/-! ## §3 Lists -/

@[simp] theorem skipSpace_quote (s : List Char) : skipSpace ('"' :: s) = '"' :: s := rfl
@[simp] theorem skipSpace_comma (s : List Char) : skipSpace (',' :: s) = ',' :: s := rfl
@[simp] theorem skipSpace_close (s : List Char) : skipSpace (']' :: s) = ']' :: s := rfl

/-- A string as a value. -/
def ofString (s : String) : Json := .string (some s)

private theorem value?_writeString (fuel : Nat) (s : String) (rest : List Char) :
    value? (fuel + 1) (writeString s ++ rest) = some (ofString s, rest) := by
  have htext : writeString s ++ rest = '"' :: (s.toList.flatMap escapeChar ++ '"' :: rest) := by
    simp [writeString]
  rw [htext, value?.eq_def]
  simp only [skipSpace_quote, string?_append]
  rfl

private theorem value?_array (fuel : Nat) (rest : List Char) :
    value? (fuel + 1) ('[' :: '"' :: rest) =
      (items? fuel ('"' :: rest)).map fun (items, rest) => (.array items, rest) := by
  rw [value?.eq_def]
  rfl

/-- Written strings are read as the items of an array, up to the closing bracket. -/
theorem items?_commaSeparated (s : String) (items : List String) (rest : List Char) :
    ∀ fuel, items.length + 1 < fuel →
      items? fuel (commaSeparated ((s :: items).map writeString) ++ ']' :: rest) =
        some ((s :: items).map ofString, rest) := by
  induction items generalizing s with
  | nil =>
    intro fuel hfuel
    obtain ⟨fuel, rfl⟩ : ∃ n, fuel = n + 2 := ⟨fuel - 2, by simp at hfuel; omega⟩
    simp only [List.map_cons, List.map_nil, commaSeparated]
    rw [items?.eq_def]
    simp only [value?_writeString, skipSpace_close]
  | cons t items ih =>
    intro fuel hfuel
    rw [List.length_cons] at hfuel
    obtain ⟨fuel, rfl⟩ : ∃ n, fuel = n + 2 := ⟨fuel - 2, by omega⟩
    -- the text of the first item and its comma stand in front
    have htext : commaSeparated ((s :: t :: items).map writeString) ++ ']' :: rest =
        writeString s ++
          (',' :: (commaSeparated ((t :: items).map writeString) ++ ']' :: rest)) := by
      simp [commaSeparated]
    rw [htext, items?.eq_def]
    simp only [value?_writeString, skipSpace_comma, ih t (fuel + 1) (by omega)]
    rfl

private theorem length_le_commaSeparated (items : List String) :
    items.length ≤ (commaSeparated (items.map writeString)).length := by
  -- no text of an item is empty, so fuel for the length is enough for the items
  have hpos : ∀ s, 0 < (writeString s).length := by simp [writeString]
  induction items with
  | nil => simp
  | cons s items ih =>
    have := hpos s
    cases items with
    | nil =>
      simp only [List.map_cons, List.map_nil, commaSeparated, List.length_cons, List.length_nil]
      omega
    | cons t items =>
      simp only [List.map_cons, commaSeparated, List.length_append, List.length_cons] at ih ⊢
      omega

private theorem commaSeparated_head (s : String) (items : List String) (rest : List Char) :
    ∃ more, commaSeparated ((s :: items).map writeString) ++ rest = '"' :: more := by
  cases items with
  | nil => exact ⟨_, rfl⟩
  | cons t items => exact ⟨_, rfl⟩

/-- A written list of strings is read back. -/
theorem ofText?_writeStrings (items : List String) :
    ofText? (String.ofList (writeStrings items)) = some (.array (items.map ofString)) := by
  rw [ofText?, String.toList_ofList, ofChars?]
  cases items with
  | nil => rfl
  | cons s items =>
    have htext : writeStrings (s :: items) =
        '[' :: (commaSeparated ((s :: items).map writeString) ++ [']']) := by
      simp [writeStrings, writeArray]
    obtain ⟨more, hmore⟩ := commaSeparated_head s items [']']
    -- the reader's fuel is counted in characters, and every item has at least one
    have hcount : items.length + 1 < 2 * ('[' :: '"' :: more).length + 1 := by
      have hlength := length_le_commaSeparated (s :: items)
      rw [← hmore]
      simp only [List.length_cons, List.length_append] at hlength ⊢
      omega
    have hitems := items?_commaSeparated s items [] _ hcount
    rw [hmore] at hitems
    rw [htext, hmore, value?_array, hitems]
    rfl

/-- The strings of a written list. -/
theorem asStrings?_map_ofString (items : List String) :
    asStrings? (.array (items.map ofString)) = some items := by
  show (items.map ofString).mapM asText? = some items
  induction items with
  | nil => rfl
  | cons s items ih =>
    rw [List.map_cons, List.mapM_cons, ih]
    rfl

end CodeIndex.Json
