import CodeIndex.Text.Basic
import CodeIndex.Text.Utf8
import Mathlib.Data.List.Basic

/-!
# Texts and their octets

Encoding sends joined texts to joined octets, and a separator from the ASCII range is found among
the octets exactly where it is found in the text.  So a text can be cut at line feeds or slashes
before or after it is encoded.
-/

namespace CodeIndex.Text

/-! ## §1 Octets of a text -/

private theorem toList_loop_eq (bytes : ByteArray) (i : Nat) (done : Octets) :
    ByteArray.toList.loop bytes i done = done.reverse ++ bytes.data.toList.drop i := by
  -- the loop runs up to the end, so what is left decreases
  induction hleft : bytes.size - i generalizing i done with
  | zero =>
    have hend : bytes.size ≤ i := Nat.le_of_sub_eq_zero hleft
    rw [ByteArray.toList.loop.eq_def, if_neg (Nat.not_lt.2 hend), List.drop_eq_nil_of_le hend,
      List.append_nil]
  | succ left ih =>
    have hi : i < bytes.size := Nat.lt_of_sub_eq_succ hleft
    have hget : bytes.get! i = bytes.data.toList[i] := by simp [ByteArray.get!, hi]
    rw [ByteArray.toList.loop.eq_def, if_pos hi, ih _ _ (by omega),
      List.drop_eq_getElem_cons (l := bytes.data.toList) hi, hget, List.reverse_cons,
      List.append_assoc, List.singleton_append]

/-- Octets as a list are those of the array. -/
theorem toList_eq (bytes : ByteArray) : bytes.toList = bytes.data.toList := by
  simp [ByteArray.toList, toList_loop_eq]

/-- The octets of a text are those of its characters in a row. -/
theorem octets_eq (s : String) : octets s = s.toList.flatMap String.utf8EncodeChar := by
  rw [octets, String.toUTF8, ← String.utf8Encode_toList, toList_eq, List.utf8Encode,
    List.toList_data_toByteArray]

@[simp] theorem octets_empty : octets "" = [] := by simp [octets_eq]

@[simp] theorem octets_append (s t : String) : octets (s ++ t) = octets s ++ octets t := by
  simp [octets_eq]

/-- Joining texts joins their octets. -/
theorem octets_intercalate (separator : String) (pieces : List String) :
    octets (separator.intercalate pieces) = (octets separator).intercalate (pieces.map octets) := by
  induction pieces with
  | nil => simp
  | cons first rest ih =>
    cases rest with
    | nil => simp
    | cons second rest => simpa using ih

/-! ## §2 Characters of one octet -/

/-- An octet below `0x80` stands for the character of its value, wherever it occurs. -/
theorem mem_utf8EncodeChar {b : UInt8} (hb : b < 0x80) {c : Char} :
    b ∈ String.utf8EncodeChar c ↔ c.toNat = b.toNat := by
  have hb' : b.toNat < 128 := hb
  have hmem : ∀ n, b = UInt8.ofNat n ↔ b.toNat = n % 256 := fun n => by
    rw [← UInt8.toNat_inj, UInt8.toNat_ofNat']
  have hvalue : c.val.toNat = c.toNat := rfl
  -- the octets of longer encodings have their highest bit set
  unfold String.utf8EncodeChar
  simp only [hvalue]
  split_ifs <;> simp only [List.mem_cons, List.not_mem_nil, or_false, hmem] <;> omega

/-- An ASCII octet is in a text just if its character is. -/
theorem mem_octets {b : UInt8} (hb : b < 0x80) {c : Char} (hc : c.toNat = b.toNat) {s : String} :
    b ∈ octets s ↔ c ∈ s.toList := by
  rw [octets_eq, List.mem_flatMap]
  constructor
  · rintro ⟨c', hc', hmem⟩
    rw [mem_utf8EncodeChar hb, ← hc, Char.toNat_inj] at hmem
    rwa [← hmem]
  · exact fun h => ⟨c, h, (mem_utf8EncodeChar hb).2 hc⟩

private theorem not_mem_of_mem_splitOn {α : Type} [BEq α] [LawfulBEq α] {x : α} {xs piece : List α}
    (h : piece ∈ xs.splitOn x) : x ∉ piece := by
  induction xs generalizing piece with
  | nil =>
    rw [List.splitOn_nil, List.mem_singleton] at h
    simp [h]
  | cons a xs ih =>
    rw [List.splitOn_cons_eq_if_modifyHead] at h
    split at h
    · rcases List.mem_cons.1 h with rfl | h
      · exact List.not_mem_nil
      · exact ih h
    · next hne =>
      -- the first piece grows by an element that is no separator
      obtain ⟨first, rest, hsplit⟩ := List.exists_cons_of_ne_nil (List.splitOn_ne_nil x xs)
      rw [hsplit, List.modifyHead_cons] at h
      rcases List.mem_cons.1 h with rfl | h
      · have hfirst : x ∉ first := ih (by simp [hsplit])
        intro hx
        rcases List.mem_cons.1 hx with rfl | hx
        · exact hne (beq_self_eq_true x)
        · exact hfirst hx
      · exact ih (by simp [hsplit, h])

/-! ## §3 Lines -/

/-- No line has a line feed in it. -/
theorem not_mem_of_mem_lines {s l : String} (h : l ∈ lines s) : '\n' ∉ l.toList := by
  obtain ⟨piece, hpiece, rfl⟩ := List.mem_map.1 h
  simpa using not_mem_of_mem_splitOn hpiece

/-- The lines of a text make up the text. -/
theorem joinLines_lines (s : String) : joinLines (lines s) = s := by
  rw [← String.toList_inj, joinLines, String.toList_intercalate, lines, List.map_map]
  have hpieces : (String.toList ∘ String.ofList) = id := by
    funext piece
    simp
  rw [hpieces, List.map_id]
  exact List.intercalate_splitOn '\n'

/-- Lines that are joined are told apart again. -/
theorem lines_joinLines {ls : List String} (hne : ls ≠ []) (h : ∀ l ∈ ls, '\n' ∉ l.toList) :
    lines (joinLines ls) = ls := by
  have hsplit : List.splitOn '\n' (['\n'].intercalate (ls.map String.toList)) =
      ls.map String.toList :=
    List.splitOn_intercalate '\n' (by simpa using h) (by simpa using hne)
  rw [lines, joinLines, String.toList_intercalate]
  change (List.splitOn '\n' (['\n'].intercalate _)).map _ = _
  rw [hsplit, List.map_map]
  simp [Function.comp_def]

end CodeIndex.Text
