import CodeIndex.Proofs.Text.Octets
import Mathlib.Tactic.Ring

/-!
# Lossy decoding

Decoding gives back every text that was encoded.  Octets that are no text at all are read as one all
the same, so encoding that text does not lead back to them.  What survives in any case is ASCII: a
character below U+0080 is only ever read off its own octet, so names do not gain a slash by being
read, and no other name is read as `.` or `..`.
-/

namespace CodeIndex.Text

variable {bytes : Octets} {s : String}

/-! ## §1 Well-formed octets -/

/-- The octets of some text. -/
def IsUtf8 (bytes : Octets) : Prop := (decode? bytes).isSome = true

instance (bytes : Octets) : Decidable (IsUtf8 bytes) :=
  inferInstanceAs (Decidable ((decode? bytes).isSome = true))

private theorem mk_toArray_octets (s : String) :
    ByteArray.mk (octets s).toArray = s.toByteArray := by
  rw [octets, String.toUTF8, toList_eq, Array.toArray_toList]

/-- The octets of a text are read as the text. -/
@[simp] theorem decode?_octets (s : String) : decode? (octets s) = some s := by
  rw [decode?, mk_toArray_octets, String.fromUTF8?, dif_pos s.isValidUTF8]
  rfl

/-- Different texts have different octets. -/
theorem octets_injective : Function.Injective octets := fun s t h => by
  simpa using congrArg decode? h

/-- A text that is read has the octets that it was read from. -/
theorem octets_of_decode? (h : decode? bytes = some s) : octets s = bytes := by
  unfold decode? String.fromUTF8? at h
  split at h
  · rw [← Option.some.inj h, octets, String.toUTF8, toList_eq]
    rfl
  · cases h

/-- Of the octets of a text nothing is lost. -/
@[simp] theorem decodeLossy_octets (s : String) : decodeLossy (octets s) = s := by
  simp [decodeLossy]

/-- The octets of a text are UTF-8. -/
theorem isUtf8_octets (s : String) : IsUtf8 (octets s) := by
  simp [IsUtf8]

/-- Encoding what was read gives the octets back exactly when they were well-formed. -/
theorem octets_decodeLossy_iff : octets (decodeLossy bytes) = bytes ↔ IsUtf8 bytes := by
  constructor
  · intro h
    rw [← h]
    exact isUtf8_octets _
  · intro h
    obtain ⟨s, hs⟩ := Option.isSome_iff_exists.1 h
    rw [← octets_of_decode? hs, decodeLossy_octets]

/-! ## §2 Sequences of several octets -/

/-- The octets that are read as tails are none of the ASCII ones. -/
theorem takeTails_append (n : Nat) {lo : UInt8} (hi : UInt8) (acc : Nat) (rest : Octets)
    (hlo : 0x80 ≤ lo) :
    ∃ tails, rest = tails ++ (takeTails n lo hi acc rest).2 ∧ ∀ b ∈ tails, 0x80 ≤ b := by
  induction n generalizing lo hi acc rest with
  | zero => exact ⟨[], by simp [takeTails]⟩
  | succ n ih =>
    cases rest with
    | nil => exact ⟨[], by simp [takeTails]⟩
    | cons b rest =>
      simp only [takeTails]
      split
      -- an octet within bounds is taken, and those behind it only have to continue
      next hb =>
        obtain ⟨tails, hrest, htails⟩ := ih 0xBF (acc * 64 + b.toNat % 64) rest UInt8.le_rfl
        refine ⟨b :: tails, by rw [List.cons_append, ← hrest], ?_⟩
        simpa using ⟨UInt8.le_trans hlo hb.1, htails⟩
      next => exact ⟨[], by simp⟩

/-- Every tail adds six bits to the code point. -/
theorem takeTails_bounds {n : Nat} {lo hi : UInt8} {acc : Nat} {rest : Octets} {c : Char}
    (h : (takeTails n lo hi acc rest).1 = some c) :
    ∃ value, c = Char.ofNat value ∧ acc * 64 ^ n ≤ value ∧ value < (acc + 1) * 64 ^ n := by
  induction n generalizing lo hi acc rest with
  | zero =>
    refine ⟨acc, ?_, by simp, by simp⟩
    simpa [takeTails, eq_comm] using h
  | succ n ih =>
    cases rest with
    | nil => simp [takeTails] at h
    | cons b rest =>
      simp only [takeTails] at h
      split at h
      · obtain ⟨value, hc, hlow, hhigh⟩ := ih h
        -- each octet adds six bits below what is there
        have hbits : b.toNat % 64 + 1 ≤ 64 := Nat.mod_lt _ (by decide)
        refine ⟨value, hc, ?_, ?_⟩
        · calc acc * 64 ^ (n + 1) = (acc * 64) * 64 ^ n := by ring
            _ ≤ (acc * 64 + b.toNat % 64) * 64 ^ n := Nat.mul_le_mul_right _ (Nat.le_add_right ..)
            _ ≤ value := hlow
        · calc value < (acc * 64 + b.toNat % 64 + 1) * 64 ^ n := hhigh
            _ ≤ (acc * 64 + 64) * 64 ^ n := Nat.mul_le_mul_right _ (by omega)
            _ = (acc + 1) * 64 ^ (n + 1) := by ring
      · cases h

/-- The code points that a lead octet opens lie beyond ASCII and are those of characters, thanks to
the narrower ranges of some first tails. -/
theorem bounds_of_leadShape {lead lo hi : UInt8} {n : Nat}
    (h : leadShape lead = some (n + 1, lo, hi)) :
    0x80 ≤ lo ∧ hi ≤ 0xBF ∧ 128 ≤ (leadBits lead (n + 1) * 64 + lo.toNat % 64) * 64 ^ n ∧
      ((leadBits lead (n + 1) * 64 + hi.toNat % 64 + 1) * 64 ^ n ≤ 0xD800 ∨
        0xE000 ≤ (leadBits lead (n + 1) * 64 + lo.toNat % 64) * 64 ^ n ∧
        (leadBits lead (n + 1) * 64 + hi.toNat % 64 + 1) * 64 ^ n ≤ 0x110000) := by
  -- each kind of lead octet becomes a range of numbers
  simp only [leadShape, ite_eq_iff, UInt8.lt_iff_toNat_lt, UInt8.le_iff_toNat_le, ← UInt8.toNat_inj,
    UInt8.toNat_ofNat, Nat.reducePow, Nat.reduceMod, Option.some.injEq, Prod.mk.injEq,
    Nat.right_eq_add, Nat.reduceEqDiff, Nat.succ_ne_zero, reduceCtorEq, and_false, false_and,
    false_or, or_false] at h ⊢
  have hn : n = 0 ∨ n = 1 ∨ n = 2 := by omega
  rcases hn with rfl | rfl | rfl
  all_goals
    simp only [leadBits, Nat.reduceAdd, Nat.reducePow]
    omega

private theorem lt_of_leadShape {lead lo hi : UInt8} (h : leadShape lead = some (0, lo, hi)) :
    lead < 0x80 := by
  by_contra hlead
  -- every other lead octet opens a sequence that goes on
  simp [leadShape, hlead, ite_eq_iff] at h

/-- A valid code point is that of its character. -/
theorem toNat_ofNat {n : Nat} (h : n.isValidChar) : (Char.ofNat n).toNat = n := by
  rw [Char.ofNat, dif_pos h]
  rfl

/-- A character that is read off several octets is no ASCII character. -/
theorem toNat_takeTails {lead lo hi : UInt8} {n : Nat} {rest : Octets} {c : Char}
    (hlead : leadShape lead = some (n + 1, lo, hi))
    (h : (takeTails (n + 1) lo hi (leadBits lead (n + 1)) rest).1 = some c) : 128 ≤ c.toNat := by
  obtain ⟨hlo, hhi, hascii, hvalid⟩ := bounds_of_leadShape hlead
  generalize leadBits lead (n + 1) = bits at *
  cases rest with
  | nil => simp [takeTails] at h
  | cons b rest =>
    simp only [takeTails] at h
    split at h
    next hb =>
      obtain ⟨value, rfl, hlow, hhigh⟩ := takeTails_bounds h
      -- the range of the first tail becomes a range of code points
      have hb' : lo.toNat % 64 ≤ b.toNat % 64 ∧ b.toNat % 64 ≤ hi.toNat % 64 := by
        simp only [UInt8.le_iff_toNat_le, UInt8.toNat_ofNat] at hlo hhi hb
        omega
      have hlow' : (bits * 64 + lo.toNat % 64) * 64 ^ n ≤ value :=
        Nat.le_trans (Nat.mul_le_mul_right _ (by omega)) hlow
      have hhigh' : value < (bits * 64 + hi.toNat % 64 + 1) * 64 ^ n :=
        Nat.lt_of_lt_of_le hhigh (Nat.mul_le_mul_right _ (by omega))
      have hchar : value.isValidChar := by
        rcases hvalid with h | h
        · exact .inl (by omega)
        · exact .inr (by omega)
      rw [toNat_ofNat hchar]
      omega
    next => cases h

/-! ## §3 ASCII characters -/

private theorem decodeLossyChars_ascii {b : UInt8} (hb : b < 0x80) (rest : Octets) :
    decodeLossyChars (b :: rest) = Char.ofNat b.toNat :: decodeLossyChars rest := by
  rw [decodeLossyChars]
  simp [leadShape, hb, takeTails, leadBits]

/-- One character is read off an octet beyond ASCII and those of its tails that fit. -/
theorem decodeLossyChars_wide {b : UInt8} (hb : ¬ b < 0x80) (rest : Octets) :
    ∃ c tails rest', decodeLossyChars (b :: rest) = c :: decodeLossyChars rest' ∧
      128 ≤ c.toNat ∧ rest = tails ++ rest' ∧ ∀ b ∈ tails, 0x80 ≤ b := by
  rw [decodeLossyChars]
  split
  next => exact ⟨_, [], rest, rfl, by decide, rfl, by simp⟩
  next n lo hi hlead =>
    cases n with
    | zero => exact absurd (lt_of_leadShape hlead) hb
    | succ n =>
      have hlo : 0x80 ≤ lo := (bounds_of_leadShape hlead).1
      obtain ⟨tails, hrest, htails⟩ := takeTails_append (n + 1) hi (leadBits b (n + 1)) rest hlo
      refine ⟨_, tails, _, rfl, ?_, hrest, htails⟩
      -- the replacement character is not ASCII either
      cases hc : (takeTails (n + 1) lo hi (leadBits b (n + 1)) rest).1 with
      | none => decide
      | some c => exact toNat_takeTails hlead hc

/-- Induction along the characters that are read: ASCII octets one by one, and others with their
tails. -/
theorem decodeLossyChars_induction {P : Octets → List Char → Prop} (nil : P [] [])
    (ascii : ∀ b rest cs, b < 0x80 → P rest cs → P (b :: rest) (Char.ofNat b.toNat :: cs))
    (wide : ∀ b tails rest c cs, (∀ b' ∈ b :: tails, 0x80 ≤ b') → 128 ≤ c.toNat → P rest cs →
      P (b :: (tails ++ rest)) (c :: cs)) (bytes : Octets) : P bytes (decodeLossyChars bytes) := by
  induction hlength : bytes.length using Nat.strong_induction_on generalizing bytes with
  | _ length ih =>
    subst hlength
    cases bytes with
    | nil => rwa [decodeLossyChars]
    | cons b rest =>
      by_cases hb : b < 0x80
      · rw [decodeLossyChars_ascii hb]
        exact ascii b rest _ hb (ih _ (by simp) rest rfl)
      · obtain ⟨c, tails, rest', hchars, hc, rfl, htails⟩ := decodeLossyChars_wide hb rest
        rw [hchars]
        -- the lead is gone at least, whatever the tail
        have hshorter : rest'.length < (b :: (tails ++ rest')).length := by
          rw [List.length_cons, List.length_append]
          omega
        refine wide b tails rest' c _ ?_ hc (ih _ hshorter rest' rfl)
        exact List.forall_mem_cons.2 ⟨UInt8.not_lt.1 hb, htails⟩

private theorem toNat_ofNat_ascii {b : UInt8} (hb : b < 0x80) :
    (Char.ofNat b.toNat).toNat = b.toNat := by
  rw [UInt8.lt_iff_toNat_lt] at hb
  exact toNat_ofNat (.inl (Nat.lt_trans hb (by decide)))

private theorem mem_decodeLossyChars {b : UInt8} (hb : b < 0x80) {c : Char}
    (hc : c.toNat = b.toNat) :
    c ∈ decodeLossyChars bytes ↔ b ∈ bytes := by
  have hb' : b.toNat < 128 := hb
  induction bytes using decodeLossyChars_induction with
  | nil => simp
  | ascii b' rest cs hascii ih =>
    have ih : c ∈ cs ↔ b ∈ rest := ih
    rw [List.mem_cons, List.mem_cons, ih, ← Char.toNat_inj, toNat_ofNat_ascii hascii, hc,
      UInt8.toNat_inj]
  | wide b' tails rest c' cs hwide hc' ih =>
    have hne : c ≠ c' := fun h => by
      rw [← h] at hc'
      omega
    -- an ASCII octet is no part of a wide character
    have hnot : b ∉ b' :: tails := fun h => UInt8.not_lt.2 (hwide b h) hb
    have ih : c ∈ cs ↔ b ∈ rest := ih
    rw [List.mem_cons, ← List.cons_append, List.mem_append, ih]
    simp [hne, hnot]

/-- An ASCII character is read wherever its octet stands, and nowhere else. -/
theorem mem_decodeLossy {b : UInt8} (hb : b < 0x80) {c : Char} (hc : c.toNat = b.toNat) :
    c ∈ (decodeLossy bytes).toList ↔ b ∈ bytes := by
  cases h : decode? bytes with
  | none => simp [decodeLossy, h, mem_decodeLossyChars hb hc]
  | some s => rw [← octets_of_decode? h, decodeLossy_octets, mem_octets hb hc]

private theorem octets_decodeLossyChars (h : ∀ c ∈ decodeLossyChars bytes, c.toNat < 128) :
    octets (String.ofList (decodeLossyChars bytes)) = bytes := by
  rw [octets_eq, String.toList_ofList]
  induction bytes using decodeLossyChars_induction with
  | nil => rfl
  | ascii b rest cs hb ih =>
    -- an ASCII character is written as its one octet
    have hoctet : String.utf8EncodeChar (Char.ofNat b.toNat) = [b] := by
      have hvalue : (Char.ofNat b.toNat).val.toNat = b.toNat := toNat_ofNat_ascii hb
      have hb' : b.toNat ≤ 0x7F := Nat.le_of_lt_succ hb
      rw [String.utf8EncodeChar]
      simp [hvalue, hb']
    rw [List.flatMap_cons, hoctet, ih fun c hc => h c (List.mem_cons_of_mem _ hc)]
    rfl
  | wide b tails rest c cs hwide hc ih => exact absurd (h c List.mem_cons_self) (by omega)

/-- An ASCII text is read off its own octets alone. -/
theorem decodeLossy_eq_iff (hs : ∀ c ∈ s.toList, c.toNat < 128) :
    decodeLossy bytes = s ↔ bytes = octets s := by
  constructor
  · intro h
    cases hd : decode? bytes with
    | some t => rw [← octets_of_decode? hd, ← h, ← octets_of_decode? hd, decodeLossy_octets]
    | none =>
      -- no replacement character is ASCII, so nothing was replaced
      have hchars : String.ofList (decodeLossyChars bytes) = s := by simpa [decodeLossy, hd] using h
      rw [← hchars, octets_decodeLossyChars]
      simpa [← hchars] using hs
  · rintro rfl
    exact decodeLossy_octets s

end CodeIndex.Text
