import CodeIndex.Endpoint.Host
import CodeIndex.Proofs.Text.Decoding

/-!
# Characters of host texts

A character that stands for itself in a host name is in the name that is judged, whatever the
characters around it become.  So the text of a host that is accepted is not empty, has no blank or
control character at its end, and has a colon only in brackets.
-/

namespace CodeIndex.UrlHost

open Text

/-- A character below U+0080 that stands for itself in a host name: no digit to base 16, and neither
percent sign nor dot. -/
structure IsPlain (c : Char) : Prop where
  ascii : c.toNat < 128
  not_percent : c ≠ '%'
  not_dot : c ≠ '.'
  not_digit : hexDigit? c = none
  fold : foldChar c = [c]

instance (c : Char) : Decidable (IsPlain c) :=
  decidable_of_iff (c.toNat < 128 ∧ c ≠ '%' ∧ c ≠ '.' ∧ hexDigit? c = none ∧ foldChar c = [c])
    ⟨fun ⟨h₁, h₂, h₃, h₄, h₅⟩ => ⟨h₁, h₂, h₃, h₄, h₅⟩,
      fun ⟨h₁, h₂, h₃, h₄, h₅⟩ => ⟨h₁, h₂, h₃, h₄, h₅⟩⟩

private theorem isPlain_colon : IsPlain ':' := by decide

/-- Blanks and control characters are plain, and no name has one. -/
theorem isPlain_of_le {c : Char} (h : c.toNat ≤ 0x20) :
    IsPlain c ∧ isForbiddenInName c = true := by
  have hall : ∀ n < 0x21, IsPlain (Char.ofNat n) ∧ isForbiddenInName (Char.ofNat n) = true := by
    decide
  simpa using hall c.toNat (Nat.lt_succ_of_le h)

section Plain

variable {c : Char}

/-! ## §1 A plain character stays -/

private theorem mem_percentDecode {b : UInt8} (hb : b < 0x80) (hc : c.toNat = b.toNat)
    (hplain : IsPlain c) {cs : List Char} (h : c ∈ cs) :
    b ∈ percentDecode cs := by
  have hself : ∀ {x : Char} {rest : Octets}, c = x ∨ b ∈ rest →
      b ∈ octets (String.singleton x) ++ rest := by
    rintro x rest (rfl | hrest)
    · exact List.mem_append_left _ ((mem_octets hb hc).2 (by simp))
    · exact List.mem_append_right _ hrest
  fun_induction percentDecode cs with
  | case1 a d rest x y hd ha ih =>
    -- neither of the digits is the plain character
    have hca : c ≠ a := fun h => by simp [← h, hplain.not_digit] at ha
    have hcd : c ≠ d := fun h => by simp [← h, hplain.not_digit] at hd
    have hrest : c ∈ rest := by simpa [hplain.not_percent, hca, hcd] using h
    exact List.mem_cons_of_mem _ (ih hrest)
  | case2 a d rest _ ih =>
    have hrest : c ∈ a :: d :: rest := by simpa [hplain.not_percent] using h
    exact List.mem_append_right _ (ih hrest)
  | case3 x rest _ ih => exact hself ((List.mem_cons.1 h).imp id ih)
  | case4 => cases h

private theorem exists_mem_splitOn {separator : Char} (hne : c ≠ separator) {cs : List Char}
    (h : c ∈ cs) :
    ∃ piece ∈ cs.splitOn separator, c ∈ piece := by
  induction cs with
  | nil => cases h
  | cons x cs ih =>
    rw [List.splitOn_cons_eq_if_modifyHead]
    split
    · next hx =>
      have hcx : c ≠ x := fun heq => hne (heq.trans (beq_iff_eq.1 hx))
      obtain ⟨piece, hpiece, hmem⟩ := ih ((List.mem_cons.1 h).resolve_left hcx)
      exact ⟨piece, List.mem_cons_of_mem _ hpiece, hmem⟩
    · obtain ⟨first, rest, hsplit⟩ := List.exists_cons_of_ne_nil (List.splitOn_ne_nil separator cs)
      rw [hsplit] at ih ⊢
      -- the first piece grows by `x`, the others stay
      rcases List.mem_cons.1 h with rfl | h
      · exact ⟨c :: first, List.mem_cons_self, List.mem_cons_self⟩
      · obtain ⟨piece, hpiece, hmem⟩ := ih h
        rcases List.mem_cons.1 hpiece with rfl | hpiece
        · exact ⟨x :: piece, List.mem_cons_self, List.mem_cons_of_mem _ hmem⟩
        · exact ⟨piece, List.mem_cons_of_mem _ hpiece, hmem⟩

private theorem mem_intercalate {separator piece : List Char} {pieces : List (List Char)}
    (hpiece : piece ∈ pieces) (h : c ∈ piece) : c ∈ separator.intercalate pieces := by
  induction pieces with
  | nil => cases hpiece
  | cons first rest ih =>
    cases rest with
    | nil => simpa [List.mem_singleton.1 hpiece] using h
    | cons second rest =>
      rw [List.intercalate_cons_cons]
      rcases List.mem_cons.1 hpiece with rfl | hpiece
      · simp [h]
      · exact List.mem_append_right _ (ih hpiece)

private theorem mem_asciiLabel (hplain : IsPlain c) {label : List Char} (h : c ∈ label) :
    c ∈ asciiLabel label := by
  unfold asciiLabel
  split
  · exact h
  · have hbasic : c ∈ Punycode.encode label := by
      simp [Punycode.encode, h, hplain.ascii]
    exact List.mem_append_right _ hbasic

/-- A plain character is in the name that is judged. -/
theorem mem_of_asciiName? (hplain : IsPlain c) {cs name : List Char}
    (hname : asciiName? cs = some name) (h : c ∈ cs) : c ∈ name := by
  obtain ⟨text, htext, hname⟩ := Option.bind_eq_some_iff.1 hname
  -- its octet is decoded to it, folding leaves it alone, and so does the label it is in
  have hc : c.toNat = c.toNat.toUInt8.toNat := by
    rw [Nat.toUInt8, UInt8.toNat_ofNat', Nat.mod_eq_of_lt (Nat.lt_trans hplain.ascii (by decide))]
  have hb : c.toNat.toUInt8 < 0x80 := by
    rw [UInt8.lt_iff_toNat_lt, ← hc]
    exact hplain.ascii
  have hdecoded : c ∈ text.toList := by
    rw [← mem_octets hb hc, octets_of_decode? htext]
    exact mem_percentDecode hb hc hplain h
  have hfolded : c ∈ text.toList.flatMap foldChar :=
    List.mem_flatMap.2 ⟨c, hdecoded, by simp [hplain.fold]⟩
  obtain ⟨label, hlabel, hmem⟩ := exists_mem_splitOn hplain.not_dot hfolded
  dsimp only at hname
  split at hname
  · cases hname
  · rw [← Option.some.inj hname]
    exact mem_intercalate (List.mem_map_of_mem hlabel) (mem_asciiLabel hplain hmem)

private theorem not_isForbiddenInName {cs name : List Char} (hname : asciiName? cs = some name)
    {x : Char} (h : x ∈ name) :
    isForbiddenInName x = false := by
  obtain ⟨text, htext, hname⟩ := Option.bind_eq_some_iff.1 hname
  dsimp only at hname
  split at hname
  · cases hname
  · next hfree =>
    rw [← Option.some.inj hname] at h
    simp only [not_or, List.any_eq_true, not_exists, not_and] at hfree
    exact eq_false_of_ne_true (hfree.2.1 x h)

private theorem asciiName?_nil : asciiName? [] = none := by decide

end Plain

/-! ## §2 The texts of hosts -/

variable {cs : List Char} {host : UrlHost}

/-- A host is a name, or stands in brackets. -/
theorem ofText?_cases (h : ofText? cs = some host) :
    (∃ inside, cs = '[' :: (inside ++ [']'])) ∨ ∃ name, asciiName? cs = some name := by
  unfold ofText? at h
  split at h
  · next rest =>
    unfold bracketed? at h
    split at h
    · next inside hreverse =>
      exact .inl ⟨inside.reverse, by rw [← List.reverse_reverse rest, hreverse, List.reverse_cons]⟩
    · cases h
  · obtain ⟨name, hname, -⟩ := Option.bind_eq_some_iff.1 h
    exact .inr ⟨name, hname⟩

/-- No host is empty. -/
theorem ne_nil_of_ofText? (h : ofText? cs = some host) : cs ≠ [] := by
  rintro rfl
  obtain ⟨inside, hinside⟩ | ⟨name, hname⟩ := ofText?_cases h
  · cases hinside
  · rw [asciiName?_nil] at hname
    cases hname

/-- No host ends in a blank or a control character. -/
theorem lt_toNat_of_ofText? {front : List Char} {last : Char}
    (h : ofText? (front ++ [last]) = some host) : 0x20 < last.toNat := by
  obtain ⟨inside, hinside⟩ | ⟨name, hname⟩ := ofText?_cases h
  · rw [← List.cons_append] at hinside
    obtain ⟨-, hlast⟩ := List.append_inj' hinside rfl
    obtain rfl := List.singleton_inj.1 hlast
    decide
  · by_contra hle
    obtain ⟨hplain, hforbidden⟩ := isPlain_of_le (Nat.le_of_not_lt hle)
    have hfree := not_isForbiddenInName hname (mem_of_asciiName? hplain hname (by simp))
    rw [hforbidden] at hfree
    cases hfree

/-- A colon in a host is in brackets. -/
theorem eq_brackets_of_colon_mem (h : ofText? cs = some host) (hcolon : ':' ∈ cs) :
    ∃ inside, cs = '[' :: (inside ++ [']']) := by
  obtain hinside | ⟨name, hname⟩ := ofText?_cases h
  · exact hinside
  · have hfree := not_isForbiddenInName hname (mem_of_asciiName? isPlain_colon hname hcolon)
    exact absurd hfree (by decide)

end CodeIndex.UrlHost
