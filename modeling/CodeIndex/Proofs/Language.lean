import CodeIndex.Language
import CodeIndex.Proofs.Text.Octets
import Mathlib.Data.List.TakeWhile

/-!
# Names of source files

The extension of a name is what follows its last dot, as long as there is something before it.  So
the files that can be indexed are told by their names alone: `Language.isSome_ofFileName?_iff`.
-/

namespace CodeIndex

namespace FilePath

variable {name stem ext : RawName}

private theorem nameExtension?_append (hext : dot ∉ ext) :
    nameExtension? (stem ++ dot :: ext) = if stem = [] then none else some ext := by
  have hreverse : (stem ++ dot :: ext).reverse = ext.reverse ++ dot :: stem.reverse := by simp
  have hnodot : ∀ b ∈ ext.reverse, (b != dot) = true := fun b hb =>
    bne_iff_ne.2 fun hdot => hext (hdot ▸ List.mem_reverse.1 hb)
  unfold nameExtension?
  rw [hreverse, List.takeWhile_append_of_pos hnodot, List.dropWhile_append_of_pos hnodot]
  simp

private theorem nameExtension?_of_not_mem (h : dot ∉ name) : nameExtension? name = none := by
  have hnodot : ∀ b ∈ name.reverse, (b != dot) = true := fun b hb =>
    bne_iff_ne.2 fun hdot => h (hdot ▸ List.mem_reverse.1 hb)
  unfold nameExtension?
  rw [List.dropWhile_eq_nil_iff.2 hnodot]

/-- A name with a dot is split at the last one. -/
theorem exists_of_dot_mem (h : dot ∈ name) :
    ∃ stem ext, name = stem ++ dot :: ext ∧ dot ∉ ext := by
  obtain ⟨ext, stem, hreverse, hext⟩ := List.eq_append_cons_of_mem (List.mem_reverse.2 h)
  refine ⟨stem.reverse, ext.reverse, ?_, fun hmem => hext (List.mem_reverse.1 hmem)⟩
  rw [← List.reverse_reverse name, hreverse]
  simp

private theorem nameExtension?_eq_some_iff : nameExtension? name = some ext ↔
    dot ∉ ext ∧ ∃ stem, stem ≠ [] ∧ name = stem ++ dot :: ext := by
  constructor
  · intro h
    -- the extension starts at the last dot, if there is one
    by_cases hdot : dot ∈ name
    · obtain ⟨stem, ext', rfl, hext⟩ := exists_of_dot_mem hdot
      rw [nameExtension?_append hext] at h
      split at h
      · cases h
      · next hstem =>
        obtain rfl := Option.some.inj h
        exact ⟨hext, stem, hstem, rfl⟩
    · rw [nameExtension?_of_not_mem hdot] at h
      cases h
  · rintro ⟨hext, stem, hstem, rfl⟩
    rw [nameExtension?_append hext, if_neg hstem]

end FilePath

namespace Language

variable {name ext : RawName}

private theorem mem_all (l : Language) : l ∈ all := by
  cases l <;> decide

private theorem isSome_ofExtension?_iff :
    (ofExtension? ext).isSome = true ↔ ∃ l : Language, ∃ e ∈ l.extensions, Text.octets e = ext := by
  simp only [ofExtension?, List.find?_isSome, List.any_eq_true, beq_iff_eq, mem_all, true_and]

private theorem dot_not_mem_octets {l : Language} {e : String} (he : e ∈ l.extensions) :
    FilePath.dot ∉ Text.octets e := by
  rw [Text.mem_octets (c := '.') (by decide) rfl]
  revert e
  cases l <;> decide

/-- The name is something, a dot, and an extension of a language. -/
def IsSourceName (name : RawName) : Prop :=
  ∃ stem, ∃ l : Language, ∃ e ∈ l.extensions,
    stem ≠ [] ∧ name = stem ++ FilePath.dot :: Text.octets e

/-- A language is found for the names of source files, and for no others. -/
theorem isSome_ofFileName?_iff : (ofFileName? name).isSome = true ↔ IsSourceName name := by
  unfold ofFileName? IsSourceName
  cases hext : FilePath.nameExtension? name with
  | none =>
    refine iff_of_false (by simp) ?_
    rintro ⟨stem, l, e, he, hstem, hname⟩
    rw [FilePath.nameExtension?_eq_some_iff.2 ⟨dot_not_mem_octets he, stem, hstem, hname⟩] at hext
    cases hext
  | some ext =>
    rw [Option.bind_some, isSome_ofExtension?_iff]
    constructor
    · rintro ⟨l, e, he, rfl⟩
      obtain ⟨-, stem, hstem, hname⟩ := FilePath.nameExtension?_eq_some_iff.1 hext
      exact ⟨stem, l, e, he, hstem, hname⟩
    · rintro ⟨stem, l, e, he, hstem, hname⟩
      -- a name has one extension
      rw [FilePath.nameExtension?_eq_some_iff.2 ⟨dot_not_mem_octets he, stem, hstem, hname⟩] at hext
      exact ⟨l, e, he, Option.some.inj hext⟩

end Language

end CodeIndex
