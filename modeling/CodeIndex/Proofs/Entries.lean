import Mathlib.Data.List.Nodup

/-!
# Entries under keys

A list of pairs is read as a table of entries by `List.lookup`, which finds the first entry under a
key.  Where no key is used twice, to be found is to be in the list, so that the order does not
matter.
-/

namespace CodeIndex

variable {α β : Type} [BEq α] [LawfulBEq α] {entries entries' : List (α × β)} {key : α} {value : β}

/-- What is looked up is there. -/
theorem mem_of_lookup (h : entries.lookup key = some value) : (key, value) ∈ entries := by
  obtain ⟨front, back, rfl, -⟩ := List.lookup_eq_some_iff.1 h
  simp

/-- Entries under different keys are found under their keys. -/
theorem lookup_of_mem (hdistinct : (entries.map Prod.fst).Nodup) (he : (key, value) ∈ entries) :
    entries.lookup key = some value := by
  induction entries with
  | nil => cases he
  | cons first rest ih =>
    rw [List.map_cons, List.nodup_cons] at hdistinct
    rcases List.mem_cons.1 he with rfl | he
    · simp
    · have hne : (key == first.1) = false := beq_false_of_ne fun h =>
        hdistinct.1 (h ▸ List.mem_map_of_mem (f := Prod.fst) he)
      rw [List.lookup_cons, hne]
      exact ih hdistinct.2 he

/-- Under distinct keys the order of the entries does not matter to a lookup. -/
theorem lookup_eq_of_perm (hperm : entries.Perm entries') (hdistinct : (entries.map Prod.fst).Nodup)
    (key : α) : entries.lookup key = entries'.lookup key := by
  have hdistinct' : (entries'.map Prod.fst).Nodup := (hperm.map Prod.fst).nodup_iff.1 hdistinct
  -- under distinct keys to be found is to be there
  refine Option.ext fun value => ⟨fun h => ?_, fun h => ?_⟩
  · exact lookup_of_mem hdistinct' (hperm.mem_iff.1 (mem_of_lookup h))
  · exact lookup_of_mem hdistinct (hperm.mem_iff.2 (mem_of_lookup h))

end CodeIndex
