import CodeIndex.Proofs.Decomposition.Shape
import CodeIndex.SyntaxTree.Cursor
import Mathlib.Data.List.Nodup

/-!
# The search for the first fault

On any tree the search looks at some of the nodes, in preorder and at each of them once.  Where the
nodes are flagged as having a fault below them exactly if they have one, nothing that it steps over
matters, and it finds what a look at every node would find: `firstFault?_eq`.
-/

namespace CodeIndex.SyntaxTree

/-! ## §1 Addresses in preorder -/

private theorem placedAll_eq (ts : List SyntaxTree) (parent : Address) (before : Nat) :
    placedAll parent before ts =
      (ts.zipIdx before).flatMap fun p => p.1.placed (p.2 :: parent) := by
  induction ts generalizing before with
  | nil => rfl
  | cons t ts ih => rw [placedAll, ih, List.zipIdx_cons, List.flatMap_cons]

/-- The preorder of several trees is that of each, one after the other. -/
theorem preorderAll_eq (ts : List SyntaxTree) : preorderAll ts = ts.flatMap preorder := by
  induction ts with
  | nil => rfl
  | cons t ts ih => rw [preorderAll, ih, List.flatMap_cons]

private theorem suffix_of_mem_placed {t : SyntaxTree} {address : Address} {p : Address × SyntaxTree}
    (h : p ∈ t.placed address) : address <:+ p.1 := by
  induction t generalizing address with
  | node info children ih =>
    rw [placed_eq, placedAll_eq] at h
    rcases List.mem_cons.1 h with rfl | h
    · exact List.suffix_rfl
    · obtain ⟨⟨c, n⟩, hc, hp⟩ := List.mem_flatMap.1 h
      exact (List.suffix_cons n address).trans (ih c (List.fst_mem_of_mem_zipIdx hc) hp)

/-- No two nodes have the same address. -/
theorem nodup_placed (t : SyntaxTree) (address : Address) :
    ((t.placed address).map Prod.fst).Nodup := by
  induction t generalizing address with
  | node info children ih =>
    rw [placed_eq, placedAll_eq, List.map_cons, List.map_flatMap, List.nodup_cons,
      List.nodup_flatMap]
    refine ⟨?_, ?_, ?_⟩
    · -- the addresses below a node are longer than its own
      intro hmem
      obtain ⟨⟨c, n⟩, _, hp⟩ := List.mem_flatMap.1 hmem
      obtain ⟨p, hp, heq⟩ := List.mem_map.1 hp
      have hlength := (suffix_of_mem_placed hp).length_le
      simp only [heq, List.length_cons] at hlength
      omega
    · intro p hp
      exact ih p.1 (List.fst_mem_of_mem_zipIdx hp) _
    · have hordered : (children.zipIdx.map Prod.snd).Pairwise (· < ·) := by
        rw [List.zipIdx_map_snd]
        exact List.pairwise_lt_range'
      apply (List.pairwise_map.1 hordered).imp
      -- an address below two siblings would end with the numbers of both
      intro p q hlt a ha hb
      obtain ⟨pa, hpa, rfl⟩ := List.mem_map.1 ha
      obtain ⟨pb, hpb, heq⟩ := List.mem_map.1 hb
      have hsuffix := suffix_of_mem_placed hpb
      rw [heq] at hsuffix
      have hsame := (List.suffix_of_suffix_length_le (suffix_of_mem_placed hpa) hsuffix
        (Nat.le_refl _)).eq_of_length rfl
      simp at hsame
      omega

private theorem map_info_placed (t : SyntaxTree) (address : Address) :
    (t.placed address).map (fun p => p.2.info) = t.preorder := by
  induction t generalizing address with
  | node info children ih =>
    rw [placed_eq, children_node, placedAll_eq, List.map_cons, List.map_flatMap, preorder,
      preorderAll_eq]
    have hbelow : ∀ p ∈ children.zipIdx,
        (p.1.placed (p.2 :: address)).map (fun q => q.2.info) = p.1.preorder :=
      fun p hp => ih p.1 (List.fst_mem_of_mem_zipIdx hp) _
    rw [List.flatMap_congr hbelow, ← List.flatMap_map Prod.fst, List.zipIdx_map_fst, info_node]

private theorem map_info_placedAll (ts : List SyntaxTree) (parent : Address) (before : Nat) :
    (placedAll parent before ts).map (fun p => p.2.info) = preorderAll ts := by
  induction ts generalizing before with
  | nil => rfl
  | cons t ts ih => rw [placedAll, List.map_append, map_info_placed, ih, preorderAll]

/-! ## §2 What the search looks at -/

namespace Cursor

/-- From the root of a tree the whole of it lies ahead. -/
theorem after_ofTree (t : SyntaxTree) :
    (ofTree t).here :: (ofTree t).after = t.placed [] := by
  rw [placed_eq]
  show _ :: (placedAll [] 0 t.children ++ []) = _
  rw [List.append_nil]
  rfl

/-- The search goes forward only: what it looks at comes in the order of the tree. -/
theorem visited_sublist (c : Cursor) :
    (c.search.visited.map here).Sublist (c.here :: c.after) := by
  fun_induction search c with
  | case1 c hfault => simp
  | case2 c hfault next hnext rest ih =>
    rw [after_of_next? hnext, List.map_cons]
    apply List.Sublist.cons_cons
    exact ih.trans (List.sublist_append_right _ _)
  | case3 c hfault hnext => simp

end Cursor

/-! ## §3 What the search finds -/

/-- The node is flagged just if it or a node below it is an error or missing node. -/
def FlagExact (t : SyntaxTree) : Prop :=
  t.info.hasError = true ↔ ∃ i ∈ t.preorder, i.isFault = true

/-- All through the tree, flags are exact. -/
def FlagsExact (t : SyntaxTree) : Prop := ∀ p ∈ t.placed [], p.2.FlagExact

instance (t : SyntaxTree) : Decidable t.FlagExact :=
  inferInstanceAs (Decidable (_ ↔ _))

instance (t : SyntaxTree) : Decidable t.FlagsExact :=
  inferInstanceAs (Decidable (∀ p ∈ t.placed [], p.2.FlagExact))

namespace Cursor

private theorem not_isFault_of_mem_passedOver {c : Cursor} (h : c.tree.FlagExact)
    {p : Address × SyntaxTree} (hp : p ∈ c.passedOver) : ¬p.2.info.isFault = true := by
  unfold passedOver at hp
  split at hp
  · cases hp
  · next hflag =>
    -- without the flag, there is no fault anywhere below
    intro hfault
    apply hflag
    apply h.2
    refine ⟨p.2.info, ?_, hfault⟩
    have hmem := List.mem_map_of_mem (f := fun q => q.2.info) hp
    rw [map_info_placedAll] at hmem
    obtain ⟨⟨info, children⟩, way⟩ := c
    exact List.mem_cons_of_mem info hmem

/-- What is stepped over has no faults, so the search stops at the first one ahead. -/
theorem found_eq {c : Cursor} (h : ∀ p ∈ c.here :: c.after, p.2.FlagExact) :
    c.search.found.map here = (c.here :: c.after).find? fun p => p.2.info.isFault := by
  fun_induction search c with
  | case1 c hfault =>
    have hhere : c.here.2.info.isFault = true := hfault
    simp [hhere]
  | case2 c hfault next hnext rest ih =>
    have hhere : c.here.2.info.isFault = false := eq_false_of_ne_true hfault
    rw [after_of_next? hnext] at h ⊢
    -- what the cursor passes over has no fault, so the search goes on behind it
    have hover : c.passedOver.find? (fun p => p.2.info.isFault) = none :=
      List.find?_eq_none.2 fun p hp => not_isFault_of_mem_passedOver (h _ List.mem_cons_self) hp
    simp only [List.find?_cons, hhere, List.find?_append, hover, Option.none_or]
    apply ih
    intro p hp
    exact h p (List.mem_cons_of_mem _ (List.mem_append_right _ hp))
  | case3 c hfault hnext =>
    have hhere : c.here.2.info.isFault = false := eq_false_of_ne_true hfault
    rw [after_of_next?_eq_none hnext] at h ⊢
    simp only [List.find?_cons, hhere]
    symm
    apply List.find?_eq_none.2
    intro p hp
    exact not_isFault_of_mem_passedOver (h _ List.mem_cons_self) hp

end Cursor

/-- With exact flags, the search finds the first fault in preorder. -/
theorem firstFault?_eq {t : SyntaxTree} (h : t.FlagsExact) :
    t.firstFault? = t.preorder.find? NodeInfo.isFault := by
  have hfound : (Cursor.ofTree t).search.found.map Cursor.here =
      (t.placed []).find? fun p => p.2.info.isFault := by
    rw [← Cursor.after_ofTree]
    apply Cursor.found_eq
    rw [Cursor.after_ofTree]
    exact h
  have hinfo : Cursor.info = (fun p => p.2.info) ∘ Cursor.here := rfl
  rw [firstFault?, hinfo, ← Option.map_map, hfound, ← map_info_placed t [], List.find?_map]
  rfl

end CodeIndex.SyntaxTree
