import CodeIndex.Store.Session

/-!
# Writes that succeed and writes that fail

All the steps of a write before the rename happen to the temporary file, so a write either puts the
whole snapshot in place or leaves the snapshot's path alone.  It does the one where nothing fails
and no folder is in the way, `Disk.Writable`, and the other everywhere else.
-/

namespace CodeIndex

namespace Disk

/-! ## §1 Steps -/

/-- No step of a write touches the target before the last. -/
@[simp] theorem afterStep_target (s : Snapshot) (d : Disk) (step : WriteStep) :
    (afterStep s d step).target = d.target := by
  cases step <;> rfl

private theorem takeSteps_target (fails : WriteStep → Bool) (s : Snapshot) (steps : List WriteStep)
    (d : Disk) : match takeSteps fails s steps d with
      | .ok d' => d'.target = d.target
      | .error d' => d'.target = d.target := by
  induction steps generalizing d with
  | nil => rfl
  | cons step steps ih =>
    -- no step touches the target, so it does not matter which one fails
    have hrest := ih (afterStep s d step)
    rw [afterStep_target] at hrest
    unfold takeSteps
    by_cases hfails : fails step = true
    · rw [if_pos hfails]
      exact afterStep_target ..
    · rw [if_neg hfails]
      exact hrest

/-- Steps are taken one after the other, as far as none of them fails. -/
theorem takeSteps_eq_ok_iff {fails : WriteStep → Bool} {s : Snapshot} {steps : List WriteStep}
    {d d' : Disk} : takeSteps fails s steps d = .ok d' ↔
      (∀ step ∈ steps, fails step = false) ∧ d' = steps.foldl (afterStep s) d := by
  induction steps generalizing d with
  | nil => exact ⟨fun h => ⟨nofun, (Except.ok.inj h).symm⟩, fun h => congrArg Except.ok h.2.symm⟩
  | cons step steps ih =>
    unfold takeSteps
    by_cases hfails : fails step = true
    · simp [hfails]
    · rw [if_neg hfails, ih, List.foldl_cons, List.forall_mem_cons]
      simp [hfails]

private theorem foldl_afterStep_inserts (s : Snapshot) {steps : List WriteStep} (d : Disk)
    (h : ∀ step ∈ steps, ∀ d', afterStep s d' step = d') : steps.foldl (afterStep s) d = d := by
  induction steps with
  | nil => rfl
  | cons step steps ih =>
    rw [List.foldl_cons, h step List.mem_cons_self]
    exact ih fun step hstep => h step (List.mem_cons_of_mem _ hstep)

/-- Before the rename the temporary file holds the whole snapshot. -/
theorem foldl_stepsBefore (s : Snapshot) (d : Disk) :
    (stepsBefore s).foldl (afterStep s) d = ⟨d.target, some (.database s.toDatabase)⟩ := by
  have hrows : ∀ d', ((List.range s.rows.length).map WriteStep.insertRow).foldl (afterStep s) d' =
      d' := by
    refine fun d' => foldl_afterStep_inserts s d' fun step hstep => ?_
    obtain ⟨i, _, rfl⟩ := List.mem_map.1 hstep
    exact fun _ => rfl
  have hincomplete : ∀ d', ((List.range s.incomplete.length).map
      WriteStep.insertIncomplete).foldl (afterStep s) d' = d' := by
    refine fun d' => foldl_afterStep_inserts s d' fun step hstep => ?_
    obtain ⟨i, _, rfl⟩ := List.mem_map.1 hstep
    exact fun _ => rfl
  -- the temporary file is created whole, and the insertions only count as steps that can fail
  unfold stepsBefore
  rw [List.foldl_append, List.foldl_append, List.foldl_append, hrows, hincomplete]
  rfl

/-! ## §2 Whole writes -/

/-- All the steps of a write. -/
def steps (s : Snapshot) : List WriteStep := .createFolder :: stepsBefore s ++ [.rename]

/-- Nothing keeps a snapshot from being written. -/
structure Writable (fails : WriteStep → Bool) (s : Snapshot) (d : Disk) : Prop where
  steps : ∀ step ∈ steps s, fails step = false
  target : d.target = .nothing ∨ ∃ content, d.target = .file content

/-- A rename replaces a file or nothing, and fails otherwise. -/
theorem renameIntoPlace_eq_some_iff {target : FileTree.Occupant} {content : FileContent}
    {d : Disk} : (Disk.mk target (some content)).renameIntoPlace = some d ↔
      (target = .nothing ∨ ∃ old, target = .file old) ∧ d = ⟨.file content, none⟩ := by
  cases target with
  | nothing => simp [renameIntoPlace, eq_comm]
  | folder => simp [renameIntoPlace]
  | file old => simp [renameIntoPlace, eq_comm]
  | blocked e => simp [renameIntoPlace]

private theorem writeThenRename_eq_ok_iff {fails : WriteStep → Bool} {s : Snapshot} {d d' : Disk} :
    writeThenRename fails s d = .ok d' ↔
      d.Writable fails s ∧ d' = ⟨.file (.database s.toDatabase), none⟩ := by
  have hsteps : (∀ step ∈ steps s, fails step = false) ↔ fails .createFolder = false ∧
      (∀ step ∈ stepsBefore s, fails step = false) ∧ fails .rename = false := by
    rw [steps, List.cons_append, List.forall_mem_cons, List.forall_mem_append]
    simp
  unfold writeThenRename
  constructor
  · -- step by step: the folder, the temporary file, and the rename
    intro h
    split at h
    · cases h
    next hfolder =>
    split at h
    · cases h
    next taken htaken =>
    obtain ⟨hbefore, rfl⟩ := takeSteps_eq_ok_iff.1 htaken
    rw [foldl_stepsBefore] at h
    split at h
    · cases h
    next hrename =>
    split at h
    · next renamed heq =>
      obtain ⟨htarget, rfl⟩ := renameIntoPlace_eq_some_iff.1 heq
      refine ⟨⟨hsteps.2 ⟨?_, hbefore, ?_⟩, htarget⟩, (Except.ok.inj h).symm⟩
      · exact Bool.eq_false_iff.2 hfolder
      · exact Bool.eq_false_iff.2 hrename
    · cases h
  · rintro ⟨⟨hnone, htarget⟩, rfl⟩
    obtain ⟨hfolder, hbefore, hrename⟩ := hsteps.1 hnone
    rw [if_neg (Bool.eq_false_iff.1 hfolder), takeSteps_eq_ok_iff.2 ⟨hbefore, rfl⟩,
      foldl_stepsBefore]
    simp only
    rw [if_neg (Bool.eq_false_iff.1 hrename), renameIntoPlace_eq_some_iff.2 ⟨htarget, rfl⟩]

private theorem writeThenRename_error {fails : WriteStep → Bool} {s : Snapshot} {d d' : Disk}
    (h : writeThenRename fails s d = .error d') : d'.target = d.target := by
  -- the steps before the rename only touch the temporary file
  have htaken := takeSteps_target fails s (stepsBefore s) d
  unfold writeThenRename at h
  split at h
  · rw [Except.error.inj h]
  split at h
  · next d₁ heq =>
    rw [heq] at htaken
    exact Except.error.inj h ▸ htaken
  · next d₁ heq =>
    rw [heq] at htaken
    split at h
    · exact Except.error.inj h ▸ htaken
    · split at h
      · cases h
      · exact Except.error.inj h ▸ htaken

/-- A write succeeds where nothing keeps it from doing so, and then it leaves the snapshot at its
path and no temporary file. -/
theorem write_eq_ok_iff {fails : WriteStep → Bool} {path : String} {s : Snapshot} {d d' : Disk} :
    d.write fails path s = (d', .ok ()) ↔
      d.Writable fails s ∧ d' = ⟨.file (.database s.toDatabase), none⟩ := by
  rw [← writeThenRename_eq_ok_iff]
  unfold write
  cases writeThenRename fails s d with
  | ok d₁ => simp
  | error d₁ => simp

end Disk

/-! ## §3 Commits -/

namespace StoreSession

variable {fails : WriteStep → Bool} {s : Snapshot} {st : StoreSession}

/-- A commit that nothing prevents puts the snapshot into memory and into its file. -/
theorem commit_of_writable (h : st.disk.Writable fails s) (path : String) :
    st.commit fails path s = (⟨s, ⟨.file (.database s.toDatabase), none⟩⟩, .ok ()) := by
  have hwrite : st.disk.write fails path s = (⟨.file (.database s.toDatabase), none⟩, .ok ()) :=
    Disk.write_eq_ok_iff.2 ⟨h, rfl⟩
  rw [commit, hwrite]

/-- A commit that something prevents changes neither, and says always the same. -/
theorem commit_of_not_writable (h : ¬ st.disk.Writable fails s) (path : String) :
    st.commit fails path s = (⟨st.memory, ⟨st.disk.target, none⟩⟩,
      .error (.storageWrite (.failed path "write failed"))) := by
  unfold commit Disk.write
  cases hwrite : Disk.writeThenRename fails s st.disk with
  | ok d => exact absurd (Disk.writeThenRename_eq_ok_iff.1 hwrite).1 h
  | error d =>
    rw [← Disk.writeThenRename_error hwrite]
    rfl

/-- A commit either puts the snapshot into memory and into its file, or changes neither. -/
theorem commit_cases (fails : WriteStep → Bool) (path : String) (s : Snapshot)
    (st : StoreSession) :
    st.commit fails path s = (⟨s, ⟨.file (.database s.toDatabase), none⟩⟩, .ok ()) ∨
      ∃ e, st.commit fails path s = (⟨st.memory, ⟨st.disk.target, none⟩⟩, .error e) := by
  by_cases hwritable : st.disk.Writable fails s
  · exact .inl (commit_of_writable hwritable path)
  · exact .inr ⟨_, commit_of_not_writable hwritable path⟩

/-- A commit fails where something keeps the snapshot from being written. -/
theorem commit_fails_iff (fails : WriteStep → Bool) (path : String) (s : Snapshot)
    (st : StoreSession) :
    (∃ e, (st.commit fails path s).2 = .error e) ↔ ¬ st.disk.Writable fails s := by
  by_cases hwritable : st.disk.Writable fails s
  · rw [commit_of_writable hwritable]
    simp [hwritable]
  · rw [commit_of_not_writable hwritable]
    exact ⟨fun _ => hwritable, fun _ => ⟨_, rfl⟩⟩

end StoreSession

end CodeIndex
