import CodeIndex.Proofs.Index.Plans
import CodeIndex.Proofs.Store.RoundTrip
import Mathlib.Data.List.Induction
import Mathlib.Logic.Function.Basic

/-!
# What a plan says of each file

Every file of a scan meets one fate: it is carried forward, skipped for want of content, or
processed.  What is known of a file is the checksum of the last row of its path, provided that the
rows are of the model in use.  A plan lists its files fate by fate; it is also what one pass over
the scan collects that looks at each file once: `UpdatePlan.onePass_eq_make`.  Together this makes
`UpdatePlan.make_classifies`.
-/

namespace CodeIndex

open Snapshot

/-! ## §1 What is known of a path -/

namespace Snapshot

/-- The last row of the path has this checksum. -/
def LastChecksum (rows : List SnapshotRow) (p c : String) : Prop :=
  ∃ front row back, rows = front ++ row :: back ∧ row.key = (p, c) ∧
    ∀ later ∈ back, later.filepath ≠ p

private theorem checksumOf?_eq_some_iff_last {s : Snapshot} {p c : String} :
    s.checksumOf? p = some c ↔ LastChecksum s.rows p c := by
  unfold checksumOf?
  rw [Option.map_eq_some_iff]
  constructor
  · rintro ⟨row, hfind, rfl⟩
    -- the lookup goes from the end, so what it passes over stands behind the row it finds
    obtain ⟨hpath, back, front, hrows, hback⟩ := List.find?_eq_some_iff_append.1 hfind
    obtain rfl := beq_iff_eq.1 hpath
    refine ⟨front.reverse, row, back.reverse, ?_, rfl, fun later hlater => ?_⟩
    · rw [← List.reverse_reverse s.rows, hrows]
      simp
    · simpa using hback later (List.mem_reverse.1 hlater)
  · rintro ⟨front, row, back, hrows, hkey, hback⟩
    obtain ⟨rfl, rfl⟩ := Prod.mk.inj hkey
    refine ⟨row, List.find?_eq_some_iff_append.2 ⟨beq_self_eq_true _, back.reverse, front.reverse,
      ?_, fun later hlater => ?_⟩, rfl⟩
    · rw [hrows]
      simp
    · simpa using hback later (List.mem_reverse.1 hlater)

/-- A snapshot is of a model if it says so, or if there is nothing to say it of. -/
theorem embeddedBy_iff {s : Snapshot} {model : String} :
    s.embeddedBy model = true ↔ s.rows = [] ∨ s.model = some model := by
  simp [embeddedBy, List.isEmpty_iff]

/-- The checksums of all paths as a pass over the rows collects them: a later row of a path takes
the place of an earlier one. -/
def collectChecksums (rows : List SnapshotRow) : String → Option String :=
  rows.foldl (fun known row => Function.update known row.filepath (some row.checksum)) fun _ => none

private theorem collectChecksums_concat (rows : List SnapshotRow) (row : SnapshotRow) :
    collectChecksums (rows ++ [row]) =
      Function.update (collectChecksums rows) row.filepath (some row.checksum) := by
  rw [collectChecksums, List.foldl_append]
  rfl

private theorem collectChecksums_eq (rows : List SnapshotRow) (p : String) :
    collectChecksums rows p =
    (rows.reverse.find? fun row => row.filepath == p).map SnapshotRow.checksum := by
  induction rows using List.reverseRecOn with
  | nil => rfl
  | append_singleton rows row ih =>
    rw [collectChecksums_concat, List.reverse_append, List.reverse_singleton,
      List.singleton_append, List.find?_cons]
    by_cases hpath : row.filepath = p
    · rw [hpath, Function.update_self, beq_self_eq_true]
      rfl
    · rw [Function.update_of_ne (Ne.symm hpath), beq_false_of_ne hpath]
      exact ih

end Snapshot

namespace UpdatePlan

variable {scan : List FileRecord} {previous : Snapshot} {model : String} {f : FileRecord}

/-- The rows of the snapshot may be relied on, and the path's last one has this checksum. -/
def Known (previous : Snapshot) (model p c : String) : Prop :=
  (previous.rows = [] ∨ previous.model = some model) ∧ LastChecksum previous.rows p c

/-- The file is known as it is, and has all of its units. -/
def IsCarried (previous : Snapshot) (model : String) (f : FileRecord) : Prop :=
  Known previous model f.filepath f.checksum ∧ f.key ∉ previous.incomplete

/-- The checksum under which a path is known is that of its last row. -/
theorem known?_eq_some_iff {p c : String} :
    known? previous model p = some c ↔ Known previous model p c := by
  unfold known? Known
  rw [← embeddedBy_iff, ← checksumOf?_eq_some_iff_last]
  split
  · next h => simp only [h, true_and]
  · next h => simp only [h, reduceCtorEq, false_and]

/-! ## §2 The fates of files -/

/-- A file is carried if its version is known and complete. -/
theorem fateOf_carry_iff : fateOf previous model f = .carry ↔ IsCarried previous model f := by
  rw [fateOf_eq_carry_iff, IsCarried, Known, embeddedBy_iff, checksumOf?_eq_some_iff_last,
    and_assoc]

private theorem fateOf_skip_iff : fateOf previous model f = .skip ↔
    ¬ IsCarried previous model f ∧ f.checksum = Checksum.empty := by
  rw [← fateOf_carry_iff]
  constructor
  · intro hskip
    have hcarry : fateOf previous model f ≠ .carry := by simp [hskip]
    exact ⟨hcarry, fateOf_eq_skip hcarry (by simp [hskip])⟩
  · rintro ⟨hcarry, hempty⟩
    have hprocess : fateOf previous model f ≠ .process := fun h =>
      (fateOf_eq_process_iff.1 h).2 hempty
    -- two of the three fates are excluded
    cases hfate : fateOf previous model f with
    | carry => exact absurd hfate hcarry
    | skip => rfl
    | process => exact absurd hfate hprocess

private theorem fateOf_process_iff : fateOf previous model f = .process ↔
    ¬ IsCarried previous model f ∧ f.checksum ≠ Checksum.empty := by
  rw [fateOf_eq_process_iff, ne_eq, fateOf_carry_iff]

/-- The files of a scan that meet a fate, in the order of the scan. -/
def withFate (scan : List FileRecord) (previous : Snapshot) (model : String) (fate : Fate) :
    List FileRecord :=
  scan.filter fun f => fateOf previous model f == fate

private theorem mem_withFate {fate : Fate} :
    f ∈ withFate scan previous model fate ↔ f ∈ scan ∧ fateOf previous model f = fate := by
  simp [withFate]

private theorem withFate_concat {fate : Fate} (h : fateOf previous model f = fate) :
    withFate (scan ++ [f]) previous model fate = withFate scan previous model fate ++ [f] := by
  simp [withFate, h]

private theorem withFate_concat_of_ne {fate : Fate} (h : fateOf previous model f ≠ fate) :
    withFate (scan ++ [f]) previous model fate = withFate scan previous model fate := by
  simp [withFate, h]

/-- Each file meets one fate. -/
theorem perm_withFate (scan : List FileRecord) (previous : Snapshot) (model : String) :
    scan.Perm (withFate scan previous model .carry ++ withFate scan previous model .skip ++
      withFate scan previous model .process) := by
  induction scan with
  | nil => exact List.Perm.refl _
  | cons f scan ih =>
    simp only [withFate, List.filter_cons] at ih ⊢
    -- the file moves to the list of its fate; the other two stay as they are
    cases hfate : fateOf previous model f with
    | carry =>
      simp only [beq_self_eq_true, if_true, reduceCtorEq, beq_iff_eq, if_false, List.cons_append]
      exact ih.cons f
    | skip =>
      simp only [beq_self_eq_true, if_true, reduceCtorEq, beq_iff_eq, if_false,
        List.append_assoc, List.cons_append] at ih ⊢
      exact (ih.cons f).trans List.perm_middle.symm
    | process =>
      simp only [beq_self_eq_true, if_true, reduceCtorEq, beq_iff_eq, if_false]
      exact (ih.cons f).trans List.perm_middle.symm

/-! ## §3 The lists of a plan -/

private theorem skippedEmpty_eq : (make scan previous model).skippedEmpty =
    (withFate scan previous model .skip).map FileRecord.filepath := rfl

private theorem reuseEmbeddings_eq :
    (make scan previous model).reuseEmbeddings = previous.embeddedBy model := rfl

private theorem stale_eq : (make scan previous model).stale =
    if previous.embeddedBy model then
      ((scan.filter fun f => fateOf previous model f != .carry).filterMap fun f =>
        known? previous model f.filepath).eraseDups
    else previous.checksums := rfl

private theorem nodup_keys (hdistinct : (scan.map FileRecord.filepath).Nodup) :
    (scan.map FileRecord.key).Nodup := by
  apply List.Nodup.of_map Prod.fst
  rwa [List.map_map]

/-- The lists of a plan share out the files of the scan, and none is left or shared out twice. -/
theorem perm_keys (hdistinct : (scan.map FileRecord.filepath).Nodup) :
    (scan.map FileRecord.key).Perm ((make scan previous model).carried ++
      (make scan previous model).skippedEmpty.map (fun p => (p, Checksum.empty)) ++
      (make scan previous model).toProcess.map FileRecord.key) := by
  have hkeys : ((withFate scan previous model .carry).map FileRecord.key).Nodup :=
    (nodup_keys hdistinct).sublist (List.filter_sublist.map _)
  have hskipped : (withFate scan previous model .skip).map FileRecord.key =
      (make scan previous model).skippedEmpty.map fun p => (p, Checksum.empty) := by
    rw [skippedEmpty_eq, List.map_map]
    refine List.map_congr_left fun f hf => ?_
    exact congrArg (f.filepath, ·) (fateOf_skip_iff.1 (mem_withFate.1 hf).2).2
  -- no key comes twice, so none is left out of the carried ones
  have hcarried : ((withFate scan previous model .carry).map FileRecord.key).Perm
      (make scan previous model).carried :=
    (List.perm_ext_iff_of_nodup hkeys (nodup_eraseDups _)).2 fun _ => List.mem_eraseDups.symm
  have hperm := (perm_withFate scan previous model).map FileRecord.key
  rw [List.map_append, List.map_append, hskipped] at hperm
  exact hperm.trans ((hcarried.append_right _).append_right _)

private theorem filepath_mem_skippedEmpty (hdistinct : (scan.map FileRecord.filepath).Nodup)
    (hf : f ∈ scan) : f.filepath ∈ (make scan previous model).skippedEmpty ↔
      fateOf previous model f = .skip := by
  rw [skippedEmpty_eq, List.mem_map]
  constructor
  · rintro ⟨g, hg, hpath⟩
    obtain ⟨hscan, hskip⟩ := mem_withFate.1 hg
    obtain rfl := List.inj_on_of_nodup_map hdistinct hscan hf hpath
    exact hskip
  · intro hskip
    exact ⟨f, mem_withFate.2 ⟨hf, hskip⟩, rfl⟩

/-- Of a snapshot that may be used a checksum is stale if a file that is not carried had it. -/
theorem mem_stale {c : String} (hreuse : previous.rows = [] ∨ previous.model = some model) :
    c ∈ (make scan previous model).stale ↔
      ∃ f ∈ scan, ¬ IsCarried previous model f ∧ Known previous model f.filepath c := by
  rw [stale_eq, if_pos (embeddedBy_iff.2 hreuse), List.mem_eraseDups, List.mem_filterMap]
  simp only [List.mem_filter, bne_iff_ne, ne_eq, fateOf_carry_iff, known?_eq_some_iff, and_assoc]

/-- Of another model's snapshot every checksum is stale. -/
theorem mem_stale_of_foreign {c : String} (hrows : previous.rows ≠ [])
    (hmodel : previous.model ≠ some model) :
    c ∈ (make scan previous model).stale ↔ ∃ row ∈ previous.rows, row.checksum = c := by
  have hforeign : ¬ previous.embeddedBy model = true := fun h =>
    (embeddedBy_iff.1 h).elim hrows hmodel
  rw [stale_eq, if_neg hforeign, checksums, List.mem_eraseDups, List.mem_map]

/-! ## §4 One pass over the scan -/

/-- A set, listed without repetition, and one more member. -/
def addNew {α : Type} [BEq α] (l : List α) (a : α) : List α :=
  if l.contains a then l else l ++ [a]

private theorem eraseDups_concat {α : Type} [BEq α] [LawfulBEq α] (l : List α) (a : α) :
    (l ++ [a]).eraseDups = addNew l.eraseDups a := by
  rw [List.eraseDups_append, addNew]
  simp only [List.contains_iff_mem, List.mem_eraseDups]
  by_cases h : a ∈ l
  · rw [if_pos h]
    simp [List.removeAll, h]
  · rw [if_neg h]
    simp [List.removeAll, h, List.eraseDups_cons]

/-- The plan with a file that is not carried: skipped if it has no content, and else to be
processed. -/
def sortOut (plan : UpdatePlan) (f : FileRecord) : UpdatePlan :=
  if f.checksum = Checksum.empty then
    { plan with skippedEmpty := plan.skippedEmpty ++ [f.filepath] }
  else { plan with toProcess := plan.toProcess ++ [f] }

/-- The plan after one more file, given what is known of paths. -/
def consider (previous : Snapshot) (known : String → Option String) (plan : UpdatePlan)
    (f : FileRecord) : UpdatePlan :=
  match known f.filepath with
  | some old =>
    if old = f.checksum ∧ previous.isIncomplete (f.filepath, old) = true then
      sortOut { plan with stale := addNew plan.stale old } f
    else if old = f.checksum then { plan with carried := addNew plan.carried f.key }
    else sortOut { plan with stale := addNew plan.stale old } f
  | none => sortOut plan f

/-- The plan that one pass over the scan collects. -/
def onePass (scan : List FileRecord) (previous : Snapshot) (model : String) : UpdatePlan :=
  if previous.embeddedBy model then
    scan.foldl (consider previous (collectChecksums previous.rows)) ⟨[], [], [], [], true⟩
  else scan.foldl (consider previous fun _ => none) ⟨[], previous.checksums, [], [], false⟩

/-- A file of which something is known is carried, or what was known of it becomes stale. -/
theorem consider_of_known {known : String → Option String} {plan : UpdatePlan} {old : String}
    (h : known f.filepath = some old) : consider previous known plan f =
      if fate previous (some old) f = .carry then
        { plan with carried := addNew plan.carried f.key }
      else sortOut { plan with stale := addNew plan.stale old } f := by
  unfold consider fate
  rw [h]
  -- the branches of the source: a known version is carried unless it changed or is incomplete
  by_cases hsame : old = f.checksum
  · subst hsame
    by_cases hincomplete : previous.isIncomplete f.key = true
    · have hincomplete' : previous.isIncomplete (f.filepath, f.checksum) = true := hincomplete
      simp only [hincomplete, hincomplete', and_self, if_true, not_true_eq_false, and_false,
        if_false]
      split <;> simp
    · have hincomplete' : ¬ previous.isIncomplete (f.filepath, f.checksum) = true := hincomplete
      simp [hincomplete, hincomplete']
  · simp only [hsame, false_and, if_false, Option.some.injEq]
    split <;> simp

private theorem fate_none_ne_carry : fate previous none f ≠ .carry := by
  unfold fate
  simp only [reduceCtorEq, false_and, if_false]
  split <;> simp

/-- A file that is not carried adds to the list of its fate, and to nothing else of what the others
make up. -/
theorem sortOut_eq (h : fateOf previous model f ≠ .carry) (stale : List String)
    (carried : List FileKey) (reuse : Bool) :
    sortOut ⟨withFate scan previous model .process, stale, carried,
        (withFate scan previous model .skip).map FileRecord.filepath, reuse⟩ f =
      ⟨withFate (scan ++ [f]) previous model .process, stale, carried,
        (withFate (scan ++ [f]) previous model .skip).map FileRecord.filepath, reuse⟩ := by
  unfold sortOut
  rw [ne_eq, fateOf_carry_iff] at h
  by_cases hempty : f.checksum = Checksum.empty
  · have hfate : fateOf previous model f = .skip := fateOf_skip_iff.2 ⟨h, hempty⟩
    have hprocess : fateOf previous model f ≠ .process := by simp [hfate]
    rw [if_pos hempty, withFate_concat hfate, withFate_concat_of_ne hprocess, List.map_append]
    rfl
  · have hfate : fateOf previous model f = .process := fateOf_process_iff.2 ⟨h, hempty⟩
    have hskip : fateOf previous model f ≠ .skip := by simp [hfate]
    rw [if_neg hempty, withFate_concat hfate, withFate_concat_of_ne hskip]

/-- One more file in a scan is one more file to consider. -/
theorem make_concat (scan : List FileRecord) (previous : Snapshot) (model : String)
    (f : FileRecord) : make (scan ++ [f]) previous model =
      consider previous (known? previous model) (make scan previous model) f := by
  have hmake : ∀ scan, make scan previous model =
      ⟨withFate scan previous model .process, (make scan previous model).stale,
        ((withFate scan previous model .carry).map FileRecord.key).eraseDups,
        (withFate scan previous model .skip).map FileRecord.filepath,
        previous.embeddedBy model⟩ := fun _ => rfl
  cases hknown : known? previous model f.filepath with
  | none =>
    have hcarry : fateOf previous model f ≠ .carry := by
      rw [fateOf, hknown]
      exact fate_none_ne_carry
    have hstale : (make (scan ++ [f]) previous model).stale =
        (make scan previous model).stale := by
      simp [stale_eq, hcarry, hknown]
    rw [hmake (scan ++ [f]), hstale, withFate_concat_of_ne hcarry, consider, hknown, hmake scan]
    exact (sortOut_eq hcarry ..).symm
  | some old =>
    have hreuse : previous.embeddedBy model = true :=
      embeddedBy_iff.2 (known?_eq_some_iff.1 hknown).1
    have hfate : fate previous (some old) f = fateOf previous model f := by rw [fateOf, hknown]
    rw [consider_of_known hknown, hfate]
    -- a file that is carried adds to one list, any other makes what was known of it stale
    by_cases hcarry : fateOf previous model f = .carry
    · have hstale : (make (scan ++ [f]) previous model).stale =
          (make scan previous model).stale := by
        simp [stale_eq, hcarry]
      have hskip : fateOf previous model f ≠ .skip := by simp [hcarry]
      have hprocess : fateOf previous model f ≠ .process := by simp [hcarry]
      rw [hmake (scan ++ [f]), hstale, if_pos hcarry, withFate_concat hcarry,
        withFate_concat_of_ne hskip, withFate_concat_of_ne hprocess, List.map_append,
        List.map_singleton, eraseDups_concat]
      rfl
    · have hstale : (make (scan ++ [f]) previous model).stale =
          addNew (make scan previous model).stale old := by
        simp [stale_eq, hreuse, hcarry, hknown, ← eraseDups_concat]
      rw [hmake (scan ++ [f]), hstale, withFate_concat_of_ne hcarry, if_neg hcarry]
      exact (sortOut_eq hcarry ..).symm

/-- One pass over the scan collects the plan. -/
theorem onePass_eq_make (scan : List FileRecord) (previous : Snapshot) (model : String) :
    onePass scan previous model = make scan previous model := by
  -- the pass from the plan of no files, by induction from the end of the scan
  have hpass : ∀ start, make [] previous model = start →
      scan.foldl (consider previous (known? previous model)) start =
        make scan previous model := by
    rintro start rfl
    induction scan using List.reverseRecOn with
    | nil => rfl
    | append_singleton scan f ih => rw [List.foldl_append, ih, make_concat]; rfl
  unfold onePass
  by_cases hreuse : previous.embeddedBy model = true
  · have hknown : collectChecksums previous.rows = known? previous model := by
      funext p
      rw [collectChecksums_eq, known?, if_pos hreuse]
      rfl
    rw [if_pos hreuse, hknown]
    refine hpass _ ?_
    simp [make, hreuse]
  · have hknown : (fun _ => none) = known? previous model := by
      funext p
      rw [known?, if_neg hreuse]
    rw [if_neg hreuse, hknown]
    refine hpass _ ?_
    simp [make, hreuse]

/-! ## §5 Plans as a whole -/

/-- A plan classifies every scanned file exactly once.  A file is carried if the last row of its
path has its checksum, the rows are of the model in use and no unit of it was lost; of the others
those without content are skipped, and the rest is processed in the order of the scan.  Stale are
the known checksums of the files that are not carried; or, where the rows are of another model or of
none that is named, all checksums, and only then embeddings may not be used again.  The plan is what
one pass over the scan collects. -/
theorem make_classifies (scan : List FileRecord) (previous : Snapshot) (model : String)
    (hdistinct : (scan.map FileRecord.filepath).Nodup) :
    let plan := make scan previous model
    (∀ f ∈ scan, (f.key ∈ plan.carried ↔ IsCarried previous model f) ∧
        (f.filepath ∈ plan.skippedEmpty ↔
          ¬ IsCarried previous model f ∧ f.checksum = Checksum.empty) ∧
        (f ∈ plan.toProcess ↔
          ¬ IsCarried previous model f ∧ f.checksum ≠ Checksum.empty)) ∧
      (scan.map FileRecord.key).Perm (plan.carried ++
        plan.skippedEmpty.map (fun p => (p, Checksum.empty)) ++
        plan.toProcess.map FileRecord.key) ∧
      plan.toProcess.Sublist scan ∧
      (previous.rows = [] ∨ previous.model = some model → ∀ c, c ∈ plan.stale ↔
        ∃ f ∈ scan, ¬ IsCarried previous model f ∧ Known previous model f.filepath c) ∧
      (previous.rows ≠ [] → previous.model ≠ some model → ∀ c, c ∈ plan.stale ↔
        ∃ row ∈ previous.rows, row.checksum = c) ∧
      (plan.reuseEmbeddings = false ↔ previous.rows ≠ [] ∧ previous.model ≠ some model) ∧
      onePass scan previous model = plan := by
  intro plan
  refine ⟨fun f hf => ⟨?_, ?_, ?_⟩, perm_keys hdistinct, List.filter_sublist,
    fun hreuse c => mem_stale hreuse, fun hrows hmodel c => mem_stale_of_foreign hrows hmodel, ?_,
    onePass_eq_make scan previous model⟩
  · rw [key_mem_carried hdistinct hf, fateOf_carry_iff]
  · rw [filepath_mem_skippedEmpty hdistinct hf, fateOf_skip_iff]
  · rw [mem_toProcess, and_iff_right hf, fateOf_process_iff]
  · rw [reuseEmbeddings_eq, ← Bool.not_eq_true, embeddedBy_iff, not_or]

/-! ## §6 A sample -/

end UpdatePlan

namespace Sample

/-- Rows of five paths, two of them of one path, and a version that lost a unit. -/
def mixed : Snapshot where
  rows := [⟨"a.py", "1", plainUnit⟩, ⟨"b.py", "1", plainUnit⟩, ⟨"c.py", "3", plainUnit⟩,
    ⟨"d.py", "4", plainUnit⟩, ⟨"e.py", "5", plainUnit⟩, ⟨"e.py", "6", plainUnit⟩]
  model := some "m"
  incomplete := [("c.py", "3")]

/-- The first file is as it was, the second has been edited, the third is to be tried again, the
fourth has been emptied, the fifth is as its last row has it, and the sixth is new. -/
def touched : List FileRecord :=
  [.bare "a.py" "1", .bare "b.py" "2", .bare "c.py" "3", .bare "d.py" Checksum.empty,
    .bare "e.py" "6", .bare "f.py" "7"]

end Sample

/-- Of the sample's files the first and the fifth are carried, the fourth is skipped, and the others
are processed. -/
theorem UpdatePlan.make_classifies_sample :
    (Sample.touched.map FileRecord.key).Perm ([("a.py", "1"), ("e.py", "6")] ++
      [("d.py", Checksum.empty)] ++ [("b.py", "2"), ("c.py", "3"), ("f.py", "7")]) ∧
      (∀ c, c ∈ ["1", "3", "4"] ↔ ∃ f ∈ Sample.touched,
        ¬ IsCarried Sample.mixed "m" f ∧ Known Sample.mixed "m" f.filepath c) ∧
      ∀ c, c ∈ (make Sample.touched Sample.mixed "n").stale ↔
        ∃ row ∈ Sample.mixed.rows, row.checksum = c := by
  have hdistinct : (Sample.touched.map FileRecord.filepath).Nodup := by decide
  obtain ⟨-, hperm, -, hstale, -⟩ := make_classifies Sample.touched Sample.mixed "m" hdistinct
  obtain ⟨-, -, -, -, hforeign, -⟩ := make_classifies Sample.touched Sample.mixed "n" hdistinct
  -- computed once, so that the general statement can be read at it
  have hplan : make Sample.touched Sample.mixed "m" = ⟨[.bare "b.py" "2", .bare "c.py" "3",
      .bare "f.py" "7"], ["1", "3", "4"], [("a.py", "1"), ("e.py", "6")], ["d.py"], true⟩ := by
    decide +kernel
  rw [hplan] at hperm hstale
  exact ⟨hperm, hstale (.inr rfl), hforeign (by decide) (by decide)⟩

end CodeIndex
