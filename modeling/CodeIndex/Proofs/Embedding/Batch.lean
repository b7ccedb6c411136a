import CodeIndex.Embedding.Embedder

/-!
# Settled batches

The results of a batch belong to the units of its files in order.  `shares` deals them out to the
files; every file keeps the units whose result is a vector, each with that vector, and a file that
lost a unit is among the failures.
-/

namespace CodeIndex

open EmbeddingBatch

namespace CodeUnit

/-- Without its vector a unit does not tell which it had. -/
@[simp] theorem erase_embedding (u : CodeUnit) (v : Option Embedding) :
    { u with embedding := v }.erase = u.erase := rfl

/-- A unit that has no vector loses none. -/
theorem erase_eq_self {u : CodeUnit} (h : u.embedding = none) : u.erase = u := by
  cases u
  simp only at h
  simp [erase, h]

end CodeUnit

namespace EmbeddingBatch

/-! ## §1 Dealing out results -/

/-- Every file of a batch with the results of its units. -/
def shares (records : List FileRecord) (results : List Result) : List (FileRecord × List Result) :=
  records.zip (parts (records.map fun r => r.units.length) results)

/-- Each size has a part. -/
@[simp] theorem length_parts {α : Type} (ns : List Nat) (xs : List α) :
    (parts ns xs).length = ns.length := by
  induction ns generalizing xs with
  | nil => rfl
  | cons n ns ih => simp [parts, ih]

/-- Lists that were joined come apart again. -/
theorem parts_flatMap {α β : Type} {xs : List α} {n : α → Nat} {f : α → List β}
    (h : ∀ x ∈ xs, (f x).length = n x) : parts (xs.map n) (xs.flatMap f) = xs.map f := by
  induction xs with
  | nil => rfl
  | cons x xs ih =>
    -- the first part is as long as the first list
    have hx := h x List.mem_cons_self
    rw [List.map_cons, List.flatMap_cons, List.map_cons, parts, List.take_left' hx,
      List.drop_left' hx, ih fun y hy => h y (List.mem_cons_of_mem x hy)]

/-- Results that were put together file by file are shared out file by file. -/
theorem shares_flatMap {α : Type} {xs : List α} {r : α → FileRecord} {rs : α → List Result}
    (h : ∀ x ∈ xs, (rs x).length = (r x).units.length) :
    shares (xs.map r) (xs.flatMap rs) = xs.map fun x => (r x, rs x) := by
  unfold shares
  rw [List.map_map, Function.comp_def, parts_flatMap h, List.zip_map']

private theorem shares_cons (r : FileRecord) (records : List FileRecord) (results : List Result) :
    shares (r :: records) results =
      (r, results.take r.units.length) :: shares records (results.drop r.units.length) := rfl

/-- Every file has a share, in the order of the files. -/
@[simp] theorem map_fst_shares (records : List FileRecord) (results : List Result) :
    (shares records results).map Prod.fst = records := by
  rw [shares, List.map_fst_zip]
  simp

/-- The texts of the first file come first. -/
theorem unitTexts_cons (r : FileRecord) (records : List FileRecord) :
    unitTexts (r :: records) = r.units.map CodeUnit.sourceText ++ unitTexts records := by
  simp [unitTexts]

/-- Only files of the batch have shares. -/
theorem mem_of_mem_shares {records : List FileRecord} {results : List Result} {r : FileRecord}
    {rs : List Result} (h : (r, rs) ∈ shares records results) : r ∈ records := by
  have := List.mem_map_of_mem (f := Prod.fst) h
  rwa [map_fst_shares] at this

/-- Every file of the batch has one. -/
theorem exists_mem_shares {records : List FileRecord} (results : List Result) {r : FileRecord}
    (h : r ∈ records) : ∃ rs, (r, rs) ∈ shares records results := by
  rw [← map_fst_shares records results] at h
  obtain ⟨⟨r', rs⟩, hmem, rfl⟩ := List.mem_map.1 h
  exact ⟨rs, hmem⟩

/-- A file gets as many results as it has units. -/
theorem length_of_mem_shares {records : List FileRecord} {results : List Result}
    (hlength : results.length = (unitTexts records).length) {r : FileRecord} {rs : List Result}
    (h : (r, rs) ∈ shares records results) : rs.length = r.units.length := by
  -- the results are dealt out from the front, so the induction runs over all that is left of them
  induction records generalizing results with
  | nil => simp [shares] at h
  | cons g records ih =>
    rw [unitTexts_cons, List.length_append, List.length_map] at hlength
    rw [shares_cons] at h
    rcases List.mem_cons.1 h with heq | h
    · obtain ⟨rfl, rfl⟩ := Prod.mk.inj heq
      rw [List.length_take]
      omega
    · refine ih ?_ h
      rw [List.length_drop]
      omega

/-- Every result stands beside the text that it is about. -/
theorem mem_zip_unitTexts {records : List FileRecord} {results : List Result}
    (hlength : results.length = (unitTexts records).length) {r : FileRecord} {rs : List Result}
    (h : (r, rs) ∈ shares records results) {u : CodeUnit} {result : Result}
    (hu : (u, result) ∈ r.units.zip rs) :
    (u.sourceText, result) ∈ (unitTexts records).zip results := by
  induction records generalizing results with
  | nil => simp [shares] at h
  | cons g records ih =>
    rw [unitTexts_cons, List.length_append, List.length_map] at hlength
    have htake : (g.units.map CodeUnit.sourceText).length =
        (results.take g.units.length).length := by
      rw [List.length_map, List.length_take]
      omega
    -- the zip splits where the first share ends
    have hzip : (unitTexts (g :: records)).zip results =
        (g.units.map CodeUnit.sourceText).zip (results.take g.units.length) ++
          (unitTexts records).zip (results.drop g.units.length) := by
      rw [unitTexts_cons, ← List.zip_append htake, List.take_append_drop]
    rw [hzip, List.mem_append]
    rw [shares_cons] at h
    rcases List.mem_cons.1 h with heq | h
    · obtain ⟨rfl, rfl⟩ := Prod.mk.inj heq
      left
      rw [List.zip_map_left, List.mem_map]
      exact ⟨(u, result), hu, rfl⟩
    · right
      refine ih ?_ h
      rw [List.length_drop]
      omega

/-! ## §2 One file -/

/-- Embedding leaves the path of a file alone. -/
@[simp] theorem settledRecord_filepath (r : FileRecord) (rs : List Result) :
    (settledRecord r rs).filepath = r.filepath := rfl

/-- A unit that stays has the vector of its result and is otherwise as it was. -/
theorem mem_settledRecord {r : FileRecord} {rs : List Result} {u : CodeUnit}
    (h : u ∈ (settledRecord r rs).units) :
    ∃ u₀ v, (u₀, Except.ok v) ∈ r.units.zip rs ∧ u = { u₀ with embedding := some v } := by
  obtain ⟨⟨u₀, result⟩, hmem, hu⟩ := List.mem_filterMap.1 h
  cases result with
  | error e => simp [embedded?] at hu
  | ok v => exact ⟨u₀, v, hmem, (Option.some.inj hu).symm⟩

/-- A failure names the version of the file it happened to. -/
theorem key_of_mem_failuresOf {r : FileRecord} {rs : List Result} {f : EmbeddingFailure}
    (h : f ∈ failuresOf r rs) : f.key = r.key := by
  obtain ⟨⟨u, result⟩, _, hf⟩ := List.mem_filterMap.1 h
  cases result with
  | ok v => simp [failure?] at hf
  | error e =>
    obtain rfl := Option.some.inj hf
    rfl

section Cons

variable (p c : String) (u : CodeUnit) (units : List CodeUnit) (rs : List Result)

private theorem settledRecord_cons_ok (v : Embedding) :
    (settledRecord ⟨p, c, u :: units⟩ (.ok v :: rs)).units =
      { u with embedding := some v } :: (settledRecord ⟨p, c, units⟩ rs).units := rfl

private theorem settledRecord_cons_error (e : IndexError) :
    (settledRecord ⟨p, c, u :: units⟩ (.error e :: rs)).units =
      (settledRecord ⟨p, c, units⟩ rs).units := rfl

private theorem failuresOf_cons_ok (v : Embedding) :
    failuresOf ⟨p, c, u :: units⟩ (.ok v :: rs) = failuresOf ⟨p, c, units⟩ rs := rfl

private theorem failuresOf_cons_error (e : IndexError) :
    failuresOf ⟨p, c, u :: units⟩ (.error e :: rs) =
      ⟨p, c, u.label, e⟩ :: failuresOf ⟨p, c, units⟩ rs := rfl

end Cons

/-- Vectors aside, the units that stay are some of the file's, in their order. -/
theorem settledRecord_sublist {r : FileRecord} {rs : List Result}
    (hlength : rs.length = r.units.length) :
    ((settledRecord r rs).units.map CodeUnit.erase).Sublist (r.units.map CodeUnit.erase) := by
  obtain ⟨p, c, units⟩ := r
  -- each unit takes the next result, and stays just if this is a vector
  induction units generalizing rs with
  | nil => simp [settledRecord]
  | cons u units ih =>
    cases rs with
    | nil => simp at hlength
    | cons result rs =>
      have hsub := @ih rs (by simpa using hlength)
      cases result with
      | ok v =>
        rw [settledRecord_cons_ok, List.map_cons, CodeUnit.erase_embedding]
        exact hsub.cons_cons _
      | error e =>
        rw [settledRecord_cons_error]
        exact hsub.cons _

/-- Every unit either stays or is a failure. -/
theorem settledRecord_length {r : FileRecord} {rs : List Result}
    (hlength : rs.length = r.units.length) :
    (settledRecord r rs).units.length + (failuresOf r rs).length = r.units.length := by
  obtain ⟨p, c, units⟩ := r
  induction units generalizing rs with
  | nil => simp [settledRecord, failuresOf]
  | cons u units ih =>
    cases rs with
    | nil => simp at hlength
    | cons result rs =>
      have hcount := @ih rs (by simpa using hlength)
      -- a unit is kept or its failure is counted
      cases result with
      | ok v =>
        simp only [settledRecord_cons_ok, failuresOf_cons_ok, List.length_cons] at hcount ⊢
        omega
      | error e =>
        simp only [settledRecord_cons_error, failuresOf_cons_error, List.length_cons] at hcount ⊢
        omega

/-- A file without failures keeps all its units. -/
theorem settledRecord_eq_of_failuresOf_eq_nil {r : FileRecord} {rs : List Result}
    (hlength : rs.length = r.units.length) (h : failuresOf r rs = []) :
    (settledRecord r rs).units.map CodeUnit.erase = r.units.map CodeUnit.erase := by
  -- nothing is lost, so the sublist is everything
  have hcount := settledRecord_length hlength
  rw [h, List.length_nil, Nat.add_zero] at hcount
  exact (settledRecord_sublist hlength).eq_of_length (by simpa using hcount)

/-! ## §3 The batch -/

/-- Every file is settled with its own share. -/
theorem settle_records (records : List FileRecord) (results : List Result) :
    (settle records results).records =
      (shares records results).map fun (r, rs) => settledRecord r rs := rfl

/-- The failures are those of the files, each with its own share. -/
theorem settle_failures (records : List FileRecord) (results : List Result) :
    (settle records results).failures =
      (shares records results).flatMap fun (r, rs) => failuresOf r rs := rfl

/-- No file is lost, and their order stays. -/
theorem settle_filepaths (records : List FileRecord) (results : List Result) :
    (settle records results).records.map FileRecord.filepath =
      records.map FileRecord.filepath := by
  -- settling changes the units of a record and not its path
  rw [settle_records, List.map_map]
  conv => rhs; rw [← map_fst_shares records results, List.map_map]
  rfl

/-- The chunks of the first text come first. -/
theorem requests_cons (job : Job) (jobs : List Job) :
    requests (job :: jobs) = (chunksOf job).map TextChunk.text ++ requests jobs :=
  List.flatMap_cons

/-- The first text takes as many answers as it has chunks. -/
theorem resultsOf_cons (job : Job) (jobs : List Job)
    (answers : List (Except ProviderError Embedding)) :
    resultsOf (job :: jobs) answers = resultOf job (answers.take (chunksOf job).length) ::
      resultsOf jobs (answers.drop (chunksOf job).length) := rfl

/-- Answers that were put together text by text are taken text by text. -/
theorem resultsOf_flatMap {α : Type} {xs : List α} {job : α → Job}
    {answers : α → List (Except ProviderError Embedding)}
    (h : ∀ x ∈ xs, (answers x).length = (chunksOf (job x)).length) :
    resultsOf (xs.map job) (xs.flatMap answers) = xs.map fun x => resultOf (job x) (answers x) := by
  unfold resultsOf
  rw [List.map_map, Function.comp_def, parts_flatMap h, List.zip_map', List.map_map]
  rfl

private theorem length_resultsOf (jobs : List Job)
    (answers : List (Except ProviderError Embedding)) :
    (resultsOf jobs answers).length = jobs.length := by
  simp [resultsOf]

/-- Answers without an error are all vectors. -/
theorem vectorsOf_map_ok (vectors : List Embedding) :
    vectorsOf (vectors.map .ok) = .ok vectors := by
  induction vectors with
  | nil => rfl
  | cons v vectors ih => simp [vectorsOf, ih, Except.map]

/-- The first error among the answers is the result. -/
theorem vectorsOf_map_ok_append (vectors : List Embedding) (reason : ProviderError)
    (rest : List (Except ProviderError Embedding)) :
    vectorsOf (vectors.map .ok ++ .error reason :: rest) = .error reason := by
  induction vectors with
  | nil => rfl
  | cons v vectors ih => simp [vectorsOf, ih, Except.map]

/-- Answers are vectors, all of them or all before the first error. -/
theorem answers_cases (answers : List (Except ProviderError Embedding)) :
    (∃ vectors : List Embedding, answers = vectors.map .ok) ∨
      ∃ (vectors : List Embedding) (reason : ProviderError)
        (rest : List (Except ProviderError Embedding)),
        answers = vectors.map .ok ++ .error reason :: rest := by
  induction answers with
  | nil => exact .inl ⟨[], rfl⟩
  | cons answer answers ih =>
    -- the first error ends the search
    cases answer with
    | error reason => exact .inr ⟨[], reason, answers, rfl⟩
    | ok v =>
      rcases ih with ⟨vectors, rfl⟩ | ⟨vectors, reason, rest, rfl⟩
      · exact .inl ⟨v :: vectors, rfl⟩
      · exact .inr ⟨v :: vectors, reason, rest, rfl⟩

end EmbeddingBatch

namespace Embedder

variable {σ : Type} (e : Embedder σ)

/-- Every text has a result. -/
@[simp] theorem length_embedTexts (texts : List String) (state : σ) :
    (e.embedTexts texts state).outcome.length = texts.length := by
  simp [embedTexts, length_resultsOf]

/-- Nobody is asked when there is nothing to embed. -/
theorem embedTexts_nil (state : σ) : e.embedTexts [] state = ⟨[], [], [], ⟨0⟩, state⟩ := rfl

end Embedder

end CodeIndex
