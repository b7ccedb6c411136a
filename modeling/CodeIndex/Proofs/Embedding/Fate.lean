import CodeIndex.Proofs.Embedding.Batch
import CodeIndex.Proofs.Embedding.Completion

/-!
# What becomes of the units of a batch

All answers of a batch come back in one list, whatever the order in which the requests came to an
end.  Here every request has a place among the files, their units and the chunks of these, and
`Fate` says what becomes of a text by the outcomes of its own chunks.  The units whose fate is a
vector stay where they are, and the others are reported in their order:
`Embedder.embedRecords_exact`.
-/

namespace CodeIndex

namespace EmbeddingBatch

/-! ## §1 Fates -/

/-- What becomes of a text, given the outcomes of the requests for its chunks in order. -/
inductive Fate : Job → List (Except ProviderError Embedding) → Result → Prop where
  | uncut {reason : IndexError} {outcomes : List (Except ProviderError Embedding)} :
      Fate (.error reason) outcomes (.error reason)
  /-- The reason is that of the first request that failed. -/
  | refused {chunks : List TextChunk} {vectors : List Embedding} {reason : ProviderError}
      {rest : List (Except ProviderError Embedding)} :
      Fate (.ok chunks) (vectors.map .ok ++ .error reason :: rest)
        (.error (.embedding (.provider reason)))
  | uncombined {chunks : List TextChunk} {vectors : List Embedding} {reason : CombineError} :
      Embedding.combine vectors (chunks.map TextChunk.tokens) = .error reason →
      Fate (.ok chunks) (vectors.map .ok) (.error (.embedding (.combine reason)))
  | embedded {chunks : List TextChunk} {vectors : List Embedding} {v : Embedding} :
      Embedding.combine vectors (chunks.map TextChunk.tokens) = .ok v →
      Fate (.ok chunks) (vectors.map .ok) (.ok v)

/-- Every text has one fate. -/
theorem fate_iff {job : Job} {outcomes : List (Except ProviderError Embedding)} {result : Result} :
    Fate job outcomes result ↔ result = resultOf job outcomes := by
  constructor
  · intro h
    cases h with
    | uncut => rfl
    | refused => rw [resultOf, vectorsOf_map_ok_append]
    | uncombined hcombine => simp only [resultOf, vectorsOf_map_ok, hcombine]
    | embedded hcombine => simp only [resultOf, vectorsOf_map_ok, hcombine]
  · rintro rfl
    cases job with
    | error reason => exact .uncut
    | ok chunks =>
      unfold resultOf
      -- the outcomes are split at the first one that is not a vector
      rcases answers_cases outcomes with ⟨vectors, rfl⟩ | ⟨vectors, reason, rest, rfl⟩
      · simp only [vectorsOf_map_ok]
        cases hcombine : Embedding.combine vectors (chunks.map TextChunk.tokens) with
        | ok v => exact .embedded hcombine
        | error reason => exact .uncombined hcombine
      · simp only [vectorsOf_map_ok_append]
        exact .refused

/-! ## §2 Places -/

/-- Every unit of the files, with the number of its file and its own number there. -/
def numberedUnits (records : List FileRecord) : List (Nat × Nat × CodeUnit) :=
  records.zipIdx.flatMap fun (r, i) => r.units.zipIdx.map fun (u, j) => (i, j, u)

private theorem mem_numberedUnits_iff {records : List FileRecord} {i j : Nat} {u : CodeUnit} :
    (i, j, u) ∈ numberedUnits records ↔
      ∃ r, records[i]? = some r ∧ r.units[j]? = some u := by
  unfold numberedUnits
  constructor
  · intro h
    -- a number is the place of its file, and of its unit in the file
    obtain ⟨⟨r, i'⟩, hr, hu⟩ := List.mem_flatMap.1 h
    obtain ⟨⟨u', j'⟩, hu, heq⟩ := List.mem_map.1 hu
    cases heq
    exact ⟨r, List.mem_zipIdx_iff_getElem?.1 hr, List.mem_zipIdx_iff_getElem?.1 hu⟩
  · rintro ⟨r, hr, hu⟩
    apply List.mem_flatMap.2
    refine ⟨(r, i), List.mem_zipIdx_iff_getElem?.2 hr, ?_⟩
    exact List.mem_map.2 ⟨(u, j), List.mem_zipIdx_iff_getElem?.2 hu, rfl⟩

private theorem unitTexts_eq (records : List FileRecord) :
    unitTexts records = (numberedUnits records).map fun (_, _, u) => u.sourceText := by
  unfold unitTexts numberedUnits
  rw [List.map_flatMap]
  -- the left side gets the numbers too, first those of the files and then those of the units
  conv => lhs; rw [← List.zipIdx_map_fst 0 records, List.flatMap_map]
  apply List.flatMap_congr
  rintro ⟨r, i⟩ _
  conv => lhs; rw [← List.zipIdx_map_fst 0 r.units]
  simp only [List.map_map, Function.comp_def]

/-! ## §3 Results by place -/

private theorem zip_zipIdx_map {α β : Type} (xs : List α) (f : α × Nat → β) :
    xs.zip (xs.zipIdx.map f) = xs.zipIdx.map fun x => (x.1, f x) := by
  conv => lhs; arg 1; rw [← List.zipIdx_map_fst 0 xs]
  exact List.zip_map'

private theorem shares_numberedUnits (records : List FileRecord) (result : Nat → Nat → Result) :
    shares records ((numberedUnits records).map fun (i, j, _) => result i j) =
      records.zipIdx.map fun (r, i) => (r, r.units.zipIdx.map fun (_, j) => result i j) := by
  unfold numberedUnits
  rw [List.map_flatMap]
  conv => lhs; arg 1; rw [← List.zipIdx_map_fst 0 records]
  simp only [List.map_map, Function.comp_def]
  apply shares_flatMap
  rintro ⟨r, i⟩ _
  rw [List.length_map, List.length_zipIdx]

private theorem settledRecord_zipIdx (r : FileRecord) (result : Nat → Result) :
    settledRecord r (r.units.zipIdx.map fun (_, j) => result j) =
      { r with units := r.units.zipIdx.filterMap fun (u, j) =>
          (result j).toOption.map fun v => { u with embedding := some v } } := by
  unfold settledRecord
  rw [zip_zipIdx_map, List.filterMap_map]
  congr 2
  funext ⟨u, j⟩
  show embedded? u (result j) = (result j).toOption.map fun v => { u with embedding := some v }
  cases result j
  all_goals rfl

private theorem failuresOf_zipIdx (r : FileRecord) (result : Nat → Result) :
    failuresOf r (r.units.zipIdx.map fun (_, j) => result j) =
      r.units.zipIdx.filterMap fun (u, j) => failure? r u (result j) := by
  unfold failuresOf
  rw [zip_zipIdx_map, List.filterMap_map]
  rfl

end EmbeddingBatch

/-- The request for a chunk, with the numbers of its file, its unit and the chunk itself. -/
structure ChunkRequest where
  file : Nat
  unit : Nat
  chunk : Nat
  text : String

namespace Embedder

open EmbeddingBatch

variable {σ : Type} (e : Embedder σ)

/-- The requests for all chunks of all units of all files, in this order. -/
def chunkRequests (records : List FileRecord) : List ChunkRequest :=
  (numberedUnits records).flatMap fun (i, j, u) =>
    (chunksOf (e.jobOf u.sourceText)).zipIdx.map fun (c, k) => ⟨i, j, k, c.text⟩

/-- The outcomes of the requests for the chunks of a text, in their order. -/
def outcomesOf (text : String) (outcome : Nat → Except ProviderError Embedding) :
    List (Except ProviderError Embedding) :=
  (List.range (chunksOf (e.jobOf text)).length).map outcome

private theorem requests_eq (records : List FileRecord) :
    requests ((unitTexts records).map e.jobOf) =
      (e.chunkRequests records).map ChunkRequest.text := by
  rw [unitTexts_eq, List.map_map]
  unfold requests chunkRequests
  rw [List.flatMap_map, List.map_flatMap]
  apply List.flatMap_congr
  rintro ⟨i, j, u⟩ _
  conv => lhs; arg 2; rw [← List.zipIdx_map_fst 0 (chunksOf _)]
  simp only [List.map_map, Function.comp_def]

private theorem map_outcome_chunkRequests (records : List FileRecord)
    (outcome : Nat → Nat → Nat → Except ProviderError Embedding) :
    (e.chunkRequests records).map (fun q => outcome q.file q.unit q.chunk) =
      (numberedUnits records).flatMap fun (i, j, u) => e.outcomesOf u.sourceText (outcome i j) := by
  unfold chunkRequests
  rw [List.map_flatMap]
  apply List.flatMap_congr
  rintro ⟨i, j, u⟩ _
  show _ = (List.range (chunksOf (e.jobOf u.sourceText)).length).map (outcome i j)
  rw [List.range_eq_range', ← List.zipIdx_map_snd 0]
  simp only [List.map_map, Function.comp_def]

/-- Whatever a provider answers, the requests of an embedder that asks it take their turns until
every one of them is over. -/
theorem exists_pool_ofProvider (provider : Provider σ) (tokenize : String → Tokens)
    (s : EmbedderSettings) (texts : Array String) (state : σ) :
    ∃ pool : Pool Embedding, pool.Reachable s.retryPolicy s.maxConcurrent texts.size ∧
      pool.Over ∧ ((ofProvider provider tokenize s).request texts state).results = pool.answers :=
  ⟨_, Schedule.reachable_execute ..,
    Schedule.run_over s.retryPolicy provider s.maxConcurrent texts state, rfl⟩

/-! ## §4 The batch -/

section Answers

variable {e : Embedder σ} {records : List FileRecord} {state : σ}
  {outcome : Nat → Nat → Nat → Except ProviderError Embedding}
  (h : (e.request ((e.chunkRequests records).map ChunkRequest.text).toArray state).results =
    (e.chunkRequests records).map fun q => outcome q.file q.unit q.chunk)

include h

private theorem results_requestAll :
    (e.requestAll ((unitTexts records).map e.jobOf) state).results =
      (e.chunkRequests records).map fun q => outcome q.file q.unit q.chunk := by
  unfold requestAll
  rw [requests_eq]
  -- a batch without requests has no answers, although nobody is asked for them
  split
  · next hnone => rw [List.map_eq_nil_iff.1 hnone, List.map_nil]
  · exact h

/-- The results of a batch are those of its units, each by the outcomes of its own chunks. -/
theorem embedTexts_outcome_eq : (e.embedTexts (unitTexts records) state).outcome =
      (numberedUnits records).map fun (i, j, u) =>
        resultOf (e.jobOf u.sourceText) (e.outcomesOf u.sourceText (outcome i j)) := by
  show resultsOf ((unitTexts records).map e.jobOf) _ = _
  rw [results_requestAll h, map_outcome_chunkRequests, unitTexts_eq, List.map_map]
  apply resultsOf_flatMap
  rintro ⟨i, j, u⟩ _
  show ((List.range _).map _).length = _
  rw [List.length_map, List.length_range]
  rfl

end Answers

private theorem exists_fates (records : List FileRecord)
    (outcome : Nat → Nat → Nat → Except ProviderError Embedding) :
    ∃ fate : Nat → Nat → Result, ∀ i j u, (i, j, u) ∈ numberedUnits records →
      fate i j = resultOf (e.jobOf u.sourceText) (e.outcomesOf u.sourceText (outcome i j)) := by
  have heach : ∀ i j, ∃ result : Result, ∀ u, (i, j, u) ∈ numberedUnits records →
      result = resultOf (e.jobOf u.sourceText) (e.outcomesOf u.sourceText (outcome i j)) := by
    intro i j
    by_cases hunit : ∃ u, (i, j, u) ∈ numberedUnits records
    · obtain ⟨u, hu⟩ := hunit
      refine ⟨resultOf (e.jobOf u.sourceText) (e.outcomesOf u.sourceText (outcome i j)), ?_⟩
      intro u' hu'
      -- two units at one place are the same
      obtain ⟨r, hr, hu⟩ := mem_numberedUnits_iff.1 hu
      obtain ⟨r', hr', hu'⟩ := mem_numberedUnits_iff.1 hu'
      obtain rfl := Option.some.inj (hr.symm.trans hr')
      rw [Option.some.inj (hu'.symm.trans hu)]
    · exact ⟨.error (.embedding (.combine .noVectors)), fun u hu => absurd ⟨u, hu⟩ hunit⟩
  choose fate hfate using heach
  exact ⟨fate, hfate⟩

/-- A batch loses and mixes up nothing, in whatever order its requests come to an end.  The requests
are those for all chunks of all units, each with the outcome that is assigned to its place.  Every
unit has its own fate, by the outcomes of its own chunks in order; the files come back in their
order, each with the units whose fate is a vector, and with that vector; and the failures are the
other units in order, each with its file and its reason.  An embedder that asks a provider gets its
answers from such a pool by `exists_pool_ofProvider`. -/
theorem embedRecords_exact (e : Embedder σ) (records : List FileRecord) (state : σ)
    {policy : RetryPolicy} {maxConcurrent : Nat} {pool : Pool Embedding}
    {outcome : Nat → Nat → Nat → Except ProviderError Embedding}
    (hpool : pool.Reachable policy maxConcurrent (e.chunkRequests records).length)
    (houtcome : ∀ (n : Nat) q, (e.chunkRequests records)[n]? = some q →
      pool.phases[n]? = some (.done (outcome q.file q.unit q.chunk)))
    (hanswers : (e.request ((e.chunkRequests records).map ChunkRequest.text).toArray
      state).results = pool.answers) :
    let settled := (e.embedRecords records state).outcome
    ∃ fate : Nat → Nat → Result,
      (∀ (i j : Nat) r u, records[i]? = some r → r.units[j]? = some u →
        Fate (e.jobOf u.sourceText) (e.outcomesOf u.sourceText (outcome i j)) (fate i j)) ∧
      settled.records = (records.zipIdx.map fun (r, i) =>
        { r with units := r.units.zipIdx.filterMap fun (u, j) =>
            (fate i j).toOption.map fun v => { u with embedding := some v } }) ∧
      settled.failures = records.zipIdx.flatMap fun (r, i) =>
        r.units.zipIdx.filterMap fun (u, j) =>
          match fate i j with
          | .ok _ => none
          | .error reason => some ⟨r.filepath, r.checksum, u.label, reason⟩ := by
  intro settled
  obtain ⟨fate, hfate⟩ := e.exists_fates records outcome
  have hresults : (e.embedTexts (unitTexts records) state).outcome =
      (numberedUnits records).map fun (i, j, _) => fate i j := by
    -- the answers stand where their requests do, so the order of completion plays no part from here
    have hplaced := hanswers.trans (Pool.answers_eq_map hpool.sound.size houtcome)
    rw [embedTexts_outcome_eq hplaced]
    apply List.map_congr_left
    rintro ⟨i, j, u⟩ hu
    exact (hfate i j u hu).symm
  have hsettled : settled =
      settle records ((numberedUnits records).map fun (i, j, _) => fate i j) :=
    congrArg (settle records) hresults
  refine ⟨fate, ?_, ?_, ?_⟩
  · intro i j r u hr hu
    exact fate_iff.2 (hfate i j u (mem_numberedUnits_iff.2 ⟨r, hr, hu⟩))
  · rw [hsettled, settle_records, shares_numberedUnits, List.map_map]
    apply List.map_congr_left
    rintro ⟨r, i⟩ _
    exact settledRecord_zipIdx r (fate i)
  · rw [hsettled, settle_failures, shares_numberedUnits, List.flatMap_map]
    apply List.flatMap_congr
    rintro ⟨r, i⟩ _
    exact failuresOf_zipIdx r (fate i)

end Embedder

namespace Sample

/-- A provider that is down at first and, after an answer without components, refuses a request. -/
def moody : Provider Nat where
  name := "mock"
  model := "moody"
  delay := ⟨0⟩
  answer _ calls :=
    let answer : Except ProviderError Embedding :=
      match calls with
      | 0 => .error (.unavailable 503)
      | 1 => .ok []
      | 2 => .error (.rejected "mock" "no")
      | _ => .ok [Single.one]
    (answer, calls + 1)

/-- Settings under which two requests run at once. -/
def twoAtOnce : EmbedderSettings := { maxConcurrent := 2 }

/-- Two files, each of which contains the same text. -/
def sharedText : List FileRecord :=
  [⟨"a.py", "1", [.ofGlobalCode "x", .ofGlobalCode "y"]⟩, ⟨"b.py", "2", [.ofGlobalCode "x"]⟩]

/-- The embedder of the sample. -/
def moodyEmbedder : Embedder Nat := .ofProvider moody (fun text => [text.toUTF8]) twoAtOnce

/-- The pool of the sample at the end: the first request, which had to wait, was over last. -/
def moodyPool : Pool Embedding :=
  (Schedule.execute twoAtOnce.retryPolicy moody #["x", "y", "x"]
    (2 * (3 * Schedule.movesPerRequest twoAtOnce.retryPolicy) + 2)
    (.start twoAtOnce.maxConcurrent #["x", "y", "x"] 0)).pool

/-- The outcomes of the sample by file, unit and chunk. -/
def moodyOutcome (i j _ : Nat) : Except ProviderError Embedding :=
  match i, j with
  | 0, 0 => .ok [Single.one]
  | 0, _ => .ok []
  | _, _ => .error (.rejected "mock" "no")

end Sample

open EmbeddingBatch in
/-- The text of the first unit comes again in the other file, where its request is refused. -/
theorem Embedder.embedRecords_exact_sample :
    let settled := (Sample.moodyEmbedder.embedRecords Sample.sharedText 0).outcome
    settled.records = [⟨"a.py", "1", (Embedding.combine [[Single.one]] [1]).toOption.toList.map
        fun v => { CodeUnit.ofGlobalCode "x" with embedding := some v }⟩, ⟨"b.py", "2", []⟩] ∧
      ∀ v, Embedding.combine [[Single.one]] [1] = .ok v → settled.failures =
        [⟨"a.py", "1", "global", .embedding (.combine .dimensionsDiffer)⟩,
          ⟨"b.py", "2", "global", .embedding (.provider (.rejected "mock" "no"))⟩] := by
  have hrequests : Sample.moodyEmbedder.chunkRequests Sample.sharedText =
      [⟨0, 0, 0, "x"⟩, ⟨0, 1, 0, "y"⟩, ⟨1, 0, 0, "x"⟩] := rfl
  have hphases : Sample.moodyPool.phases = #[.done (.ok [Single.one]), .done (.ok []),
      .done (.error (.rejected "mock" "no"))] := by with_unfolding_all rfl
  have hpool : Sample.moodyPool.Reachable Sample.twoAtOnce.retryPolicy
      Sample.twoAtOnce.maxConcurrent
      (Sample.moodyEmbedder.chunkRequests Sample.sharedText).length := by
    rw [hrequests]
    exact Schedule.reachable_execute _ _ _ #["x", "y", "x"] _ _
  have houtcome : ∀ (n : Nat) q,
      (Sample.moodyEmbedder.chunkRequests Sample.sharedText)[n]? = some q →
      Sample.moodyPool.phases[n]? = some (.done (Sample.moodyOutcome q.file q.unit q.chunk)) := by
    intro n q hq
    rw [hrequests] at hq
    rw [hphases]
    match n, hq with
    | 0, rfl => rfl
    | 1, rfl => rfl
    | 2, rfl => rfl
  have hanswers : (Sample.moodyEmbedder.request ((Sample.moodyEmbedder.chunkRequests
      Sample.sharedText).map ChunkRequest.text).toArray 0).results = Sample.moodyPool.answers := by
    rw [hrequests]
    rfl
  obtain ⟨fate, hfate, hrecords, hfailures⟩ :=
    embedRecords_exact Sample.moodyEmbedder Sample.sharedText 0 hpool houtcome hanswers
  have hx : fate 0 0 = resultOf (.ok [⟨"x", 1⟩]) ([[Single.one]].map .ok) :=
    fate_iff.1 (hfate 0 0 _ _ rfl rfl)
  have hy : fate 0 1 = .error (.embedding (.combine .dimensionsDiffer)) :=
    fate_iff.1 (hfate 0 1 _ _ rfl rfl)
  have hz : fate 1 0 = .error (.embedding (.provider (.rejected "mock" "no"))) :=
    fate_iff.1 (hfate 1 0 _ _ rfl rfl)
  rw [resultOf, vectorsOf_map_ok] at hx
  refine ⟨hrecords.trans ?_, fun v hv => hfailures.trans ?_⟩
  · -- whether one vector of one component can be combined is a matter of single precision
    cases hcombine : Embedding.combine [[Single.one]] [1] with
    | ok v =>
      simp only [List.map_cons, List.map_nil, hcombine] at hx
      simp [Sample.sharedText, hx, hy, hz, Except.toOption]
    | error reason =>
      simp only [List.map_cons, List.map_nil, hcombine] at hx
      simp [Sample.sharedText, hx, hy, hz, Except.toOption]
  · simp only [List.map_cons, List.map_nil, hv] at hx
    have hlabel : ∀ text, (CodeUnit.ofGlobalCode text).label = "global" := fun _ => rfl
    simp [Sample.sharedText, hx, hy, hz, hlabel]

end CodeIndex
