import CodeIndex.Proofs.Embedding.Batch
import CodeIndex.Proofs.Embedding.Completion
import CodeIndex.Proofs.Embedding.Stateless
import Mathlib.Logic.IsEmpty.Basic

/-!
# Embedders whose answers depend on the text alone

Where a provider's answers depend on the text alone, each request comes to the same end whenever it
is made and whatever else is in its batch: `Embedder.isConstant_ofProvider`.  So what becomes of a
file does not depend on the other files either, and files can be embedded in any order.
-/

namespace CodeIndex

namespace Schedule

variable {σ : Type} {policy : RetryPolicy} {provider : Provider σ} {texts : Array String}
  {s s' : Schedule σ} {ahead i : Nat}

/-! ## §1 Schedules -/

/-- What comes of a text in the end if all its attempts go alike. -/
def finalAnswer (policy : RetryPolicy) (provider : Provider σ) (state : σ) (text : String) :
    Except ProviderError Embedding :=
  if provider.delay.nanos ≤ policy.requestTimeout.nanos then (provider.answer text state).1
  else .error (.timeout policy.requestTimeout)

/-- Calls are cut off just if the provider takes too long, and whatever is over is over with the
final answer. -/
structure Final (policy : RetryPolicy) (provider : Provider σ) (texts : Array String) (state : σ)
    (s : Schedule σ) : Prop where
  cutOff : ∀ (i failed : Nat), s.pool.phases[i]? = some (.calling failed) →
    ((s.timerOf i).cutOff = true ↔ ¬ provider.delay.nanos ≤ policy.requestTimeout.nanos)
  done : ∀ (i : Nat) result, s.pool.phases[i]? = some (.done result) →
    result = finalAnswer policy provider state (texts.getD i "")

variable {state : σ}

private theorem timerOf_moved {pool : Pool Embedding} (s : Schedule σ) (i j : Nat) (timer : Timer)
    (hi : i < s.timers.size) :
    (s.moved i timer pool).timerOf j = if i = j then timer else s.timerOf j := by
  show (s.timers.setIfInBounds i timer).getD j _ = _
  rw [Array.getD_eq_getD_getElem?, Array.getElem?_setIfInBounds]
  split
  · rfl
  · rw [timerOf, Array.getD_eq_getD_getElem?]

private theorem outcome_eq_finalAnswer (hprovider : provider.Stateless)
    (h : s.Final policy provider texts state) {failed : Nat}
    (hphase : s.pool.phases[i]? = some (.calling failed)) :
    (s.outcome policy provider texts i (s.timerOf i)).1 =
      finalAnswer policy provider state (texts.getD i "") := by
  have hcutOff := h.cutOff i failed hphase
  unfold outcome finalAnswer
  -- the timer of the call says on which side of the time limit the provider is
  by_cases hdelay : provider.delay.nanos ≤ policy.requestTimeout.nanos
  · rw [if_pos hdelay, if_neg (by rw [hcutOff]; exact not_not_intro hdelay)]
    exact hprovider ..
  · rw [if_neg hdelay, if_pos (hcutOff.2 hdelay)]

/-- Who calls is given the timer that the time limit asks for. -/
theorem Final.called (h : s.Final policy provider texts state) {pool : Pool Embedding}
    {e : PoolEvent Embedding} (hi : i < s.timers.size)
    (hstep : Pool.Step policy s.pool i e pool) (he : ∀ result, e ≠ .answer result) :
    (s.called policy provider i pool).Final policy provider texts state := by
  constructor
  · intro j failed hj
    show ((s.moved i _ pool).timerOf j).cutOff = true ↔ _
    rw [timerOf_moved _ _ _ _ hi]
    split
    · -- the timer of the new call is cut off just if the provider is slower than the limit
      split
      · next hdelay => simp [hdelay]
      · next hdelay => simp [hdelay]
    · next hij => exact h.cutOff j failed ((hstep.phase_of_ne hij).symm.trans hj)
  · intro j result hj
    rcases hstep.done_cases hj with hbefore | ⟨_, hanswer⟩
    · exact h.done j result hbefore
    · exact absurd hanswer (he result)

/-- A move that ends a request ends it with its final answer. -/
theorem Move.final {capacity n : Nat} (hprovider : provider.Stateless)
    (hsound : s.Sound policy capacity n) (h : s.Final policy provider texts state)
    (hmove : Move policy provider texts s ahead i s') :
    s'.Final policy provider texts state := by
  have hsize : ∀ phase, s.pool.phases[i]? = some phase → i < s.timers.size := by
    intro phase hphase
    rw [hsound.timers, ← hsound.pool.size]
    exact Pool.lt_size_of_phase hphase
  cases hmove with
  | acquire hphase _ hstep => exact h.called (hsize _ hphase) hstep nofun
  | wake hphase _ hstep => exact h.called (hsize _ hphase) hstep nofun
  | @answer failed pool hphase _ hstep =>
    constructor
    · intro j failed' hj
      show ((s.moved i _ pool).timerOf j).cutOff = true ↔ _
      rw [timerOf_moved _ _ _ _ (hsize _ hphase)]
      split
      · -- whoever has been answered does not call
        next hij =>
        subst hij
        exact absurd hj (hstep.not_calling_of_answer failed')
      · next hij => exact h.cutOff j failed' ((hstep.phase_of_ne hij).symm.trans hj)
    · intro j result hj
      rcases hstep.done_cases hj with hbefore | ⟨rfl, hanswer⟩
      · exact h.done j result hbefore
      · rw [← PoolEvent.answer.inj hanswer]
        exact outcome_eq_finalAnswer hprovider h hphase

private theorem start_final (policy : RetryPolicy) (provider : Provider σ) (maxConcurrent : Nat)
    (texts : Array String) (state state' : σ) :
    (start maxConcurrent texts state').Final policy provider texts state := by
  constructor
  · intro i failed hphase
    cases Pool.eq_waiting_of_start hphase
  · intro i result hphase
    cases Pool.eq_waiting_of_start hphase

private theorem answers_of_over {capacity : Nat} (hsound : s.Sound policy capacity texts.size)
    (hfinal : s.Final policy provider texts state) (hover : s.pool.Over) :
    s.pool.answers = texts.toList.map (finalAnswer policy provider state) := by
  apply Pool.answers_eq_map
  · rw [Array.length_toList, hsound.pool.size]
  · intro n text htext
    rw [Array.getElem?_toList] at htext
    have hphase : n < s.pool.phases.size := by
      rw [hsound.pool.size]
      exact (Array.getElem?_eq_some_iff.1 htext).1
    -- whatever is over is over with the final answer to its text
    obtain ⟨result, hdone⟩ := hover n _ (Array.getElem?_eq_getElem hphase)
    have hresult := hfinal.done n result (by rw [Array.getElem?_eq_getElem hphase, hdone])
    rw [Array.getElem?_eq_getElem hphase, hdone, hresult, Array.getD_eq_getD_getElem?, htext,
      Option.getD_some]

/-- Where answers depend on the text alone, each text of a batch comes to its final answer. -/
theorem run_results (hprovider : provider.Stateless) (policy : RetryPolicy) (maxConcurrent : Nat)
    (texts : Array String) (state state' : σ) :
    (run policy provider maxConcurrent texts state').results =
      texts.toList.map (finalAnswer policy provider state) := by
  obtain ⟨hsound, hfinal⟩ := sound_execute_induction
    (P := fun s => s.Final policy provider texts state)
    (fun _ _ _ _ hsound h hmove => hmove.final hprovider hsound h)
    (fun _ _ h => ⟨h.cutOff, h.done⟩) (2 * (texts.size * movesPerRequest policy) + 2)
    (start_sound policy maxConcurrent texts state') (start_final ..)
  exact answers_of_over hsound hfinal (run_over policy provider maxConcurrent texts state')

end Schedule

/-! ## §2 Batches of files -/

namespace EmbeddingBatch

variable {answer : String → Except ProviderError Embedding} {result : String → Result}

private theorem resultsOf_map (answer : String → Except ProviderError Embedding) (jobs : List Job) :
    resultsOf jobs ((requests jobs).map answer) =
      jobs.map fun job => resultOf job ((chunksOf job).map fun chunk => answer chunk.text) := by
  have hanswers : (requests jobs).map answer =
      jobs.flatMap fun job => (chunksOf job).map fun chunk => answer chunk.text := by
    simp only [requests, List.map_flatMap, List.map_map, Function.comp_def]
  -- every job takes just the answers to its own chunks
  rw [hanswers]
  conv => lhs; arg 1; rw [← List.map_id jobs]
  exact resultsOf_flatMap fun job _ => List.length_map _

private theorem shares_map (result : String → Result) (records : List FileRecord) :
    shares records ((unitTexts records).map result) =
      records.map fun r => (r, r.units.map fun u => result u.sourceText) := by
  have hresults : (unitTexts records).map result =
      records.flatMap fun r => r.units.map fun u => result u.sourceText := by
    simp only [unitTexts, List.map_flatMap, List.map_map, Function.comp_def]
  -- every file takes just the results of its own units
  rw [hresults]
  conv => lhs; arg 1; rw [← List.map_id records]
  exact shares_flatMap fun r _ => List.length_map _

/-- What becomes of files whose texts have these results: of each file by itself. -/
def settledEach (result : String → Result) (records : List FileRecord) : EmbedOutcome where
  records := records.map fun r => settledRecord r (r.units.map fun u => result u.sourceText)
  failures := records.flatMap fun r => failuresOf r (r.units.map fun u => result u.sourceText)

private theorem settle_map (result : String → Result) (records : List FileRecord) :
    settle records ((unitTexts records).map result) = settledEach result records := by
  show EmbedOutcome.mk ((shares records _).map _) ((shares records _).flatMap _) = _
  rw [shares_map, List.map_map, List.flatMap_map]
  rfl

/-- Files in another order are settled alike, in that order. -/
theorem settledEach_perm (result : String → Result) {records more : List FileRecord}
    (h : records.Perm more) :
    (settledEach result records).records.Perm (settledEach result more).records ∧
      (settledEach result records).failures.Perm (settledEach result more).failures :=
  ⟨h.map _, h.flatMap_right _⟩

/-- No file is lost. -/
theorem settledEach_filepaths (result : String → Result) (records : List FileRecord) :
    (settledEach result records).records.map FileRecord.filepath =
      records.map FileRecord.filepath := by
  unfold settledEach
  rw [List.map_map]
  rfl

end EmbeddingBatch

namespace Embedder

open EmbeddingBatch

variable {σ : Type}

/-- Where a provider's answers depend on the text alone, so do those of an embedder that asks it. -/
theorem isConstant_ofProvider {p : Provider σ} (h : p.Stateless) (tokenize : String → Tokens)
    (s : EmbedderSettings) : (ofProvider p tokenize s).IsConstant := by
  rcases isEmpty_or_nonempty σ with _ | ⟨⟨state⟩⟩
  · -- a provider without states is never asked
    exact ⟨fun _ => .error Schedule.abandoned, fun _ state => isEmptyElim state⟩
  · exact ⟨Schedule.finalAnswer s.retryPolicy p state, fun texts state' =>
      Schedule.run_results h s.retryPolicy s.maxConcurrent texts state state'⟩

variable {e : Embedder σ}

/-- Every text has a result of its own, in whatever company it is embedded. -/
theorem IsConstant.embedTexts_outcome (h : e.IsConstant) :
    ∃ result : String → Result,
      ∀ texts state, (e.embedTexts texts state).outcome = texts.map result := by
  obtain ⟨answer, hanswer⟩ := h
  refine ⟨fun text => resultOf (e.jobOf text)
    ((chunksOf (e.jobOf text)).map fun chunk => answer chunk.text), fun texts state => ?_⟩
  -- all requests are answered alike, also if there are none
  have hrequests : ∀ jobs, (e.requestAll jobs state).results = (requests jobs).map answer := by
    intro jobs
    unfold requestAll
    split
    · next hnone => rw [hnone, List.map_nil]
    · next hsome => exact hanswer _ state
  unfold embedTexts
  simp only
  rw [hrequests, resultsOf_map, List.map_map]
  rfl

/-- Every file comes to an end of its own. -/
theorem IsConstant.embedRecords_outcome (h : e.IsConstant) :
    ∃ result : String → Result,
      ∀ records state, (e.embedRecords records state).outcome = settledEach result records := by
  obtain ⟨result, hresult⟩ := h.embedTexts_outcome
  refine ⟨result, fun records state => ?_⟩
  show settle records (e.embedTexts (unitTexts records) state).outcome = _
  rw [hresult, settle_map]

end Embedder

namespace Sample

/-- A provider with one vector for all texts. -/
def provider : Provider Unit where
  name := "mock"
  model := "unit"
  delay := ⟨0⟩
  answer := fun _ state => (.ok [Single.one], state)

/-- An embedder that asks this provider and takes every text for one token. -/
def embedder : Embedder Unit := .ofProvider provider (fun text => [text.toUTF8]) {}

/-- Every text is embedded. -/
theorem replies_eq : ∀ texts ∈ [["x = 1\n"], ["y = 2\n"], ["x = 1\n", "y = 2\n"]],
    (embedder.embedTexts texts ()).outcome = texts.map fun _ => .ok [Single.one] := by
  decide +kernel

end Sample

end CodeIndex
