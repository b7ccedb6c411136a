import CodeIndex.Proofs.Embedding.Batch
import CodeIndex.Proofs.Embedding.Schedule
import Mathlib.Data.List.Forall2

/-!
# What embedders answer

However a batch is scheduled, a request that succeeds does so with an answer that the provider gave
for its text: `Schedule.run_answered`.  So where a provider's successful answers depend on the text
alone, the vectors of an embedder do too.
-/

namespace CodeIndex

/-! ## §1 Schedules -/

/-- Every request that succeeded has an answer which the provider can give for its text. -/
structure Pool.Answered {σ : Type} (provider : Provider σ) (texts : Array String)
    (pool : Pool Embedding) : Prop where
  size : pool.phases.size = texts.size
  answered : ∀ i v, pool.phases[i]? = some (.done (.ok v)) →
    ∃ state, (provider.answer (texts.getD i "") state).1 = .ok v

/-- A request only comes to success by an answer, so the answer has to be the provider's. -/
theorem Pool.Answered.step {σ : Type} {provider : Provider σ} {texts : Array String}
    {pool pool' : Pool Embedding} {policy : RetryPolicy} {i : Nat} {e : PoolEvent Embedding}
    (h : pool.Answered provider texts) (hstep : Pool.Step policy pool i e pool')
    (hanswer : ∀ v, e = .answer (.ok v) →
      ∃ state, (provider.answer (texts.getD i "") state).1 = .ok v) :
    pool'.Answered provider texts := by
  refine ⟨hstep.size_eq.trans h.size, fun j v hj => ?_⟩
  rcases hstep.done_cases hj with hbefore | ⟨rfl, he⟩
  · exact h.answered j v hbefore
  · exact hanswer v he

namespace Schedule

variable {σ : Type} {policy : RetryPolicy} {provider : Provider σ} {texts : Array String}

private theorem outcome_answered {s : Schedule σ} {i : Nat} {timer : Timer} {v : Embedding}
    (h : (s.outcome policy provider texts i timer).1 = .ok v) :
    ∃ state, (provider.answer (texts.getD i "") state).1 = .ok v := by
  unfold outcome at h
  split at h
  · cases h
  · exact ⟨s.provider, h⟩

/-- A move brings no answer but what the provider gave. -/
theorem Move.answered {s s' : Schedule σ} {ahead i : Nat} (h : s.pool.Answered provider texts)
    (hmove : Move policy provider texts s ahead i s') : s'.pool.Answered provider texts := by
  cases hmove with
  | acquire _ _ hstep => exact h.step hstep nofun
  | wake _ _ hstep => exact h.step hstep nofun
  | answer _ _ hstep =>
    exact h.step hstep fun v hv => outcome_answered (PoolEvent.answer.inj hv)

private theorem execute_answered {fuel : Nat} {s : Schedule σ}
    (h : s.pool.Answered provider texts) :
    (execute policy provider texts fuel s).pool.Answered provider texts :=
  execute_induction (P := fun s => s.pool.Answered provider texts)
    (fun _ _ _ _ h hmove => hmove.answered h) (fun _ _ h => h) fuel h

private theorem start_answered (provider : Provider σ) (maxConcurrent : Nat) (texts : Array String)
    (state : σ) : (start maxConcurrent texts state).pool.Answered provider texts := by
  refine ⟨Array.size_replicate, fun i v hi => ?_⟩
  cases Pool.eq_waiting_of_start hi

private theorem results_answered {pool : Pool Embedding} (h : pool.Answered provider texts) :
    List.Forall₂ (fun text result => ∀ v, result = .ok v →
        ∃ state, (provider.answer text state).1 = .ok v)
      texts.toList pool.answers := by
  unfold Pool.answers
  rw [List.forall₂_iff_get]
  refine ⟨?_, fun i hi _ v hv => ?_⟩
  · rw [List.length_map, Array.length_toList, Array.length_toList, h.size]
  · have hsize : i < texts.size := by simpa using hi
    have hphase : i < pool.phases.size := by
      rw [h.size]
      exact hsize
    simp only [List.get_eq_getElem, List.getElem_map, Array.getElem_toList] at hv
    -- a success among the results can only come from a finished request
    have hdone : pool.phases[i]? = some (.done (.ok v)) := by
      rw [Array.getElem?_eq_getElem hphase]
      cases hcase : pool.phases[i] with
      | done result =>
        rw [hcase] at hv
        have hok : result = .ok v := hv
        rw [hok]
      | waiting => rw [hcase] at hv; cases hv
      | calling _ => rw [hcase] at hv; cases hv
      | sleeping _ => rw [hcase] at hv; cases hv
    obtain ⟨state, hanswer⟩ := h.answered i v hdone
    refine ⟨state, ?_⟩
    simpa [Array.getD_eq_getD_getElem?, hsize] using hanswer

/-- An executed batch has a result for every text, and each vector among them is an answer of the
provider to its text. -/
theorem run_answered (policy : RetryPolicy) (provider : Provider σ) (maxConcurrent : Nat)
    (texts : Array String) (state : σ) :
    List.Forall₂ (fun text result => ∀ v, result = .ok v →
        ∃ state, (provider.answer text state).1 = .ok v)
      texts.toList (run policy provider maxConcurrent texts state).results :=
  results_answered (execute_answered (start_answered provider maxConcurrent texts state))

end Schedule

/-! ## §2 Determined vectors -/

namespace EmbeddingBatch

/-- Every vector among the answers is the one that its text has. -/
def Agree (vector : String → Embedding) (texts : List String)
    (answers : List (Except ProviderError Embedding)) : Prop :=
  List.Forall₂ (fun text answer => ∀ v, answer = .ok v → v = vector text) texts answers

/-- What becomes of a text when every chunk has its vector. -/
def determined (vector : String → Embedding) (job : Job) : Result :=
  resultOf job ((chunksOf job).map fun chunk => .ok (vector chunk.text))

variable {vector : String → Embedding}

private theorem vectorsOf_of_agree {texts : List String}
    {answers : List (Except ProviderError Embedding)} (h : Agree vector texts answers)
    {vectors : List Embedding} (hok : vectorsOf answers = .ok vectors) :
    vectors = texts.map vector := by
  induction h generalizing vectors with
  | nil => exact (Except.ok.inj hok).symm
  | @cons text answer texts answers hanswer _ ih =>
    -- an error anywhere would have been the result
    cases answer with
    | error e => cases hok
    | ok v =>
      cases hrest : vectorsOf answers with
      | error e => simp [vectorsOf, hrest, Except.map] at hok
      | ok rest =>
        simp only [vectorsOf, hrest, Except.map, Except.ok.injEq] at hok
        rw [← hok, ih hrest, hanswer v rfl, List.map_cons]

private theorem resultOf_of_agree {job : Job} {answers : List (Except ProviderError Embedding)}
    (h : Agree vector ((chunksOf job).map TextChunk.text) answers) {v : Embedding}
    (hok : resultOf job answers = .ok v) :
    determined vector job = .ok v := by
  cases job with
  | error e => cases hok
  | ok chunks =>
    have hvectors : ((chunksOf (.ok chunks)).map fun chunk =>
        (Except.ok (vector chunk.text) : Except ProviderError Embedding)) =
        ((chunks.map TextChunk.text).map vector).map Except.ok := by
      simp [chunksOf, Function.comp_def]
    unfold determined
    -- now both sides combine vectors, and those are the same
    rw [hvectors]
    unfold resultOf at hok ⊢
    simp only at hok ⊢
    rw [vectorsOf_map_ok]
    cases hanswers : vectorsOf answers with
    | error e => rw [hanswers] at hok; cases hok
    | ok vectors =>
      rw [hanswers, vectorsOf_of_agree h hanswers] at hok
      exact hok

/-- Where all answers agree, so do all results. -/
theorem resultsOf_of_agree {jobs : List Job} {answers : List (Except ProviderError Embedding)}
    (h : Agree vector (requests jobs) answers) {job : Job} {v : Embedding}
    (hmem : (job, .ok v) ∈ jobs.zip (resultsOf jobs answers)) : determined vector job = .ok v := by
  induction jobs generalizing answers with
  | nil => cases hmem
  | cons first jobs ih =>
    have hlength : ((chunksOf first).map TextChunk.text).length = (chunksOf first).length :=
      List.length_map _
    rw [requests_cons] at h
    have htake := List.forall₂_take (chunksOf first).length h
    have hdrop := List.forall₂_drop (chunksOf first).length h
    rw [← hlength, List.take_left, hlength] at htake
    rw [← hlength, List.drop_left, hlength] at hdrop
    rw [resultsOf_cons, List.zip_cons_cons] at hmem
    -- the first job takes its answers from the front, the others have what is left
    rcases List.mem_cons.1 hmem with heq | hmem
    · obtain ⟨rfl, hok⟩ := Prod.mk.inj heq
      exact resultOf_of_agree htake hok.symm
    · exact ih hdrop hmem

end EmbeddingBatch

namespace Embedder

open EmbeddingBatch

variable {σ : Type}

/-- An embedder whose provider's vectors depend on the text alone has vectors that do. -/
theorem determined_of_embedTexts (provider : Provider σ) (tokenize : String → Tokens)
    (s : EmbedderSettings) {vector : String → Embedding}
    (hvector : ∀ text state v, (provider.answer text state).1 = .ok v → v = vector text)
    {texts : List String} {state : σ} {text : String} {v : Embedding}
    (h : (text, .ok v) ∈
      texts.zip ((ofProvider provider tokenize s).embedTexts texts state).outcome) :
    determined vector (EmbeddingBatch.jobOf tokenize s.maxTokens text) = .ok v := by
  have hagree : Agree vector (requests (texts.map (ofProvider provider tokenize s).jobOf))
      ((ofProvider provider tokenize s).requestAll
        (texts.map (ofProvider provider tokenize s).jobOf) state).results := by
    unfold requestAll
    split
    · -- no requests, no schedule
      next hnone =>
      rw [hnone]
      exact List.Forall₂.nil
    · next hsome =>
      have hrun := Schedule.run_answered s.retryPolicy provider s.maxConcurrent
        (requests (texts.map (ofProvider provider tokenize s).jobOf)).toArray state
      refine List.Forall₂.imp (fun text answer hanswer v hv => ?_) hrun
      obtain ⟨state', hstate⟩ := hanswer v hv
      exact hvector text state' v hstate
  -- the text's result is the one at the place of its job
  have hjob : ((ofProvider provider tokenize s).jobOf text, Except.ok v) ∈
      (texts.map (ofProvider provider tokenize s).jobOf).zip
        (resultsOf (texts.map (ofProvider provider tokenize s).jobOf)
          ((ofProvider provider tokenize s).requestAll
            (texts.map (ofProvider provider tokenize s).jobOf) state).results) := by
    rw [List.zip_map_left, List.mem_map]
    exact ⟨(text, .ok v), h, rfl⟩
  exact resultsOf_of_agree hagree hjob

end Embedder

end CodeIndex
