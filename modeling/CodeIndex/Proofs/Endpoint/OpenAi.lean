import CodeIndex.Endpoint.OpenAi
import CodeIndex.Proofs.Provider.Backoff

/-!
# Which answers are asked for again

An endpoint that is busy or down is asked again, as far as the budget goes; every other answer ends
the request.  `OpenAi.Says` lists what a response can say, and `OpenAi.embed_exact` follows the
requests, the result and the waits through every sequence of responses.
-/

namespace CodeIndex

/-! ## §1 What a response says -/

/-- The endpoint may answer later: it has too many requests, or the server is at fault. -/
def HttpResponse.IsBusy (r : HttpResponse) : Prop :=
  r.status = 429 ∨ (500 ≤ r.status ∧ r.status < 600)

instance (r : HttpResponse) : Decidable r.IsBusy := inferInstanceAs (Decidable (_ ∨ _))

private theorem HttpResponse.isSuccess_iff {r : HttpResponse} :
    r.isSuccess = true ↔ 200 ≤ r.status ∧ r.status < 300 := by
  simp [isSuccess]

private theorem HttpResponse.isServerError_iff {r : HttpResponse} :
    r.isServerError = true ↔ 500 ≤ r.status ∧ r.status < 600 := by
  simp [isServerError]

namespace OpenAi

/-- The endpoint asks to be left alone for so many seconds. -/
def AsksFor (r : HttpResponse) (seconds : Nat) : Prop :=
  r.status = 429 ∧ ∃ value, r.header? "retry-after" = some value ∧
    Text.natOfBits? 64 value.toList = some seconds

/-- The body is a document with these vectors. -/
def HasVectors (r : HttpResponse) (vectors : List Embedding) : Prop :=
  ∃ body document, r.body = some body ∧ Json.ofText? body = some document ∧
    asVectors? document = some vectors

/-- What a response says, by its status and its body. -/
inductive Says (r : HttpResponse) : Except ProviderError Embedding → Prop where
  | tooManyRequests (status : r.status = 429) : Says r (.error (.rateLimited (retryAfter? r)))
  | serverError (status : 500 ≤ r.status ∧ r.status < 600) : Says r (.error (.unavailable r.status))
  /-- The body did not come through. -/
  | broken (status : ¬ r.IsBusy) (body : r.body = none) :
    Says r (.error (.http false "incomplete body"))
  | rejected (status : ¬ r.IsBusy) (denied : ¬ (200 ≤ r.status ∧ r.status < 300))
    (body : r.body ≠ none) :
    Says r (.error (.rejected "openai" ("status " ++ HttpStatus.text r.status)))
  /-- The body is no document with vectors. -/
  | unreadable (status : 200 ≤ r.status ∧ r.status < 300) (body : r.body ≠ none)
    (other : ∀ vectors, ¬ HasVectors r vectors) : Says r (.error (.json "unexpected document"))
  | empty (status : 200 ≤ r.status ∧ r.status < 300) (body : HasVectors r []) :
    Says r (.error (.emptyResponse "openai"))
  | vector (status : 200 ≤ r.status ∧ r.status < 300) {v : Embedding} {others : List Embedding}
    (body : HasVectors r (v :: others)) : Says r (.ok v)

variable {r : HttpResponse}

private theorem hasVectors_iff {body : String} (hbody : r.body = some body)
    (vectors : List Embedding) :
    HasVectors r vectors ↔ (Json.ofText? body).bind asVectors? = some vectors := by
  rw [Option.bind_eq_some_iff]
  constructor
  · rintro ⟨body', document, hbody', hdocument, hvectors⟩
    rw [hbody] at hbody'
    exact ⟨document, Option.some.inj hbody' ▸ hdocument, hvectors⟩
  · rintro ⟨document, hdocument, hvectors⟩
    exact ⟨body, document, hbody, hdocument, hvectors⟩

private theorem says_answer (r : HttpResponse) : Says r (answer r) := by
  unfold answer
  -- the cases come in the order of the checks: two kinds of status, then the body, then the rest
  split
  · next htooMany => exact .tooManyRequests htooMany
  next htooMany =>
  split
  · next hserver => exact .serverError (HttpResponse.isServerError_iff.1 hserver)
  next hserver =>
  have hbusy : ¬ r.IsBusy := by
    rintro (h | h)
    · exact htooMany h
    · exact hserver (HttpResponse.isServerError_iff.2 h)
  split
  · next hbody => exact .broken hbusy hbody
  next body hbody =>
  have hsome : r.body ≠ none := by simp [hbody]
  split
  · next hsuccess =>
    have hstatus := HttpResponse.isSuccess_iff.1 hsuccess
    unfold vectorOf
    split
    · next hnone =>
      refine .unreadable hstatus hsome fun vectors h => ?_
      rw [hasVectors_iff hbody, hnone] at h
      cases h
    · next hempty => exact .empty hstatus ((hasVectors_iff hbody _).2 hempty)
    · next hvectors => exact .vector hstatus ((hasVectors_iff hbody _).2 hvectors)
  · next hdenied => exact .rejected hbusy (hdenied ∘ HttpResponse.isSuccess_iff.2) hsome

private theorem not_isBusy_of_success (h : 200 ≤ r.status ∧ r.status < 300) : ¬ r.IsBusy := by
  unfold HttpResponse.IsBusy
  omega

/-- A body says one list of vectors at most. -/
theorem HasVectors.unique {vectors vectors' : List Embedding} (h : HasVectors r vectors)
    (h' : HasVectors r vectors') : vectors = vectors' := by
  obtain ⟨body, _, hbody, _⟩ := id h
  rw [hasVectors_iff hbody] at h h'
  exact Option.some.inj (h.symm.trans h')

/-- A response is final unless the endpoint is busy. -/
theorem isFinal_answer_iff : RetryPolicy.IsFinal (answer r) ↔ ¬ r.IsBusy := by
  generalize hanswer : answer r = result
  cases hanswer ▸ says_answer r with
  | tooManyRequests status =>
    exact iff_of_false (fun h => by cases h _ rfl) fun h => h (.inl status)
  | serverError status => exact iff_of_false (fun h => by cases h _ rfl) fun h => h (.inr status)
  | broken status => exact iff_of_true (fun e he => by cases he; rfl) status
  | rejected status => exact iff_of_true (fun e he => by cases he; rfl) status
  | unreadable status =>
    exact iff_of_true (fun e he => by cases he; rfl) (not_isBusy_of_success status)
  | empty status => exact iff_of_true (fun e he => by cases he; rfl) (not_isBusy_of_success status)
  | vector status => exact iff_of_true nofun (not_isBusy_of_success status)

/-- A response has a vector where it grants the request with at least one. -/
theorem answer_eq_ok_iff {v : Embedding} : answer r = .ok v ↔
    (200 ≤ r.status ∧ r.status < 300) ∧ ∃ others, HasVectors r (v :: others) := by
  generalize hanswer : answer r = result
  constructor
  · rintro rfl
    cases hanswer ▸ says_answer r with
    | vector status body => exact ⟨status, _, body⟩
  · rintro ⟨hstatus, others, hbody⟩
    -- a success with vectors is none of the other cases
    have hbusy := not_isBusy_of_success hstatus
    cases hanswer ▸ says_answer r with
    | tooManyRequests status => exact absurd (.inl status) hbusy
    | serverError status => exact absurd (.inr status) hbusy
    | broken _ hnone =>
      obtain ⟨body, _, hsome, _⟩ := hbody
      rw [hnone] at hsome
      cases hsome
    | rejected _ denied => exact absurd hstatus denied
    | unreadable _ _ hother => exact absurd hbody (hother _)
    | empty _ hempty => cases hempty.unique hbody
    | vector _ hvectors => cases hvectors.unique hbody; rfl

/-! ## §2 Waits -/

private theorem retryAfter?_eq_some_iff {hint : Duration} : retryAfter? r = some hint ↔
    ∃ value seconds, r.header? "retry-after" = some value ∧
      Text.natOfBits? 64 value.toList = some seconds ∧ Duration.ofSeconds seconds = hint := by
  simp [retryAfter?, Option.map_eq_some_iff, Option.bind_eq_some_iff]

/-- After a response that asks for a time that time is waited, and otherwise the time that doubles;
neither is longer than the longest wait. -/
theorem waitAfter_answer (p : RetryPolicy) (failed : Nat) {e : ProviderError}
    (h : answer r = .error e) :
    (∀ seconds, AsksFor r seconds →
        p.waitAfter failed e = (Duration.ofSeconds seconds).min p.maxDelay) ∧
      ((∀ seconds, ¬ AsksFor r seconds) →
        p.waitAfter failed e = (backoffDelay p.baseBackoff failed).min p.maxDelay) := by
  -- a time is only asked for with this status
  by_cases hstatus : r.status = 429
  · have hanswer : answer r = .error (.rateLimited (retryAfter? r)) := if_pos hstatus
    obtain rfl := Except.error.inj (h.symm.trans hanswer)
    refine ⟨fun seconds hasks => ?_, fun hnone => ?_⟩
    · obtain ⟨_, value, hvalue, hseconds⟩ := hasks
      rw [retryAfter?_eq_some_iff.2 ⟨value, seconds, hvalue, hseconds, rfl⟩]
      rfl
    · cases hhint : retryAfter? r with
      | none => rfl
      | some hint =>
        obtain ⟨value, seconds, hvalue, hseconds, _⟩ := retryAfter?_eq_some_iff.1 hhint
        exact absurd ⟨hstatus, value, hvalue, hseconds⟩ (hnone seconds)
  · refine ⟨fun seconds hasks => absurd hasks.1 hstatus, fun _ => ?_⟩
    have hsays := says_answer r
    rw [h] at hsays
    cases hsays with
    | tooManyRequests status => exact absurd status hstatus
    | serverError => rfl
    | broken => rfl
    | rejected => rfl
    | unreadable => rfl
    | empty => rfl

/-! ## §3 Sequences of responses -/

section Sequences

variable {p : RetryPolicy} {exchanges : Nat → HttpExchange}

/-- The `n`-th response, counting from one. -/
def nthResponse (exchanges : Nat → HttpExchange) (n : Nat) : HttpResponse :=
  (exchanges (n - 1)).response

/-- The `n`-th response is the first one of an endpoint that is not busy. -/
def IsFirst (exchanges : Nat → HttpExchange) (n : Nat) : Prop :=
  IsLeast {n | 0 < n ∧ ¬ (nthResponse exchanges n).IsBusy} n

/-- An exchange in time comes to what its response says. -/
theorem nthOutcome_attempt (htime : ∀ n, (exchanges n).duration.nanos ≤ p.requestTimeout.nanos)
    (n : Nat) : p.nthOutcome (fun n => attempt (exchanges n)) n =
      answer (nthResponse exchanges n) :=
  if_neg (Nat.not_lt.2 (htime (n - 1)))

/-- The last request is the one with the first response that is not busy, or the last one of the
budget when there were only busy ones, and the result is what its response says. -/
theorem embed_cases (htime : ∀ n, (exchanges n).duration.nanos ≤ p.requestTimeout.nanos) :
    let run := embed p exchanges
    let sent := run.starts.length
    sent ≤ p.budget ∧ run.result = answer (nthResponse exchanges sent) ∧
      (IsFirst exchanges sent ∨
        sent = p.budget ∧ ∀ n, 0 < n → n ≤ p.budget → (nthResponse exchanges n).IsBusy) := by
  intro run sent
  have hleast := isLeast_length_starts p (fun n => attempt (exchanges n)) ⟨0⟩ p.budget_pos
  have hresult := result_eq_nthOutcome p (fun n => attempt (exchanges n)) 0 ⟨0⟩
  simp only [Nat.zero_add, nthOutcome_attempt htime, isFinal_answer_iff] at hleast hresult
  change IsLeast _ sent at hleast
  obtain ⟨⟨hpos, hlast⟩, hleast⟩ := hleast
  have hle : sent ≤ p.budget := hleast ⟨p.budget_pos, .inr rfl⟩
  refine ⟨hle, hresult, ?_⟩
  -- the last response tells whether the budget was what ended the request
  by_cases hbusy : (nthResponse exchanges sent).IsBusy
  · have hsent : sent = p.budget := hlast.resolve_left fun hfree => hfree hbusy
    refine .inr ⟨hsent, fun n hn hn' => Decidable.byContradiction fun hfree => hfree ?_⟩
    -- a response that is not busy comes no earlier than the last one of the budget
    have heq : n = sent := Nat.le_antisymm (hsent ▸ hn') (hleast ⟨hn, .inl hfree⟩)
    exact heq ▸ hbusy
  · exact .inl ⟨⟨hpos, hbusy⟩, fun n hn => hleast ⟨hn.1, .inl hn.2⟩⟩

/-- Requests for a vector, for every sequence of responses that come in time.  As many are sent as
it takes to have the first response that is not busy, as far as the budget goes.  The request ends
with what that response says, which is a vector where it is granted and has one, and otherwise an
error for good; where all responses are busy it ends with the last one's error.  Between two
requests there is the time that the endpoint asked for or the time that doubles, but no more than
the longest wait.  Each response is the one that the client has once it has followed redirects, and
that it can be redirected too often is not covered. -/
theorem embed_exact (p : RetryPolicy) (exchanges : Nat → HttpExchange)
    (htime : ∀ n, (exchanges n).duration.nanos ≤ p.requestTimeout.nanos) :
    let run := embed p exchanges
    let budget := max 1 p.maxAttempts
    let AllBusy := ∀ n, 0 < n → n ≤ budget → (nthResponse exchanges n).IsBusy
    (∀ n, n ≤ budget → IsFirst exchanges n → run.starts.length = n) ∧
      (AllBusy → run.starts.length = budget) ∧
      (∀ v, run.result = .ok v ↔ ∃ n, n ≤ budget ∧ IsFirst exchanges n ∧
        (200 ≤ (nthResponse exchanges n).status ∧ (nthResponse exchanges n).status < 300) ∧
          ∃ others, HasVectors (nthResponse exchanges n) (v :: others)) ∧
      (∀ n, n ≤ budget → IsFirst exchanges n → Says (nthResponse exchanges n) run.result ∧
        ∀ e, run.result = .error e → e.isTransient = false) ∧
      (AllBusy → Says (nthResponse exchanges budget) run.result ∧
        ∃ e, run.result = .error e ∧ e.isTransient = true) ∧
      ∀ n, 0 < n → n < run.starts.length → ∃ wait,
        WaitsAfter p (fun n => attempt (exchanges n)) n wait ∧
        (∀ seconds, AsksFor (nthResponse exchanges n) seconds →
          wait = (Duration.ofSeconds seconds).min p.maxDelay) ∧
        ((∀ seconds, ¬ AsksFor (nthResponse exchanges n) seconds) →
          wait = (backoffDelay p.baseBackoff (n - 1)).min p.maxDelay) := by
  intro run budget AllBusy
  obtain ⟨hle, hresult, hends⟩ := embed_cases htime
  change run.starts.length ≤ budget at hle
  change run.result = answer (nthResponse exchanges run.starts.length) at hresult
  change IsFirst exchanges run.starts.length ∨ run.starts.length = budget ∧ AllBusy at hends
  -- a first response within the budget and a budget of busy ones exclude each other
  have hsent : ∀ n, n ≤ budget → IsFirst exchanges n → run.starts.length = n := by
    intro n hn hfirst
    rcases hends with hlast | ⟨-, hbusy⟩
    · exact hlast.unique hfirst
    · exact absurd (hbusy n hfirst.1.1 hn) hfirst.1.2
  have hspent : AllBusy → run.starts.length = budget := by
    intro hbusy
    rcases hends with hlast | ⟨heq, -⟩
    · exact absurd (hbusy _ hlast.1.1 hle) hlast.1.2
    · exact heq
  refine ⟨hsent, hspent, fun v => ?_, fun n hn hfirst => ?_, fun hbusy => ?_, fun n hn hlt => ?_⟩
  · constructor
    · intro hok
      obtain ⟨hstatus, hvector⟩ := answer_eq_ok_iff.1 (hresult ▸ hok)
      have hfirst : IsFirst exchanges run.starts.length := by
        rcases hends with hlast | ⟨heq, hbusy⟩
        · exact hlast
        · rw [heq] at hstatus
          exact absurd (hbusy budget p.budget_pos (Nat.le_refl _)) (not_isBusy_of_success hstatus)
      exact ⟨_, hle, hfirst, hstatus, hvector⟩
    · rintro ⟨n, hn, hfirst, hstatus, hvector⟩
      rw [hresult, hsent n hn hfirst]
      exact answer_eq_ok_iff.2 ⟨hstatus, hvector⟩
  · rw [hresult, hsent n hn hfirst]
    exact ⟨says_answer _, isFinal_answer_iff.2 hfirst.1.2⟩
  · rw [hresult, hspent hbusy]
    refine ⟨says_answer _, ?_⟩
    by_contra hnone
    refine isFinal_answer_iff.1 (fun e he => ?_) (hbusy budget p.budget_pos (Nat.le_refl _))
    exact eq_false_of_ne_true fun htransient => hnone ⟨e, he, htransient⟩
  · obtain ⟨e, houtcome, hwait⟩ := waitsAfter_of_lt p (fun n => attempt (exchanges n)) hn hlt
    rw [nthOutcome_attempt htime] at houtcome
    obtain ⟨hasked, hbackoff⟩ := waitAfter_answer p (n - 1) houtcome
    exact ⟨_, hwait, hasked, hbackoff⟩

end Sequences

end OpenAi

/-! ## §4 A sample -/

namespace Sample

/-- Five requests, and no more than five seconds between them. -/
def fiveRequests : RetryPolicy := ⟨5, .ofMillis 500, .ofSeconds 30, .ofSeconds 5⟩

/-- An endpoint that asks for seven seconds, is down, and answers from then on. -/
def recovering (failed : Nat) : HttpExchange :=
  match failed with
  | 0 => ⟨.ofMillis 20, ⟨429, [("Retry-After", "7")], some ""⟩⟩
  | 1 => ⟨.ofMillis 20, ⟨503, [("Retry-After", "7")], some ""⟩⟩
  | _ => ⟨.ofMillis 20, ⟨200, [], some "\x7b\"data\": [\x7b\"embedding\": [1]\x7d]\x7d"⟩⟩

end Sample

open OpenAi Sample in
/-- The sample waits five seconds instead of seven, then one second, and has its vector. -/
theorem OpenAi.embed_exact_sample :
    (embed fiveRequests recovering).starts.length = 3 ∧
      (embed fiveRequests recovering).result = .ok [⟨0x3F800000⟩] ∧
      WaitsAfter fiveRequests (fun n => attempt (recovering n)) 1 (.ofSeconds 5) ∧
      WaitsAfter fiveRequests (fun n => attempt (recovering n)) 2 (.ofSeconds 1) := by
  -- the third response is the first that is not busy
  have hthird : IsFirst recovering 3 := by
    refine ⟨⟨by decide, by decide⟩, fun m ⟨hpos, hfree⟩ => Nat.le_of_not_lt fun hlt => hfree ?_⟩
    obtain rfl | rfl : m = 1 ∨ m = 2 := by omega
    · decide
    · decide
  have hvector : HasVectors (nthResponse recovering 3) [[⟨0x3F800000⟩]] :=
    (hasVectors_iff rfl _).2 (by decide +kernel)
  have htime : ∀ n, (recovering n).duration = .ofMillis 20 := fun n => by
    rcases n with _ | _ | n <;> rfl
  obtain ⟨hsent, -, hresult, -, -, hwaits⟩ := embed_exact fiveRequests recovering fun n => by
    rw [htime n]
    decide
  have hlength := hsent 3 (by decide) hthird
  rw [hlength] at hwaits
  obtain ⟨first, hfirst, hasked, -⟩ := hwaits 1 (by decide) (by decide)
  obtain ⟨second, hsecond, -, hbackoff⟩ := hwaits 2 (by decide) (by decide)
  obtain rfl : first = .ofSeconds 5 := hasked 7 ⟨rfl, "7", by decide, by decide⟩
  obtain rfl : second = .ofSeconds 1 := hbackoff fun _ hasks => absurd hasks.1 (by decide)
  exact ⟨hlength, (hresult _).2 ⟨3, by decide, hthird, by decide, [], hvector⟩, hfirst, hsecond⟩

end CodeIndex
