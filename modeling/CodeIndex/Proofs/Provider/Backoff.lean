import CodeIndex.Embedding.Settings
import CodeIndex.Proofs.Provider.Retry
import Mathlib.Algebra.Group.Nat.Defs

/-!
# Waits between attempts

The wait after the `n`-th failure is the first wait doubled `n - 1` times, or what the provider asks
for, and in no case more than a minute.  The factor stops doubling at 32 bits and the product at the
longest span; both limits lie so far beyond a minute that they never show.  In machine words, where
seconds and nanoseconds are multiplied apart, the waits come out the same and no step overflows:
`EmbedderSettings.waits_exact`.
-/

namespace CodeIndex

/-- How long the provider asks to be left alone, if it does. -/
def ProviderError.hint? : ProviderError → Option Duration
  | rateLimited hint => hint
  | _ => none

/-! ## §1 The wait after a failure -/

namespace EmbedderSettings

variable (s : EmbedderSettings)

/-- The longest wait, in nanoseconds. -/
def minute : Nat := 60 * Duration.perSecond

/-- The wait after the `n`-th failure in nanoseconds, counted without any limit but the longest
wait. -/
def waitNanos (n : Nat) (e : ProviderError) : Nat :=
  match e.hint? with
  | some hint => min hint.nanos minute
  | none => min (s.baseBackoffMillis * 2 ^ (n - 1) * Duration.perMilli) minute

private theorem minute_lt_longest : minute < Duration.longest.nanos := by decide

/-- A wait that is not zero is beyond the longest one when the factor has reached its limit. -/
theorem minute_le_saturated {base failed : Nat} (hbase : 0 < base) (hfailed : 32 ≤ failed) :
    minute ≤ base * Duration.perMilli * maxBackoffFactor ∧
      minute ≤ base * 2 ^ failed * Duration.perMilli := by
  -- the factor alone is more than a minute of milliseconds
  have hfactor : minute ≤ Duration.perMilli * maxBackoffFactor := by decide
  have hpower : maxBackoffFactor ≤ 2 ^ failed := calc
    maxBackoffFactor ≤ 2 ^ 32 := by decide
    _ ≤ 2 ^ failed := Nat.pow_le_pow_right (by decide) hfailed
  constructor
  · calc
      minute ≤ 1 * (Duration.perMilli * maxBackoffFactor) := by rwa [Nat.one_mul]
      _ ≤ base * (Duration.perMilli * maxBackoffFactor) := Nat.mul_le_mul_right _ hbase
      _ = base * Duration.perMilli * maxBackoffFactor := (Nat.mul_assoc ..).symm
  · calc
      minute ≤ 1 * (maxBackoffFactor * Duration.perMilli) := by
        rwa [Nat.one_mul, Nat.mul_comm]
      _ ≤ base * (2 ^ failed * Duration.perMilli) :=
        Nat.mul_le_mul hbase (Nat.mul_le_mul_right _ hpower)
      _ = base * 2 ^ failed * Duration.perMilli := (Nat.mul_assoc ..).symm

/-- The limits of the factor and of spans never show in a wait. -/
theorem backoffDelay_min (base failed : Nat) :
    ((backoffDelay (.ofMillis base) failed).min (.ofMillis maxDelayMillis)).nanos =
      min (base * 2 ^ failed * Duration.perMilli) minute := by
  have hlongest := minute_lt_longest
  show min (min (base * Duration.perMilli * backoffFactor failed) Duration.longest.nanos)
    minute = _
  -- the longest span is longer than a minute, so that limit is the second of the two
  rw [Nat.min_assoc, Nat.min_eq_right (Nat.le_of_lt hlongest)]
  unfold backoffFactor
  by_cases hfailed : failed < 32
  · rw [if_pos hfailed, Nat.mul_right_comm]
    rfl
  rw [if_neg hfailed]
  -- from here on both sides are zero, or both are a minute
  rcases Nat.eq_zero_or_pos base with rfl | hbase
  · simp
  · obtain ⟨hfactor, hpower⟩ := minute_le_saturated hbase (Nat.le_of_not_lt hfailed)
    rw [Nat.min_eq_right hfactor, Nat.min_eq_right hpower]

private theorem waitAfter_nanos (n : Nat) (e : ProviderError) :
    (s.retryPolicy.waitAfter (n - 1) e).nanos = s.waitNanos n e := by
  unfold RetryPolicy.waitAfter waitNanos
  split
  · rfl
  · next hother =>
    -- any other error has no hint, so the wait is the one that doubles
    have hnone : e.hint? = none := by
      cases e with
      | rateLimited hint =>
        cases hint with
        | none => rfl
        | some hint => exact absurd rfl (hother hint)
      | _ => rfl
    rw [hnone]
    exact backoffDelay_min s.baseBackoffMillis (n - 1)

/-- Without hints a later wait is not shorter. -/
theorem waitNanos_mono {n m : Nat} {e e' : ProviderError} (h : n ≤ m) (he : e.hint? = none)
    (he' : e'.hint? = none) : s.waitNanos n e ≤ s.waitNanos m e' := by
  have hpower : 2 ^ (n - 1) ≤ 2 ^ (m - 1) :=
    Nat.pow_le_pow_right (by decide) (Nat.sub_le_sub_right h 1)
  have hproduct : s.baseBackoffMillis * 2 ^ (n - 1) * Duration.perMilli ≤
      s.baseBackoffMillis * 2 ^ (m - 1) * Duration.perMilli :=
    Nat.mul_le_mul_right _ (Nat.mul_le_mul_left _ hpower)
  unfold waitNanos
  rw [he, he']
  exact Nat.le_min.2 ⟨Nat.le_trans (Nat.min_le_left ..) hproduct, Nat.min_le_right ..⟩

end EmbedderSettings

/-! ## §2 The waits of a request -/

section Waits

variable {α : Type} (p : RetryPolicy) (attempts : Nat → Attempt α)

/-- Between the end of a request's `n`-th attempt and the start of the next one there is this
wait. -/
def WaitsAfter (n : Nat) (wait : Duration) : Prop :=
  ∃ start next, (retry p attempts).starts[n - 1]? = some start ∧
    (retry p attempts).starts[n]? = some next ∧
    next.nanos = start.nanos + ((attempts (n - 1)).within p.requestTimeout).duration.nanos +
      wait.nanos

private theorem WaitsAfter.nanos_eq {p : RetryPolicy} {attempts : Nat → Attempt α} {n : Nat}
    {wait wait' : Duration} (h : WaitsAfter p attempts n wait)
    (h' : WaitsAfter p attempts n wait') : wait.nanos = wait'.nanos := by
  obtain ⟨start, next, hstart, hnext, heq⟩ := h
  obtain ⟨start', next', hstart', hnext', heq'⟩ := h'
  rw [hstart] at hstart'
  rw [hnext] at hnext'
  obtain rfl := Option.some.inj hstart'
  obtain rfl := Option.some.inj hnext'
  omega

private theorem starts_zero (failed : Nat) (now : Duration) :
    (retryFrom p attempts failed now).starts[0]? = some now := by
  rw [retryFrom]
  split
  · rfl
  · rfl

/-- An attempt starts when the one before it has failed and the wait for it is over. -/
theorem starts_succ (failed : Nat) (now : Duration) :
    ∀ i, i + 1 < (retryFrom p attempts failed now).starts.length → ∃ e start next,
      p.outcomeOf (attempts (failed + i)) = .error e ∧
      (retryFrom p attempts failed now).starts[i]? = some start ∧
      (retryFrom p attempts failed now).starts[i + 1]? = some next ∧
      next.nanos = start.nanos +
        ((attempts (failed + i)).within p.requestTimeout).duration.nanos +
        (p.waitAfter (failed + i) e).nanos := by
  fun_induction retryFrom p attempts failed now with
  | case1 failed now attempt finished result hverdict =>
    intro i h
    rw [List.length_singleton] at h
    omega
  | case2 failed now attempt finished wait hverdict rest ih =>
    intro i h
    obtain ⟨e, hresult, rfl, _⟩ := RetryPolicy.eq_of_verdict_again hverdict
    rw [Attempt.result_within] at hresult
    -- the first wait is this one, and the later ones are those of the rest
    cases i with
    | zero => exact ⟨e, now, _, hresult, rfl, starts_zero p attempts _ _, rfl⟩
    | succ i =>
      obtain ⟨e', start, next, houtcome, hstart, hnext, heq⟩ := ih i (Nat.lt_of_succ_lt_succ h)
      rw [Nat.succ_add] at houtcome heq
      exact ⟨e', start, next, houtcome, hstart, hnext, heq⟩

/-- Between two attempts of a request there is the wait after the first one's failure. -/
theorem waitsAfter_of_lt {n : Nat} (hn : 0 < n) (h : n < (retry p attempts).starts.length) :
    ∃ e, p.nthOutcome attempts n = .error e ∧
      WaitsAfter p attempts n (p.waitAfter (n - 1) e) := by
  obtain ⟨i, rfl⟩ := Nat.exists_eq_succ_of_ne_zero (Nat.pos_iff_ne_zero.1 hn)
  obtain ⟨e, start, next, houtcome, hstart, hnext, heq⟩ := starts_succ p attempts 0 ⟨0⟩ i h
  rw [Nat.zero_add] at houtcome heq
  exact ⟨e, houtcome, start, next, hstart, hnext, heq⟩

private theorem length_starts_le_budget : (retry p attempts).starts.length ≤ p.budget := by
  have hleast := isLeast_length_starts p attempts ⟨0⟩ p.budget_pos
  rw [Nat.zero_add] at hleast
  exact hleast.2 ⟨p.budget_pos, .inr rfl⟩

end Waits

/-! ## §3 Spans in machine words -/

/-- The word of 64 bits that holds a number, if it fits; what arithmetic comes to that must not
overflow. -/
def word64? (n : Nat) : Option UInt64 :=
  if h : n < UInt64.size then some (UInt64.ofNatLT n h) else none

/-- The word of 32 bits that holds a number, if it fits. -/
def word32? (n : Nat) : Option UInt32 :=
  if h : n < UInt32.size then some (UInt32.ofNatLT n h) else none

private theorem toNat_of_word64? {n : Nat} {w : UInt64} (h : word64? n = some w) : w.toNat = n := by
  unfold word64? at h
  split at h
  · cases h
    rfl
  · cases h

private theorem exists_word64? {n : Nat} (h : n < UInt64.size) : ∃ w, word64? n = some w :=
  ⟨_, dif_pos h⟩

private theorem le_of_word64?_eq_none {n : Nat} (h : word64? n = none) : UInt64.size ≤ n :=
  Nat.le_of_not_lt fun hlt => by
    obtain ⟨w, hw⟩ := exists_word64? hlt
    rw [hw] at h
    cases h

private theorem toNat_of_word32? {n : Nat} {w : UInt32} (h : word32? n = some w) : w.toNat = n := by
  unfold word32? at h
  split at h
  · cases h
    rfl
  · cases h

private theorem exists_word32? {n : Nat} (h : n < UInt32.size) : ∃ w, word32? n = some w :=
  ⟨_, dif_pos h⟩

/-- A span in machine words: whole seconds, and the nanoseconds beyond them. -/
structure WordSpan where
  seconds : UInt64
  subsec : UInt32
  subsec_lt : subsec.toNat < Duration.perSecond

namespace WordSpan

/-- The span of time. -/
def duration (w : WordSpan) : Duration :=
  ⟨w.seconds.toNat * Duration.perSecond + w.subsec.toNat⟩

/-- The longest span. -/
def longest : WordSpan := ⟨0xFFFFFFFFFFFFFFFF, 999999999, by decide⟩

/-- The longest wait. -/
def maxDelay : WordSpan := ⟨60, 0, by decide⟩

/-- The span of these seconds and nanoseconds; `none` if the nanoseconds make up a second. -/
def ofParts? (seconds : UInt64) (subsec : UInt32) : Option WordSpan :=
  if h : subsec.toNat < Duration.perSecond then some ⟨seconds, subsec, h⟩ else none

/-- A number of milliseconds; `none` if a step overflows. -/
def ofMillis? (ms : UInt64) : Option WordSpan :=
  (word32? ((ms % 1000).toNat * Duration.perMilli)).bind fun subsec => ofParts? (ms / 1000) subsec

/-- What is left of nanoseconds beyond whole seconds. -/
def beyondSeconds (total : UInt64) : UInt32 := (total % 1000000000).toUInt32

private theorem toNat_beyondSeconds (total : UInt64) :
    (beyondSeconds total).toNat = total.toNat % Duration.perSecond := by
  have hlt : total.toNat % 1000000000 < 2 ^ 32 :=
    Nat.lt_trans (Nat.mod_lt _ (by decide)) (by decide)
  rw [beyondSeconds, UInt64.toNat_toUInt32, UInt64.toNat_mod]
  exact Nat.mod_eq_of_lt hlt

/-- The span taken `k` times, given what its nanoseconds come to; `none` if the seconds do not
fit. -/
def mulSeconds? (w : WordSpan) (k : UInt32) (total : UInt64) : Option WordSpan :=
  (word64? (w.seconds.toNat * k.toNat)).bind fun whole =>
    (word64? (whole.toNat + (total / 1000000000).toNat)).map fun seconds =>
      ⟨seconds, beyondSeconds total, by
        rw [toNat_beyondSeconds]
        exact Nat.mod_lt _ (by decide)⟩

/-- The span taken `k` times, or the longest span when the seconds do not fit; `none` if the
nanoseconds overflow. -/
def saturatingMul? (w : WordSpan) (k : UInt32) : Option WordSpan :=
  (word64? (w.subsec.toNat * k.toNat)).map fun total => (w.mulSeconds? k total).getD longest

/-- The shorter of two spans; seconds decide first. -/
def min (a b : WordSpan) : WordSpan :=
  if a.seconds < b.seconds ∨ a.seconds = b.seconds ∧ a.subsec ≤ b.subsec then a else b

private theorem duration_longest : longest.duration = Duration.longest := by decide

private theorem duration_maxDelay :
    maxDelay.duration = .ofMillis EmbedderSettings.maxDelayMillis := by
  decide

/-- Milliseconds of 64 bits never overflow. -/
theorem ofMillis?_eq (ms : UInt64) :
    ∃ w, ofMillis? ms = some w ∧ w.duration = .ofMillis ms.toNat := by
  have hmod : (ms % 1000).toNat = ms.toNat % 1000 := UInt64.toNat_mod ..
  have hdiv : (ms / 1000).toNat = ms.toNat / 1000 := UInt64.toNat_div ..
  -- what is left of a second is less than one, so it fits
  have hmillis : (ms % 1000).toNat * Duration.perMilli ≤ 999 * Duration.perMilli :=
    Nat.mul_le_mul_right _ (by omega)
  obtain ⟨subsec, hsubsec⟩ := exists_word32? (Nat.lt_of_le_of_lt hmillis (by decide))
  have hvalue := toNat_of_word32? hsubsec
  have hsecond : subsec.toNat < Duration.perSecond := by
    rw [hvalue]
    exact Nat.lt_of_le_of_lt hmillis (by decide)
  refine ⟨⟨ms / 1000, subsec, hsecond⟩, ?_, ?_⟩
  · rw [ofMillis?, hsubsec, Option.bind_some, ofParts?, dif_pos hsecond]
  · rw [duration, Duration.ofMillis, Duration.mk.injEq, hvalue, hmod, hdiv, Duration.perSecond,
      Duration.perMilli]
    omega

private theorem longest_nanos :
    Duration.longest.nanos + 1 = UInt64.size * Duration.perSecond := by decide

/-- The product is exact, or it is longer than any span. -/
theorem mulSeconds?_cases (w : WordSpan) (k : UInt32) {total : UInt64}
    (htotal : total.toNat = w.subsec.toNat * k.toNat) :
    (∃ d, w.mulSeconds? k total = some d ∧ d.duration.nanos = w.duration.nanos * k.toNat) ∨
      w.mulSeconds? k total = none ∧ Duration.longest.nanos < w.duration.nanos * k.toNat := by
  have hlongest := longest_nanos
  have hdiv : (total / 1000000000).toNat = total.toNat / Duration.perSecond := UInt64.toNat_div ..
  have hparts : total.toNat / Duration.perSecond * Duration.perSecond +
      total.toNat % Duration.perSecond = total.toNat := Nat.div_add_mod' ..
  have hproduct : w.duration.nanos * k.toNat =
      w.seconds.toNat * k.toNat * Duration.perSecond + total.toNat := by
    rw [duration, htotal, Nat.add_mul, Nat.mul_right_comm]
  rw [hproduct]
  unfold mulSeconds?
  rw [hdiv]
  cases hwhole : word64? (w.seconds.toNat * k.toNat) with
  | none =>
    -- the seconds alone come to more than any span
    have hlarge : UInt64.size * Duration.perSecond ≤
        w.seconds.toNat * k.toNat * Duration.perSecond :=
      Nat.mul_le_mul_right _ (le_of_word64?_eq_none hwhole)
    exact .inr ⟨rfl, by omega⟩
  | some whole =>
    rw [Option.bind_some, toNat_of_word64? hwhole]
    cases hseconds : word64? (w.seconds.toNat * k.toNat + total.toNat / Duration.perSecond) with
    | none =>
      -- or they do with those that the nanoseconds make up
      have hlarge : UInt64.size * Duration.perSecond ≤
          (w.seconds.toNat * k.toNat + total.toNat / Duration.perSecond) * Duration.perSecond :=
        Nat.mul_le_mul_right _ (le_of_word64?_eq_none hseconds)
      rw [Nat.add_mul] at hlarge
      exact .inr ⟨rfl, by omega⟩
    | some seconds =>
      refine .inl ⟨_, rfl, ?_⟩
      rw [duration, toNat_of_word64? hseconds, toNat_beyondSeconds, Nat.add_mul, Nat.add_assoc,
        hparts]

private theorem nanos_le_longest (w : WordSpan) : w.duration.nanos ≤ Duration.longest.nanos := by
  have hlongest := longest_nanos
  have hsubsec := w.subsec_lt
  have hseconds : (w.seconds.toNat + 1) * Duration.perSecond ≤
      UInt64.size * Duration.perSecond := Nat.mul_le_mul_right _ w.seconds.toNat_lt_size
  rw [Nat.add_mul, Nat.one_mul] at hseconds
  show w.seconds.toNat * Duration.perSecond + w.subsec.toNat ≤ _
  omega

/-- Multiplying seconds and nanoseconds apart comes to the same as multiplying the span. -/
theorem saturatingMul?_eq (w : WordSpan) (k : UInt32) :
    ∃ d, w.saturatingMul? k = some d ∧ d.duration = w.duration.saturatingMul k.toNat := by
  -- less than a second, taken less than `2 ^ 32` times
  have hfits : w.subsec.toNat * k.toNat < UInt64.size := calc
    w.subsec.toNat * k.toNat ≤ Duration.perSecond * UInt32.size :=
      Nat.mul_le_mul (Nat.le_of_lt w.subsec_lt) (Nat.le_of_lt k.toNat_lt_size)
    _ < UInt64.size := by decide
  obtain ⟨total, htotal⟩ := exists_word64? hfits
  refine ⟨_, by rw [saturatingMul?, htotal, Option.map_some], ?_⟩
  rw [Duration.saturatingMul]
  rcases w.mulSeconds?_cases k (toNat_of_word64? htotal) with ⟨d, hd, hexact⟩ | ⟨hnone, hlong⟩
  · rw [hd, Option.getD_some, ← hexact]
    exact congrArg Duration.mk (Nat.min_eq_left d.nanos_le_longest).symm
  · rw [hnone, Option.getD_none, duration_longest]
    exact congrArg Duration.mk (Nat.min_eq_right (Nat.le_of_lt hlong)).symm

private theorem duration_min (a b : WordSpan) : (a.min b).duration = a.duration.min b.duration := by
  have ha := a.subsec_lt
  have hb := b.subsec_lt
  unfold WordSpan.min
  -- the comparison goes by seconds first, as that of the numbers does
  split
  · next hle =>
    have hnanos : a.duration.nanos ≤ b.duration.nanos := by
      simp only [duration, Duration.perSecond] at *
      rcases hle with hlt | ⟨heq, hle⟩
      · rw [UInt64.lt_iff_toNat_lt] at hlt
        omega
      · rw [heq]
        rw [UInt32.le_iff_toNat_le] at hle
        omega
    rw [Duration.min]
    exact congrArg Duration.mk (Nat.min_eq_left hnanos).symm
  · next hgt =>
    obtain ⟨hseconds, hsubsec⟩ := not_or.1 hgt
    have hnanos : b.duration.nanos ≤ a.duration.nanos := by
      simp only [duration, Duration.perSecond] at *
      rw [UInt64.lt_iff_toNat_lt] at hseconds
      by_cases heq : a.seconds = b.seconds
      · have hlt : ¬ a.subsec ≤ b.subsec := fun hle => hsubsec ⟨heq, hle⟩
        rw [UInt32.le_iff_toNat_le] at hlt
        rw [heq]
        omega
      · have hne : a.seconds.toNat ≠ b.seconds.toNat := fun h => heq (UInt64.toNat_inj.1 h)
        omega
    rw [Duration.min]
    exact congrArg Duration.mk (Nat.min_eq_right hnanos).symm

end WordSpan

/-! ## §4 Waits in machine words -/

/-- The factor of a wait: one shifted to the left, or the largest word when that shifts it out. -/
def factorWord (failed : UInt32) : UInt32 := if failed < 32 then 1 <<< failed else 0xFFFFFFFF

private theorem toNat_factorWord (failed : UInt32) :
    (factorWord failed).toNat = backoffFactor failed.toNat := by
  unfold factorWord backoffFactor
  by_cases h : failed < 32
  · have hlt : failed.toNat < 32 := UInt32.lt_iff_toNat_lt.1 h
    have hpower : 2 ^ failed.toNat < 2 ^ 32 := Nat.pow_lt_pow_right (by decide) hlt
    rw [if_pos h, if_pos hlt, UInt32.toNat_shiftLeft, Nat.mod_eq_of_lt hlt, UInt32.toNat_one,
      Nat.one_shiftLeft]
    exact Nat.mod_eq_of_lt hpower
  · have hge : ¬ failed.toNat < 32 := fun hlt => h (UInt32.lt_iff_toNat_lt.2 hlt)
    rw [if_neg h, if_neg hge]
    rfl

/-- The count of failures before the last one; `none` if there was none. -/
def countBefore? (count : UInt32) : Option UInt32 := if 0 < count then some (count - 1) else none

private theorem exists_countBefore? {count : UInt32} (h : 0 < count.toNat) :
    ∃ failed, countBefore? count = some failed ∧ failed.toNat = count.toNat - 1 := by
  have hpos : 0 < count := UInt32.lt_iff_toNat_lt.2 h
  have hone : 1 ≤ count := UInt32.le_iff_toNat_le.2 h
  exact ⟨count - 1, if_pos hpos, UInt32.toNat_sub_of_le _ _ hone⟩

/-- The wait after the failure that brought the count to `count`, computed in machine words; `none`
if a step overflows. -/
def waitInWords? (baseMillis : UInt64) (count : UInt32) (e : ProviderError) : Option Duration :=
  match e.hint? with
  | some hint => some (hint.min WordSpan.maxDelay.duration)
  | none => do
    let base ← WordSpan.ofMillis? baseMillis
    let failed ← countBefore? count
    let delay ← base.saturatingMul? (factorWord failed)
    return (delay.min WordSpan.maxDelay).duration

/-- In machine words the wait is what it should be, and no step overflows. -/
theorem EmbedderSettings.waitInWords?_eq (s : EmbedderSettings) {baseMillis : UInt64}
    {count : UInt32} (hbase : baseMillis.toNat = s.baseBackoffMillis) (hcount : 0 < count.toNat)
    (e : ProviderError) :
    ∃ wait, waitInWords? baseMillis count e = some wait ∧
      wait.nanos = s.waitNanos count.toNat e := by
  unfold waitInWords? waitNanos
  cases e.hint? with
  | some hint => exact ⟨_, rfl, rfl⟩
  | none =>
    -- each step of the arithmetic on words is the one on numbers
    obtain ⟨base, hbase', hduration⟩ := WordSpan.ofMillis?_eq baseMillis
    obtain ⟨failed, hfailed, hbefore⟩ := exists_countBefore? hcount
    obtain ⟨delay, hdelay, hproduct⟩ := base.saturatingMul?_eq (factorWord failed)
    refine ⟨_, by rw [hbase', hfailed, Option.bind_eq_bind, Option.bind_some, Option.bind_eq_bind,
      Option.bind_some, hdelay]; rfl, ?_⟩
    rw [WordSpan.duration_min, WordSpan.duration_maxDelay, hproduct, hduration, toNat_factorWord,
      hbefore, hbase]
    exact backoffDelay_min s.baseBackoffMillis (count.toNat - 1)

/-! ## §5 The schedule as a whole -/

/-- The waits of a request, for every first wait of 64 bits and every budget of 32.  The count of
failures never overflows.  Between the `n`-th failure and the next attempt there is exactly the
first wait doubled `n - 1` times, or what the provider asked for, and no more than a minute, counted
in numbers without limits; computed in machine words it is the same, and no step of that overflows.
And among failures without hints a later one is not followed by a shorter wait. -/
theorem EmbedderSettings.waits_exact {α : Type} (s : EmbedderSettings)
    (hattempts : s.maxAttempts < UInt32.size) (hbase : s.baseBackoffMillis < UInt64.size)
    (attempts : Nat → Attempt α) :
    let p := s.retryPolicy
    let run := retry p attempts
    retryCountedFrom? p attempts 0 ⟨0⟩ = some run ∧
      (∀ n, 0 < n → n < run.starts.length → ∃ e wait, p.nthOutcome attempts n = .error e ∧
        WaitsAfter p attempts n wait ∧
        waitInWords? (.ofNat s.baseBackoffMillis) (.ofNat n) e = some wait ∧
        wait.nanos = match e.hint? with
          | some hint => min hint.nanos (60 * 1000000000)
          | none => min (s.baseBackoffMillis * 2 ^ (n - 1) * 1000000) (60 * 1000000000)) ∧
      ∀ n m, 0 < n → n ≤ m → ∀ e e' wait wait', p.nthOutcome attempts n = .error e →
        p.nthOutcome attempts m = .error e' → e.hint? = none → e'.hint? = none →
        WaitsAfter p attempts n wait → WaitsAfter p attempts m wait' →
        wait.nanos ≤ wait'.nanos := by
  intro p run
  have hpolicy : p.maxAttempts < UInt32.size := hattempts
  have hlength : run.starts.length ≤ p.budget := length_starts_le_budget p attempts
  -- a wait of the run is the scheduled one
  have hwaits : ∀ n, 0 < n → ∀ e wait, p.nthOutcome attempts n = .error e →
      WaitsAfter p attempts n wait → wait.nanos = s.waitNanos n e := by
    intro n hn e wait houtcome hwait
    have hlt : n < run.starts.length := by
      obtain ⟨_, _, _, hnext, _⟩ := hwait
      exact (List.getElem?_eq_some_iff.1 hnext).1
    obtain ⟨e', houtcome', hwait'⟩ := waitsAfter_of_lt p attempts hn hlt
    rw [houtcome] at houtcome'
    obtain rfl := Except.error.inj houtcome'
    rw [hwait.nanos_eq hwait', s.waitAfter_nanos]
  refine ⟨retryCountedFrom?_eq hpolicy p.budget_pos, ?_, ?_⟩
  · intro n hn hlt
    obtain ⟨e, houtcome, hwait⟩ := waitsAfter_of_lt p attempts hn hlt
    -- the budget has 32 bits, so the count of failures fits
    have hcount : (UInt32.ofNat n).toNat = n := by
      apply UInt32.toNat_ofNat_of_lt'
      have hsize : 1 < UInt32.size := by decide
      unfold RetryPolicy.budget at hlength
      omega
    have hmillis : (UInt64.ofNat s.baseBackoffMillis).toNat = s.baseBackoffMillis :=
      UInt64.toNat_ofNat_of_lt' hbase
    obtain ⟨wait, hwords, hnanos⟩ := s.waitInWords?_eq hmillis (hcount.symm ▸ hn) e
    rw [hcount] at hnanos
    have hsame : p.waitAfter (n - 1) e = wait := by
      have hvalue := s.waitAfter_nanos n e
      rw [← hnanos] at hvalue
      exact congrArg Duration.mk hvalue
    rw [hsame] at hwait
    exact ⟨e, wait, houtcome, hwait, hwords, hnanos⟩
  · intro n m hn hle e e' wait wait' houtcome houtcome' hnone hnone' hwait hwait'
    rw [hwaits n hn e wait houtcome hwait,
      hwaits m (Nat.lt_of_lt_of_le hn hle) e' wait' houtcome' hwait']
    exact s.waitNanos_mono hle hnone hnone'

/-! ## §6 A sample -/

namespace Sample

/-- As many attempts as 32 bits can count, with three milliseconds between the first two. -/
def stubborn : EmbedderSettings := { maxAttempts := 0xFFFFFFFF, baseBackoffMillis := 3 }

/-- A provider that is down forty times, except that its second answer asks for an hour. -/
def outage (failed : Nat) : Attempt Nat :=
  if failed = 1 then ⟨.ofMillis 2, .error (.rateLimited (some (.ofSeconds 3600)))⟩
  else if failed < 40 then ⟨.ofMillis 2, .error (.unavailable 503)⟩
  else ⟨.ofMillis 2, .ok 7⟩

/-- All attempts are made, since all fail. -/
theorem outage_length : (retry stubborn.retryPolicy outage).starts.length = 41 := by
  decide +kernel

end Sample

/-- The sample waits three milliseconds, then a minute instead of an hour, and a minute again after
its fortieth failure, where the factor has long been at its limit. -/
theorem EmbedderSettings.waits_exact_sample :
    (∃ wait, WaitsAfter Sample.stubborn.retryPolicy Sample.outage 1 wait ∧
        wait.nanos = 3 * Duration.perMilli) ∧
      (∃ wait, WaitsAfter Sample.stubborn.retryPolicy Sample.outage 2 wait ∧
        wait.nanos = 60 * Duration.perSecond) ∧
      ∃ wait, WaitsAfter Sample.stubborn.retryPolicy Sample.outage 40 wait ∧
        wait.nanos = 60 * Duration.perSecond := by
  obtain ⟨-, hwaits, -⟩ :=
    waits_exact Sample.stubborn (by decide) (by decide) Sample.outage
  simp only [Sample.outage_length] at hwaits
  obtain ⟨e₁, first, houtcome₁, hfirst, -, hnanos₁⟩ := hwaits 1 (by decide) (by decide)
  obtain ⟨e₂, second, houtcome₂, hsecond, -, hnanos₂⟩ := hwaits 2 (by decide) (by decide)
  obtain ⟨e₃, last, houtcome₃, hlast, -, hnanos₃⟩ := hwaits 40 (by decide) (by decide)
  cases houtcome₁
  cases houtcome₂
  cases houtcome₃
  exact ⟨⟨first, hfirst, hnanos₁.trans (by decide)⟩, ⟨second, hsecond, hnanos₂.trans (by decide)⟩,
    ⟨last, hlast, hnanos₃.trans (by decide)⟩⟩

end CodeIndex
