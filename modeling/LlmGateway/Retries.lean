import LlmGateway.Calls
import LlmGateway.LimiterRuns

/-!
# The retry loop

`with_retry` takes the number of retries as the configuration has it and doubles
its delay after every attempt.  A loop with a number of retries that is not
negative ends at the first call that returns or with the exception of the last
one; the delay of attempt 25 is the first that an `int` does not hold.
`retriesSoundly_iff` puts the two together: when the loop does what it is for.
-/

namespace Gateway

variable {fn : Nat → Except Exn ChatResponse}

/-- The call with this number throws. -/
def Throws (fn : Nat → Except Exn ChatResponse) (i : Nat) : Prop := ∃ e, fn i = .error e

theorem Throws.shift {attempt i : Nat} (h : Throws fn (attempt + (i + 1))) :
    Throws fn (attempt + 1 + i) := by
  rwa [Nat.add_right_comm, Nat.add_assoc]

/-- The first call that returns is this one. -/
structure FirstAnswer (fn : Nat → Except Exn ChatResponse) (k : Nat) (resp : ChatResponse) :
    Prop where
  earlier : ∀ i < k, Throws fn i
  answer : fn k = .ok resp

/-- Of so many calls one is the first to return, or all throw. -/
theorem firstAnswer_or_throws (fn : Nat → Except Exn ChatResponse) (n : Nat) :
    (∃ k < n, ∃ resp, FirstAnswer fn k resp) ∨ ∀ i < n, Throws fn i := by
  induction n with
  | zero =>
      right
      intro i hi
      exact absurd hi (Nat.not_lt_zero i)
  | succ n ih =>
      rcases ih with ⟨k, hk, resp, hfirst⟩ | hthrows
      · exact .inl ⟨k, Nat.lt_succ_of_lt hk, resp, hfirst⟩
      · cases hfn : fn n with
        | ok resp => exact .inl ⟨n, Nat.lt_succ_self n, resp, hthrows, hfn⟩
        | error e =>
            right
            intro i hi
            rcases Nat.lt_succ_iff_lt_or_eq.mp hi with hlt | rfl
            · exact hthrows i hlt
            · exact ⟨e, hfn⟩

/-- A call that throws and is not the last one is followed by its delay and the
rest of the loop. -/
theorem retryLoop_succ {left attempt : Nat} {last : Option Exn} {e : Exn}
    (h : fn attempt = .error e) :
    retryLoop fn (left + 2) attempt last =
      { outcome := (retryLoop fn (left + 1) (attempt + 1) (some e)).outcome
        attempts := (retryLoop fn (left + 1) (attempt + 1) (some e)).attempts + 1
        delays := backoffMs attempt ::
          (retryLoop fn (left + 1) (attempt + 1) (some e)).delays } := by
  rw [retryLoop]
  simp only [h]
  rw [if_neg (Nat.succ_ne_zero left)]

theorem map_backoffMs_range_succ (attempt n : Nat) :
    ((List.range (n + 1)).map fun i => backoffMs (attempt + i)) =
      backoffMs attempt :: (List.range n).map fun i => backoffMs (attempt + 1 + i) := by
  have hshift : ∀ i, backoffMs (attempt + (i + 1)) = backoffMs (attempt + 1 + i) := by
    intro i
    rw [Nat.add_right_comm, Nat.add_assoc]
  rw [List.range_succ_eq_map, List.map_cons, List.map_map, Nat.add_zero]
  simp only [Function.comp_def, Nat.succ_eq_add_one, hshift]

/-- The loop ends at the first call that returns. -/
theorem retryLoop_of_returns {k left attempt : Nat} {last : Option Exn} {resp : ChatResponse}
    (hthrows : ∀ i < k, Throws fn (attempt + i)) (hreturns : fn (attempt + k) = .ok resp)
    (hleft : k < left) :
    retryLoop fn left attempt last =
      ⟨.answered resp, k + 1, (List.range k).map fun i => backoffMs (attempt + i)⟩ := by
  induction k generalizing left attempt last with
  | zero =>
      obtain ⟨n, rfl⟩ := Nat.exists_eq_succ_of_ne_zero hleft.ne'
      rw [Nat.add_zero] at hreturns
      rw [retryLoop]
      simp only [hreturns]
      rfl
  | succ k ih =>
      obtain ⟨n, rfl⟩ : ∃ n, left = n + 2 := ⟨left - 2, by omega⟩
      obtain ⟨e, he⟩ : Throws fn attempt := hthrows 0 (Nat.succ_pos k)
      have hthrows' : ∀ i < k, Throws fn (attempt + 1 + i) := fun i hi =>
        (hthrows (i + 1) (Nat.succ_lt_succ hi)).shift
      have hreturns' : fn (attempt + 1 + k) = .ok resp := by
        rwa [Nat.add_right_comm, Nat.add_assoc]
      rw [retryLoop_succ he, ih hthrows' hreturns' (Nat.lt_of_succ_lt_succ hleft),
        map_backoffMs_range_succ]

/-- A loop whose calls all throw ends with the exception of the last one. -/
theorem retryLoop_of_throws {n attempt : Nat} (last : Option Exn)
    (hthrows : ∀ i ≤ n, Throws fn (attempt + i)) :
    ∃ e, fn (attempt + n) = .error e ∧ retryLoop fn (n + 1) attempt last =
      ⟨.threw e, n + 1, (List.range n).map fun i => backoffMs (attempt + i)⟩ := by
  induction n generalizing attempt last with
  | zero =>
      obtain ⟨e, he⟩ := hthrows 0 le_rfl
      refine ⟨e, he, ?_⟩
      rw [Nat.add_zero] at he
      rw [retryLoop]
      simp only [he]
      rfl
  | succ n ih =>
      obtain ⟨e, he⟩ : Throws fn attempt := hthrows 0 (Nat.zero_le _)
      have hthrows' : ∀ i ≤ n, Throws fn (attempt + 1 + i) := fun i hi =>
        (hthrows (i + 1) (Nat.succ_le_succ hi)).shift
      obtain ⟨e', he', hrest⟩ := ih (some e) hthrows'
      refine ⟨e', by rwa [Nat.add_right_comm, Nat.add_assoc] at he', ?_⟩
      rw [retryLoop_succ he, hrest, map_backoffMs_range_succ]

/-- A negative number of retries: no call is made and an empty pointer is
rethrown. -/
theorem withRetry_of_neg {m : ℤ} (hm : m < 0) :
    withRetry m fn = { outcome := .nullException } := by
  unfold withRetry
  rw [show (m + 1).toNat = 0 by omega]
  rfl

theorem withRetry_of_firstAnswer {m : ℤ} {k : Nat} {resp : ChatResponse}
    (hfirst : FirstAnswer fn k resp) (hk : (k : ℤ) ≤ m) :
    withRetry m fn = ⟨.answered resp, k + 1, (List.range k).map backoffMs⟩ := by
  unfold withRetry
  have hthrows : ∀ i < k, Throws fn (0 + i) := by
    simpa only [Nat.zero_add] using hfirst.earlier
  have hreturns : fn (0 + k) = .ok resp := by
    rw [Nat.zero_add]
    exact hfirst.answer
  rw [retryLoop_of_returns hthrows hreturns (by omega)]
  simp only [Nat.zero_add]

theorem withRetry_of_throws {n : Nat} (hthrows : ∀ i ≤ n, Throws fn i) :
    ∃ e, fn n = .error e ∧
      withRetry n fn = ⟨.threw e, n + 1, (List.range n).map backoffMs⟩ := by
  have hthrows' : ∀ i ≤ n, Throws fn (0 + i) := by simpa only [Nat.zero_add] using hthrows
  obtain ⟨e, he, hloop⟩ := retryLoop_of_throws none hthrows'
  simp only [Nat.zero_add] at he hloop
  refine ⟨e, he, ?_⟩
  unfold withRetry
  rw [show ((n : ℤ) + 1).toNat = n + 1 by omega, hloop]

/-- A loop with a number of retries that is not negative: the calls in front of
the last one throw and are waited after, and the last one returns or is the last
that is allowed. -/
theorem withRetry_cases (fn : Nat → Except Exn ChatResponse) (n : Nat) :
    (∃ k ≤ n, ∃ resp, FirstAnswer fn k resp ∧
        withRetry n fn = ⟨.answered resp, k + 1, (List.range k).map backoffMs⟩) ∨
      ∃ e, (∀ i ≤ n, Throws fn i) ∧ fn n = .error e ∧
        withRetry n fn = ⟨.threw e, n + 1, (List.range n).map backoffMs⟩ := by
  rcases firstAnswer_or_throws fn (n + 1) with ⟨k, hk, resp, hfirst⟩ | hthrows
  · have hle := Nat.lt_succ_iff.mp hk
    exact .inl ⟨k, hle, resp, hfirst, withRetry_of_firstAnswer hfirst (Int.ofNat_le.mpr hle)⟩
  · have hall : ∀ i ≤ n, Throws fn i := fun i hi => hthrows i (Nat.lt_succ_of_le hi)
    obtain ⟨e, he, hloop⟩ := withRetry_of_throws hall
    exact .inr ⟨e, hall, he, hloop⟩

/-! ## The delays -/

theorem fitsInt_delay_iff {i : Nat} : FitsInt (100 * 2 ^ i) ↔ i ≤ 24 := by
  constructor
  · intro hfits
    by_contra! hlarge
    have hpow : (2 : ℤ) ^ 25 ≤ 2 ^ i := pow_le_pow_right₀ (by decide) hlarge
    have hbound := hfits.2
    omega
  · intro hsmall
    have hpow : (2 : ℤ) ^ i ≤ 2 ^ 24 := pow_le_pow_right₀ (by decide) hsmall
    have hpos : (0 : ℤ) < 2 ^ i := by positivity
    constructor
    · omega
    · omega

theorem backoffMs_of_le {i : Nat} (h : i ≤ 24) : backoffMs i = 100 * 2 ^ i := by
  have hfits := fitsInt_delay_iff.mpr h
  have hpos : (0 : ℤ) < 2 ^ i := by positivity
  have hpow : FitsInt (2 ^ i) := by
    obtain ⟨-, hbound⟩ := hfits
    constructor
    · omega
    · omega
  unfold backoffMs
  rw [wrap32_of_fits hpow, wrap32_of_fits hfits]

/-- A list of delays is exact up to the delay of attempt 24. -/
theorem delays_exact_iff {n : Nat} :
    (∀ i d, ((List.range n).map backoffMs)[i]? = some d → d = 100 * 2 ^ i ∧ 0 < d ∧ FitsInt d) ↔
      n ≤ 25 := by
  constructor
  · intro h
    by_contra! hlarge
    have hget : ((List.range n).map backoffMs)[25]? = some (backoffMs 25) := by
      rw [List.getElem?_map, List.getElem?_range hlarge, Option.map_some]
    obtain ⟨hvalue, -, hfits⟩ := h 25 _ hget
    rw [hvalue] at hfits
    exact absurd (fitsInt_delay_iff.mp hfits) (by decide)
  · intro hsmall i d hd
    obtain ⟨j, hj, rfl⟩ := Option.map_eq_some_iff.mp (List.getElem?_map.symm.trans hd)
    obtain ⟨hi, rfl⟩ := List.getElem?_eq_some_iff.mp hj
    rw [List.length_range] at hi
    rw [List.getElem_range, backoffMs_of_le (by omega)]
    exact ⟨rfl, by positivity, fitsInt_delay_iff.mpr (by omega)⟩

/-! ## When the loop is sound -/

/-- What the loop is for: it calls at least once and at most once more than it
may retry, its first success is the result, without one it ends in the exception
of its last call and never in an empty pointer, and its delays are exact. -/
structure RetriesSoundly (m : ℤ) (fn : Nat → Except Exn ChatResponse) : Prop where
  atLeastOnce : 1 ≤ (withRetry m fn).attempts
  atMost : ((withRetry m fn).attempts : ℤ) ≤ max m 0 + 1
  answers : ∀ k resp, FirstAnswer fn k resp → (k : ℤ) ≤ max m 0 →
    (withRetry m fn).outcome = .answered resp ∧ (withRetry m fn).attempts = k + 1
  rethrows : (∀ i < (withRetry m fn).attempts, Throws fn i) →
    ∃ e, fn ((withRetry m fn).attempts - 1) = .error e ∧ (withRetry m fn).outcome = .threw e
  notNull : (withRetry m fn).outcome ≠ .nullException
  delays : ∀ i d, (withRetry m fn).delays[i]? = some d →
    d = 100 * 2 ^ i ∧ 0 < d ∧ FitsInt d

/-- With a number of retries that is not negative, the delays decide. -/
theorem retriesSoundly_of_delays {n : Nat}
    (hdelays : ∀ i d, (withRetry n fn).delays[i]? = some d →
      d = 100 * 2 ^ i ∧ 0 < d ∧ FitsInt d) : RetriesSoundly n fn := by
  have hanswers : ∀ k resp, FirstAnswer fn k resp → (k : ℤ) ≤ max (n : ℤ) 0 →
      (withRetry n fn).outcome = .answered resp ∧ (withRetry n fn).attempts = k + 1 := by
    intro k resp hfirst hk
    rw [withRetry_of_firstAnswer hfirst (by omega)]
    exact ⟨rfl, rfl⟩
  rcases withRetry_cases fn n with ⟨k, hk, resp, hfirst, hloop⟩ | ⟨e, -, he, hloop⟩
  · refine ⟨?_, ?_, hanswers, ?_, ?_, hdelays⟩
    · rw [hloop]
      exact Nat.succ_pos k
    · rw [hloop]
      show ((k + 1 : Nat) : ℤ) ≤ max (n : ℤ) 0 + 1
      omega
    · rw [hloop]
      intro hthrows
      obtain ⟨e, he⟩ := hthrows k (Nat.lt_succ_self k)
      cases hfirst.answer.symm.trans he
    · rw [hloop]
      exact ChatOutcome.noConfusion
  · refine ⟨?_, ?_, hanswers, ?_, ?_, hdelays⟩
    · rw [hloop]
      exact Nat.succ_pos n
    · rw [hloop]
      show ((n + 1 : Nat) : ℤ) ≤ max (n : ℤ) 0 + 1
      omega
    · rw [hloop]
      intro _
      exact ⟨e, he, rfl⟩
    · rw [hloop]
      exact ChatOutcome.noConfusion

/-- **When a retry loop is sound.**  For every number of retries and every
sequence of outcomes, the loop does what it is for exactly when the number is not
negative, and it is at most 25 or one of the first 26 calls returns. -/
theorem retriesSoundly_iff (m : ℤ) (fn : Nat → Except Exn ChatResponse) :
    RetriesSoundly m fn ↔ 0 ≤ m ∧ (m ≤ 25 ∨ ∃ k ≤ 25, ∃ resp, fn k = .ok resp) := by
  rcases lt_or_ge m 0 with hneg | hnonneg
  · refine iff_of_false (fun h => h.notNull ?_) fun h => absurd h.1 (not_le.mpr hneg)
    rw [withRetry_of_neg hneg]
  · obtain ⟨n, rfl⟩ := Int.eq_ofNat_of_zero_le hnonneg
    have hdelays : RetriesSoundly n fn ↔ _ := ⟨RetriesSoundly.delays, retriesSoundly_of_delays⟩
    rw [hdelays]
    rcases withRetry_cases fn n with ⟨k, hk, resp, hfirst, hloop⟩ | ⟨e, hthrows, -, hloop⟩
    · rw [hloop, delays_exact_iff]
      constructor
      · intro hsmall
        exact ⟨hnonneg, .inr ⟨k, hsmall, resp, hfirst.answer⟩⟩
      · intro h
        obtain ⟨-, hsmall | ⟨j, hj, resp', hanswer⟩⟩ := h
        · omega
        · by_contra! hlarge
          obtain ⟨e, he⟩ := hfirst.earlier j (by omega)
          cases hanswer.symm.trans he
    · rw [hloop, delays_exact_iff]
      constructor
      · intro hsmall
        exact ⟨hnonneg, .inl (by omega)⟩
      · intro h
        obtain ⟨-, hsmall | ⟨j, hj, resp, hanswer⟩⟩ := h
        · omega
        · by_contra! hlarge
          obtain ⟨e', he⟩ := hthrows j (by omega)
          cases hanswer.symm.trans he

/-- A provider configured with -1 retries is never called. -/
theorem not_retriesSoundly :
    ¬ ∀ (m : ℤ) (fn : Nat → Except Exn ChatResponse), FitsInt m → RetriesSoundly m fn := by
  intro h
  exact absurd (h (-1) (fun _ => .ok {}) (by decide)).atLeastOnce (by decide)

end Gateway
