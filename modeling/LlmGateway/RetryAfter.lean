import LlmGateway.ClockedCalls

/-!
# Retry-After

A denied client is told how many seconds to wait: a minute less the age of the
window, which is read from the clock once more and truncated to whole seconds,
but at least one.  `retryAfter_sound` and `retryAfter_tight` are what the
rounding costs.

The wait ends after the window does.  Until then the window stays as the denied
check left it, but for the tokens that are recorded, and the first check after
it starts a new one (`denied_retry`).
-/

namespace Gateway

/-- Reduction to 32 bits never makes a number larger that is not negative. -/
theorem wrap32_le {n : ℤ} (h : 0 ≤ n) : wrap32 n ≤ n := by
  unfold wrap32 Int.bmod
  simp only [Nat.reducePow]
  split <;> omega

theorem inSeconds_of_nonneg {d : ℤ} (h : 0 ≤ d) : inSeconds d = d / 1000000000 :=
  Int.tdiv_eq_ediv_of_nonneg h

/-- A minute less the whole seconds of an age is at least what is left of it. -/
theorem minute_le_wait {d : ℤ} (h : 0 ≤ d) :
    60000000000 ≤ d + max 1 (60 - wrap32 (inSeconds d)) * 1000000000 := by
  have hwrap := wrap32_le (n := inSeconds d) (by rw [inSeconds_of_nonneg h]; omega)
  have hmax := le_max_right 1 (60 - wrap32 (inSeconds d))
  rw [inSeconds_of_nonneg h] at hwrap hmax ⊢
  omega

/-- It is one second or less than a second more. -/
theorem wait_lt {d : ℤ} (h : 0 ≤ d) (hshort : d < 2147483648000000000) :
    max 1 (60 - wrap32 (inSeconds d)) = 1 ∨
      max 1 (60 - wrap32 (inSeconds d)) * 1000000000 < 61000000000 - d := by
  have hwrap : wrap32 (inSeconds d) = d / 1000000000 := by
    rw [inSeconds_of_nonneg h]
    exact wrap32_of_small (by omega) (by omega)
  rw [hwrap]
  omega

namespace Bucket

/-- The advised wait lasts until the window is over. -/
theorem retryAfter_sound {b : Bucket} {now : Time} (hstarted : b.windowStart ≤ now) :
    b.windowStart + seconds 60 ≤ now + seconds (b.retryAfter now) := by
  have hwait := minute_le_wait (sub_nonneg.mpr hstarted)
  unfold seconds retryAfter
  linarith

/-- It is the least wait or less than a second longer than it takes. -/
theorem retryAfter_tight {b : Bucket} {now : Time} (hstarted : b.windowStart ≤ now)
    (hage : now < b.windowStart + seconds (2 ^ 31)) :
    b.retryAfter now = 1 ∨
      seconds (b.retryAfter now) < b.windowStart + seconds 60 - now + seconds 1 := by
  unfold seconds at hage
  refine (wait_lt (sub_nonneg.mpr hstarted) (by linarith)).imp id fun hwait => ?_
  unfold seconds retryAfter
  linarith

/-- A denied check leaves the bucket alone and advises a wait. -/
theorem check_of_denied {b : Bucket} {now : Time} {estimated : ℤ}
    (h : (b.check now estimated).1.allowed = false) :
    (b.check now estimated).2 = b ∧
      (b.check now estimated).1.retryAfterSec = b.retryAfter now := by
  refine ⟨?_, ?_⟩
  · rcases b.check_cases now estimated with ⟨hallowed, -⟩ | ⟨-, hbucket⟩
    · rw [hallowed] at h
      cases h
    · exact hbucket
  · unfold check at h ⊢
    simp only at h ⊢
    split
    · rfl
    · next hroom =>
        rw [if_neg hroom] at h
        split
        · rfl
        · next htokens =>
            rw [if_neg htokens] at h
            cases h

/-- The buckets differ in the tokens that were recorded. -/
structure SameWindow (b b' : Bucket) : Prop where
  rpmLimit : b'.rpmLimit = b.rpmLimit
  tpmLimit : b'.tpmLimit = b.tpmLimit
  requestsCount : b'.requestsCount = b.requestsCount
  windowStart : b'.windowStart = b.windowStart

theorem SameWindow.refl (b : Bucket) : SameWindow b b := ⟨rfl, rfl, rfl, rfl⟩

/-- Before the minute is over the window test finds nothing to do. -/
theorem resetIfExpired_of_open {b : Bucket} {now : Time}
    (h : now < b.windowStart + seconds 60) : b.resetIfExpired now = b :=
  if_neg fun hover => absurd (minuteOver_iff.mp hover) (not_le.mpr h)

/-- After it the test starts a window without requests and tokens. -/
theorem resetIfExpired_of_over {b : Bucket} {now : Time}
    (h : b.windowStart + seconds 60 ≤ now) :
    b.resetIfExpired now =
      { b with requestsCount := 0, tokensCount := 0, windowStart := now } :=
  if_pos (show MinuteOver b.windowStart now from minuteOver_iff.mpr h)

/-- The window that the test leaves is open. -/
theorem resetIfExpired_open (b : Bucket) (now : Time) :
    now < (b.resetIfExpired now).windowStart + seconds 60 := by
  rcases lt_or_ge now (b.windowStart + seconds 60) with hopen | hover
  · rw [resetIfExpired_of_open hopen]
    exact hopen
  · rw [resetIfExpired_of_over hover]
    exact lt_add_of_pos_right now (by decide)

/-- A new window admits an estimate within the limit. -/
theorem check_of_new_window {b : Bucket} {now : Time} (later : Time) {estimated : ℤ}
    (hover : b.windowStart + seconds 60 ≤ now) (hlimit : 1 ≤ b.rpmLimit)
    (hint : FitsInt estimated) (hwithin : estimated ≤ b.tpmLimit) :
    ((b.resetIfExpired now).check later estimated).1.allowed = true := by
  rw [resetIfExpired_of_over hover, check_allowed_iff]
  simp only [zero_add, wrap32_of_fits hint]
  exact ⟨by omega, fun _ => hwithin⟩

/-- A bucket without a request left denies. -/
theorem check_of_full {b : Bucket} (hfull : b.rpmLimit ≤ b.requestsCount) (now : Time)
    (estimated : ℤ) : (b.check now estimated).1.allowed = false := by
  unfold check
  simp only [ge_iff_le, if_pos hfull]

end Bucket

namespace ClockedCall

variable {k : Str} {l : RateLimiter} {t : Time}

/-- No window of the key starts after the time `t`. -/
def StartedBy (t : Time) (k : Str) (l : RateLimiter) : Prop :=
  ∀ b ∈ l.buckets.lookup k, b.windowStart ≤ t

theorem StartedBy.getBucket (h : StartedBy t k l) (cfg : RateLimitConfig) {now : Time}
    (hnow : now ≤ t) : (l.getBucket cfg now k).windowStart ≤ t := by
  unfold RateLimiter.getBucket
  cases hb : l.buckets.lookup k with
  | none => exact hnow
  | some b => exact h b hb

theorem StartedBy.testedBucket (h : StartedBy t k l) (cfg : RateLimitConfig) {r : Readings}
    (hr : r.tested ≤ t) : (l.testedBucket cfg r k).windowStart ≤ t := by
  unfold RateLimiter.testedBucket Bucket.resetIfExpired
  split
  · exact hr
  · exact h.getBucket cfg (r.created_le.trans hr)

/-- A call starts no window after its last clock reading. -/
theorem StartedBy.step {call : ClockedCall} (h : StartedBy t k l)
    (hlast : ∀ s ∈ call.last, s ≤ t) : StartedBy t k (call.step l).2 := by
  by_cases hkey : call.key = k
  · subst hkey
    cases call with
    | check cfg r key estimated =>
        have hanswered : r.answered ≤ t := hlast r.answered rfl
        have htested := StartedBy.testedBucket h cfg (r.tested_le.trans hanswered)
        intro b hb
        have hlookup : (RateLimiter.checkRequestAt cfg r key estimated l).2.buckets.lookup key =
            some ((l.testedBucket cfg r key).check r.answered estimated).2 :=
          AList.lookup_insert _
        cases hlookup.symm.trans hb
        rcases (l.testedBucket cfg r key).check_cases r.answered estimated with
          ⟨-, -, hbucket⟩ | ⟨-, hbucket⟩
        · rw [hbucket]
          exact htested
        · rw [hbucket]
          exact htested
    | record cfg now key tokens =>
        have hbucket := StartedBy.getBucket h cfg (hlast now rfl)
        intro b hb
        have hlookup : (l.recordTokens cfg now key tokens).buckets.lookup key = _ :=
          AList.lookup_insert _
        cases hlookup.symm.trans hb
        exact hbucket
    | reset key =>
        intro b hb
        cases (AList.lookup_erase key l.buckets).symm.trans hb
  · intro b hb
    exact h b ((lookup_step_of_ne hkey l).symm.trans hb)

/-- In every state of a run all windows started in the past. -/
theorem startedBy_after {calls : List ClockedCall} (h : ∀ call ∈ calls, ∀ s ∈ call.last, s ≤ t)
    (k : Str) : StartedBy t k (after calls) := by
  induction calls with
  | nil =>
      intro b hb
      cases hb
  | cons call older ih =>
      exact (ih fun o ho => h o (List.mem_cons_of_mem call ho)).step (h call List.mem_cons_self)

theorem Chronological.started {call : ClockedCall} {older : List ClockedCall}
    (h : Chronological (call :: older)) (ht : t ∈ call.first) (k : Str) :
    StartedBy t k (after older) :=
  startedBy_after (fun o ho s hs => (List.pairwise_cons.mp h).1 o ho t ht s hs) k

/-- A call that leaves the window of the key as it is: a call of another key, a
recording of tokens, or a check that the full window of `b` denies. -/
def Spares (k : Str) (b : Bucket) (call : ClockedCall) : Prop :=
  call.key = k → (∃ cfg now tokens, call = record cfg now k tokens) ∨
    b.rpmLimit ≤ b.requestsCount ∧
      ∃ cfg r estimated, call = check cfg r k estimated ∧ r.tested < b.windowStart + seconds 60

theorem Spares.step {b b' : Bucket} {call : ClockedCall} (h : Spares k b call)
    (hb' : l.buckets.lookup k = some b') (hsame : b.SameWindow b') :
    ∃ b'', (call.step l).2.buckets.lookup k = some b'' ∧ b.SameWindow b'' := by
  by_cases hkey : call.key = k
  · rcases h hkey with ⟨cfg, now, tokens, rfl⟩ | ⟨hfull, cfg, r, estimated, rfl, hopen⟩
    · refine ⟨_, AList.lookup_insert _, ?_⟩
      have hbucket : l.getBucket cfg now k = b' := by rw [RateLimiter.getBucket, hb']; rfl
      rw [hbucket]
      exact ⟨hsame.rpmLimit, hsame.tpmLimit, hsame.requestsCount, hsame.windowStart⟩
    · refine ⟨_, AList.lookup_insert _, ?_⟩
      have hbucket : l.testedBucket cfg r k = b' := by
        rw [RateLimiter.testedBucket, RateLimiter.getBucket, hb', Option.getD_some]
        exact Bucket.resetIfExpired_of_open (by rw [hsame.windowStart]; exact hopen)
      have hdenied := Bucket.check_of_full (b := b')
        (by rw [hsame.rpmLimit, hsame.requestsCount]; exact hfull) r.answered estimated
      rw [hbucket, (Bucket.check_of_denied hdenied).1]
      exact hsame
  · exact ⟨b', (lookup_step_of_ne hkey l).trans hb', hsame⟩

/-- Such calls leave the window of the key as it is. -/
theorem lookup_after_spares {b : Bucket} {older : List ClockedCall}
    (hb : (after older).buckets.lookup k = some b) {between : List ClockedCall}
    (hspares : ∀ call ∈ between, Spares k b call) :
    ∃ b', (after (between ++ older)).buckets.lookup k = some b' ∧ b.SameWindow b' := by
  induction between with
  | nil => exact ⟨b, hb, .refl b⟩
  | cons call between ih =>
      obtain ⟨b', hb', hsame⟩ := ih fun o ho => hspares o (List.mem_cons_of_mem call ho)
      exact (hspares call List.mem_cons_self).step hb' hsame

/-- So do, once the requests are used up, all calls up to a check inside the
window that do not reset the key. -/
theorem spares_of_open {b : Bucket} (hfull : b.rpmLimit ≤ b.requestsCount)
    {cfg : RateLimitConfig} {r : Readings} {estimated : ℤ} {between : List ClockedCall}
    (hchron : Chronological (check cfg r k estimated :: between)) (hkept : reset k ∉ between)
    (hopen : r.tested < b.windowStart + seconds 60) : ∀ call ∈ between, Spares k b call := by
  intro call hcall hkey
  cases call with
  | record cfg' now key tokens =>
      cases hkey
      exact .inl ⟨cfg', now, tokens, rfl⟩
  | reset key =>
      cases hkey
      exact absurd hcall hkept
  | check cfg' r' key estimated' =>
      cases hkey
      have hbefore : r'.answered ≤ r.created :=
        (List.pairwise_cons.mp hchron).1 _ hcall _ rfl _ rfl
      have htested := r'.tested_le
      have hcreated := r.created_le
      exact .inr ⟨hfull, cfg', r', estimated', rfl, by linarith⟩

/-- A check that is denied leaves the bucket as the window test made it. -/
theorem lookup_after_denied {cfg : RateLimitConfig} {r : Readings} {estimated : ℤ}
    {older : List ClockedCall}
    (hdenied : ((after older).checkRequestAt cfg r k estimated).1.allowed = false) :
    (after (check cfg r k estimated :: older)).buckets.lookup k =
      some ((after older).testedBucket cfg r k) := by
  have hcheck := (Bucket.check_of_denied hdenied).1
  exact (AList.lookup_insert _).trans (congrArg some hcheck)

/-- The bucket that a check at the time `r.tested` finds. -/
theorem testedBucket_of_lookup {b : Bucket} (h : l.buckets.lookup k = some b)
    (cfg : RateLimitConfig) (r : Readings) :
    l.testedBucket cfg r k = b.resetIfExpired r.tested := by
  rw [RateLimiter.testedBucket, RateLimiter.getBucket, h, Option.getD_some]

/-- **What `retry_after` promises.**  A check of a key with a limit of at least
one request is denied, in any state that a run leads to.  After the advised
wait a check with an estimate within the limit is admitted, whatever was
recorded for the key and whatever was called for others.  If the requests were
used up, then every check of the key is denied until the minute is over, and the
wait is the least one or less than a second longer than what is left of it (for
a denial that takes less than 68 years). -/
theorem denied_retry (cfg : RateLimitConfig) (r : Readings) (k : Str) (estimated : ℤ)
    (older : List ClockedCall) (hchron : Chronological (check cfg r k estimated :: older))
    (hlimit : 1 ≤ ((after older).testedBucket cfg r k).rpmLimit)
    (hdenied : ((after older).checkRequestAt cfg r k estimated).1.allowed = false) :
    let b := (after older).testedBucket cfg r k
    let wait := ((after older).checkRequestAt cfg r k estimated).1.retryAfterSec
    (∀ between : List ClockedCall,
      (∀ call ∈ between, call.key = k → ∃ cfg' now tokens, call = record cfg' now k tokens) →
      ∀ cfg' r' estimated', r.answered + seconds wait ≤ r'.tested → FitsInt estimated' →
        estimated' ≤ b.tpmLimit →
        ((after (between ++ check cfg r k estimated :: older)).checkRequestAt cfg' r' k
          estimated').1.allowed = true) ∧
    (b.rpmLimit ≤ b.requestsCount →
      (∀ between cfg' r' estimated', Chronological (check cfg' r' k estimated' :: between) →
        reset k ∉ between → r'.tested < b.windowStart + seconds 60 →
        ((after (between ++ check cfg r k estimated :: older)).checkRequestAt cfg' r' k
          estimated').1.allowed = false) ∧
      (r.answered < r.tested + seconds (2 ^ 31 - 60) →
        wait = 1 ∨ seconds wait < b.windowStart + seconds 60 - r.answered + seconds 1)) := by
  intro b wait
  have hwait : wait = b.retryAfter r.answered := (Bucket.check_of_denied hdenied).2
  have hb := lookup_after_denied hdenied
  have hstarted : b.windowStart ≤ r.tested := by
    have hby := hchron.started (t := r.created) rfl k
    exact StartedBy.testedBucket (fun b hb => (hby b hb).trans r.created_le) cfg le_rfl
  have hsound := Bucket.retryAfter_sound (hstarted.trans r.tested_le)
  refine ⟨fun between hrecords cfg' r' estimated' hlate hint hwithin => ?_, fun hfull =>
    ⟨fun between cfg' r' estimated' hchron' hkept hopen => ?_, fun hprompt => ?_⟩⟩
  · obtain ⟨b', hb', hsame⟩ := lookup_after_spares hb fun call hcall hkey =>
      .inl (hrecords call hcall hkey)
    have hover : b'.windowStart + seconds 60 ≤ r'.tested := by
      rw [hsame.windowStart]
      rw [hwait] at hlate
      exact hsound.trans hlate
    have hadmitted := Bucket.check_of_new_window r'.answered hover
      (by rw [hsame.rpmLimit]; exact hlimit) hint (by rw [hsame.tpmLimit]; exact hwithin)
    rw [← testedBucket_of_lookup hb' cfg' r'] at hadmitted
    exact hadmitted
  · obtain ⟨b', hb', hsame⟩ :=
      lookup_after_spares hb (spares_of_open hfull hchron' hkept hopen)
    have htested : (after (between ++ check cfg r k estimated :: older)).testedBucket cfg' r' k =
        b' := by
      rw [testedBucket_of_lookup hb']
      exact Bucket.resetIfExpired_of_open (by rw [hsame.windowStart]; exact hopen)
    have hdenied' := Bucket.check_of_full (b := b')
      (by rw [hsame.rpmLimit, hsame.requestsCount]; exact hfull) r'.answered estimated'
    rw [← htested] at hdenied'
    exact hdenied'
  · rw [hwait]
    refine Bucket.retryAfter_tight (hstarted.trans r.tested_le) ?_
    have hopen : r.tested < b.windowStart + seconds 60 := Bucket.resetIfExpired_open _ _
    unfold seconds at hprompt hopen ⊢
    linarith

/-- The second request of a minute is told to wait 59 seconds, and then admitted. -/
theorem denied_retry_second :
    ((after [check { defaultRpm := 1 } (.instant (seconds 1)) (str "k") 0,
        check { defaultRpm := 1 } (.instant 0) (str "k") 0]).checkRequestAt { defaultRpm := 1 }
      (.instant (seconds 60)) (str "k") 0).1.allowed = true := by
  have hretry := denied_retry { defaultRpm := 1 } (.instant (seconds 1)) (str "k") 0
    [check { defaultRpm := 1 } (.instant 0) (str "k") 0]
    (by simp [Chronological, first, last, Readings.instant, seconds]) (by decide) (by decide)
  exact hretry.1 [] (by simp) { defaultRpm := 1 } (.instant (seconds 60)) 0 (by decide) (by decide)
    (by decide)

end ClockedCall

end Gateway
