import LlmGateway.LimiterRuns
import Mathlib.Algebra.BigOperators.Group.Multiset.Basic

/-!
# Requests in flight

A request checks its estimate against the token limit of its key, calls a
provider, and records the tokens it used.  Checks and records of several requests
interleave.  The check reserves nothing: it sees the tokens that are recorded and
not the estimates of the requests in flight.
-/

namespace Gateway

/-- The rate limiter with the requests of one key in one window: how many were
admitted, the tokens recorded so far, and the estimates of the admitted ones that
have not recorded theirs. -/
structure Traffic where
  limiter : RateLimiter
  admitted : Nat
  recorded : ℤ
  inFlight : Multiset ℤ

namespace Traffic

/-- The states that the requests of a key reach in the window that starts at
`start`, in any order of their checks and records. -/
inductive Reached (cfg : RateLimitConfig) (key : Str) (start : Time) (l : RateLimiter) :
    Traffic → Prop
  | opened : Reached cfg key start l ⟨l, 0, 0, 0⟩
  | admitted {s : Traffic} (h : Reached cfg key start l s) {now : Time}
      (hin : ¬ MinuteOver start now) {estimated : ℤ}
      (hallowed : (s.limiter.checkRequest cfg now key estimated).1.allowed = true) :
      Reached cfg key start l ⟨(s.limiter.checkRequest cfg now key estimated).2, s.admitted + 1,
        s.recorded, estimated ::ₘ s.inFlight⟩
  | denied {s : Traffic} (h : Reached cfg key start l s) {now : Time}
      (hin : ¬ MinuteOver start now) {estimated : ℤ}
      (hdenied : (s.limiter.checkRequest cfg now key estimated).1.allowed = false) :
      Reached cfg key start l { s with limiter := (s.limiter.checkRequest cfg now key estimated).2 }
  | recorded {s : Traffic} (h : Reached cfg key start l s) {now : Time}
      (hin : ¬ MinuteOver start now) {estimated : ℤ} (hflies : estimated ∈ s.inFlight)
      (tokens : ℤ) :
      Reached cfg key start l ⟨s.limiter.recordTokens cfg now key tokens, s.admitted,
        s.recorded + tokens, s.inFlight.erase estimated⟩
  /-- A request admitted in an earlier window records its tokens in this one. -/
  | carried {s : Traffic} (h : Reached cfg key start l s) {now : Time}
      (hin : ¬ MinuteOver start now) (tokens : ℤ) :
      Reached cfg key start l { s with
        limiter := s.limiter.recordTokens cfg now key tokens
        recorded := s.recorded + tokens }
  | elsewhere {s : Traffic} (h : Reached cfg key start l s) {call : LimiterCall}
      (hother : call.key ≠ key) :
      Reached cfg key start l { s with limiter := call.step cfg s.limiter }

/-- The bucket of the key in such a state. -/
def bucket (cfg : RateLimitConfig) (start : Time) (s : Traffic) : Bucket :=
  ⟨cfg.defaultRpm, cfg.defaultTpm, s.admitted, wrap32 s.recorded, start⟩

variable {cfg : RateLimitConfig} {key : Str} {start now : Time} {l : RateLimiter} {s : Traffic}

/-- A check that finds no bucket, or one whose window is over, finds a fresh
window. -/
theorem tested_eq_fresh
    (hover : ∀ b ∈ l.buckets.lookup key, b.rpmLimit = cfg.defaultRpm ∧
      b.tpmLimit = cfg.defaultTpm ∧ MinuteOver b.windowStart start) :
    LimiterCall.tested cfg start key l = .fresh cfg start := by
  unfold LimiterCall.tested RateLimiter.getBucket
  cases hbucket : l.buckets.lookup key with
  | none => exact if_neg (not_minuteOver_self start)
  | some b =>
      obtain ⟨hrpm, htpm, hexpired⟩ := hover b hbucket
      rw [Option.getD_some, Bucket.resetIfExpired, if_pos (show inSeconds _ ≥ 60 from hexpired),
        hrpm, htpm]
      rfl

/-- So the first check of a window is a check of the limiter in which the window
is open. -/
theorem checkRequest_opened (hfresh : LimiterCall.tested cfg start key l = .fresh cfg start)
    (estimated : ℤ) :
    RateLimiter.checkRequest cfg start key estimated
        { buckets := l.buckets.insert key (.fresh cfg start) } =
      l.checkRequest cfg start key estimated := by
  have hsame : (Bucket.fresh cfg start).resetIfExpired start = .fresh cfg start :=
    if_neg (not_minuteOver_self start)
  unfold LimiterCall.tested at hfresh
  unfold RateLimiter.checkRequest
  rw [hfresh, RateLimiter.getBucket, AList.lookup_insert, Option.getD_some, hsame]
  simp only [AList.insert_insert]

/-- Inside the window the test of a check does nothing. -/
theorem tested_of_bucket (hbucket : s.limiter.buckets.lookup key = some (s.bucket cfg start))
    (hin : ¬ MinuteOver start now) :
    LimiterCall.tested cfg now key s.limiter = s.bucket cfg start := by
  unfold LimiterCall.tested RateLimiter.getBucket
  rw [hbucket]
  exact if_neg hin

theorem checkRequest_of_bucket
    (hbucket : s.limiter.buckets.lookup key = some (s.bucket cfg start))
    (hin : ¬ MinuteOver start now) (estimated : ℤ) :
    (s.limiter.checkRequest cfg now key estimated).1 =
        ((s.bucket cfg start).check now estimated).1 ∧
      (s.limiter.checkRequest cfg now key estimated).2.buckets.lookup key =
        some ((s.bucket cfg start).check now estimated).2 := by
  have htested := tested_of_bucket hbucket hin
  have hchecked := LimiterCall.checkRequest_tested cfg now key estimated s.limiter
  rw [htested] at hchecked
  exact hchecked

/-- Recorded tokens add up, as an `int` does. -/
theorem recordTokens_of_bucket
    (hbucket : s.limiter.buckets.lookup key = some (s.bucket cfg start)) (tokens : ℤ) :
    (s.limiter.recordTokens cfg now key tokens).buckets.lookup key =
      some { s.bucket cfg start with tokensCount := wrap32 (s.recorded + tokens) } := by
  have hsum : wrap32 (wrap32 s.recorded + tokens) = wrap32 (s.recorded + tokens) :=
    Int.bmod_add_bmod
  rw [RateLimiter.recordTokens, AList.lookup_insert, RateLimiter.getBucket, hbucket,
    Option.getD_some, ← hsum]
  rfl

/-- The bucket holds what the requests of the key have done in the window. -/
theorem Reached.lookup (hint : cfg.defaultRpm < 2 ^ 31)
    (hopen : l.buckets.lookup key = some (.fresh cfg start)) (h : Reached cfg key start l s) :
    s.limiter.buckets.lookup key = some (s.bucket cfg start) := by
  induction h with
  | opened => exact hopen
  | @admitted s h now hin estimated hallowed ih =>
      obtain ⟨hanswer, hafter⟩ := checkRequest_of_bucket ih hin estimated
      rw [hanswer] at hallowed
      rcases (s.bucket cfg start).check_cases now estimated with
        ⟨_, hroom, hbucket⟩ | ⟨hdenied, _⟩
      · have hwrap : wrap32 ((s.bucket cfg start).requestsCount + 1) =
            ((s.admitted + 1 : Nat) : ℤ) :=
          wrap32_succ (Int.natCast_nonneg s.admitted) hroom hint
        rw [hafter, hbucket, hwrap]
        rfl
      · exact absurd (hdenied.symm.trans hallowed) Bool.false_ne_true
  | @denied s h now hin estimated hdenied ih =>
      obtain ⟨hanswer, hafter⟩ := checkRequest_of_bucket ih hin estimated
      rw [hanswer] at hdenied
      rcases (s.bucket cfg start).check_cases now estimated with
        ⟨hallowed, _, _⟩ | ⟨_, hbucket⟩
      · exact absurd (hdenied.symm.trans hallowed) Bool.false_ne_true
      · rw [hafter, hbucket]
        rfl
  | @recorded s h now hin estimated hflies tokens ih =>
      exact recordTokens_of_bucket ih tokens
  | @carried s h now hin tokens ih => exact recordTokens_of_bucket ih tokens
  | @elsewhere s h call hother ih =>
      exact (LimiterCall.lookup_step_of_ne hother s.limiter).trans ih

/-- **The token budget of a window.**  At any point of any interleaving, a check
in the window admits exactly when fewer requests than the limit were admitted and
the estimate, if it is positive, fits beside the tokens recorded so far.  The
estimates of the requests in flight are not asked for. -/
theorem admission_iff (cfg : RateLimitConfig) (hint : cfg.defaultRpm < 2 ^ 31) (key : Str)
    (start : Time) (l : RateLimiter) (hopen : l.buckets.lookup key = some (.fresh cfg start))
    (s : Traffic) (hs : Reached cfg key start l s) (now : Time) (hin : ¬ MinuteOver start now)
    (estimated : ℤ) (hfits : 0 < estimated → FitsInt (s.recorded + estimated)) :
    (s.limiter.checkRequest cfg now key estimated).1.allowed = true ↔
      s.admitted < cfg.defaultRpm ∧
        (0 < estimated → s.recorded + estimated ≤ cfg.defaultTpm) := by
  have hlookup := hs.lookup hint hopen
  rw [(checkRequest_of_bucket hlookup hin estimated).1, Bucket.check_allowed_iff]
  apply and_congr_right
  intro _
  apply forall_congr'
  intro hpos
  have hsum : wrap32 ((s.bucket cfg start).tokensCount + estimated) = s.recorded + estimated := by
    calc wrap32 (wrap32 s.recorded + estimated)
        = wrap32 (s.recorded + estimated) := Int.bmod_add_bmod
      _ = s.recorded + estimated := wrap32_of_fits (hfits hpos)
  rw [hsum]
  rfl

/-- A thousand tokens a minute. -/
def thousandTokens : RateLimitConfig := { defaultTpm := 1000 }

/-- The window of a key has just been opened. -/
def openedLimiter : RateLimiter :=
  { buckets := AList.insert (str "k") (.fresh thousandTokens 0) ∅ }

/-- One request of 600 tokens has been admitted and is in flight. -/
def oneInFlight : Traffic :=
  ⟨(openedLimiter.checkRequest thousandTokens 0 (str "k") 600).2, 1, 0, {600}⟩

theorem oneInFlight_reached : Reached thousandTokens (str "k") 0 openedLimiter oneInFlight :=
  Reached.opened.admitted (show ¬ MinuteOver 0 0 by decide) (by decide)

/-- A second one is admitted beside it. -/
theorem admission_iff_oneInFlight :
    (oneInFlight.limiter.checkRequest thousandTokens 1 (str "k") 600).1.allowed = true ↔
      (1 : ℤ) < 60 ∧ (0 < (600 : ℤ) → (0 : ℤ) + 600 ≤ 1000) :=
  admission_iff thousandTokens (by decide) (str "k") 0 openedLimiter rfl oneInFlight
    oneInFlight_reached 1 (by decide) 600 (by decide)

/-- Two requests of 600 tokens are admitted together, though the budget is 1000. -/
theorem in_flight_not_reserved :
    ¬ ∀ (cfg : RateLimitConfig) (key : Str) (start : Time) (l : RateLimiter) (s : Traffic),
      l.buckets.lookup key = some (.fresh cfg start) → Reached cfg key start l s →
        ∀ (now : Time) (estimated : ℤ), ¬ MinuteOver start now →
          (s.limiter.checkRequest cfg now key estimated).1.allowed = true →
            s.recorded + s.inFlight.sum + estimated ≤ cfg.defaultTpm := by
  intro h
  have hclaimed := h thousandTokens (str "k") 0 openedLimiter oneInFlight rfl oneInFlight_reached
    1 600 (by decide) (by decide)
  have hsum : oneInFlight.inFlight.sum = 600 := Multiset.sum_singleton 600
  rw [hsum] at hclaimed
  revert hclaimed
  decide

end Traffic

end Gateway
