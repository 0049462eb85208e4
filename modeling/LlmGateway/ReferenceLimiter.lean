import LlmGateway.LimiterRuns

/-!
# A reference for the rate limiter

The fixed-window limiter that `check_request` and `record_tokens` stand for: each
call belongs to the window in progress at its own time, be it a check or a
record.  The code tests the window in `check_request` only, so it answers like
the reference as long as no tokens are recorded in a window that is over.
-/

namespace Gateway

/-- What a key has used of its latest window. -/
structure Usage where
  start : Time
  requests : Nat
  tokens : ℤ
  deriving DecidableEq, Repr

namespace Usage

/-- The window in progress: a new one if the latest is a minute old. -/
def inProgress (now : Time) : Option Usage → Usage
  | none => ⟨now, 0, 0⟩
  | some u => if u.start + seconds 60 ≤ now then ⟨now, 0, 0⟩ else u

/-- There is room for one more request with this estimate. -/
def Admits (cfg : RateLimitConfig) (estimated : ℤ) (u : Usage) : Prop :=
  u.requests < cfg.defaultRpm ∧ (0 < estimated → u.tokens + estimated ≤ cfg.defaultTpm)

instance (cfg : RateLimitConfig) (estimated : ℤ) : DecidablePred (Admits cfg estimated) :=
  fun _ => inferInstanceAs (Decidable (_ ∧ _))

/-- The window after a check. -/
def check (cfg : RateLimitConfig) (estimated : ℤ) (u : Usage) : Usage :=
  if u.Admits cfg estimated then { u with requests := u.requests + 1 } else u

/-- The window after a record. -/
def record (tokens : ℤ) (u : Usage) : Usage := { u with tokens := u.tokens + tokens }

/-- The latest window of a key after a call. -/
def step (cfg : RateLimitConfig) (key : Str) (latest : Option Usage) :
    LimiterCall → Option Usage
  | .check now key' estimated =>
      if key' = key then some ((inProgress now latest).check cfg estimated) else latest
  | .record now key' tokens =>
      if key' = key then some ((inProgress now latest).record tokens) else latest
  | .reset key' => if key' = key then none else latest

/-- The latest window of a key after a run of calls, newest first. -/
def after (cfg : RateLimitConfig) (key : Str) : List LimiterCall → Option Usage
  | [] => none
  | call :: older => step cfg key (after cfg key older) call

/-- The answers the reference gives to the checks of a key. -/
def answers (cfg : RateLimitConfig) (key : Str) : List LimiterCall → List Bool
  | [] => []
  | .check now key' estimated :: older =>
      if key' = key then
        decide ((inProgress now (after cfg key older)).Admits cfg estimated) ::
          answers cfg key older
      else answers cfg key older
  | .record _ _ _ :: older => answers cfg key older
  | .reset _ :: older => answers cfg key older

/-- The window as the code keeps it. -/
def toBucket (cfg : RateLimitConfig) (u : Usage) : Bucket :=
  ⟨cfg.defaultRpm, cfg.defaultTpm, u.requests, u.tokens, u.start⟩

end Usage

namespace LimiterCall

/-- The answers the rate limiter gives to the checks of a key. -/
def answers (cfg : RateLimitConfig) (l : RateLimiter) (key : Str) : List LimiterCall → List Bool
  | [] => []
  | check now key' estimated :: older =>
      if key' = key then
        ((after cfg l older).checkRequest cfg now key estimated).1.allowed ::
          answers cfg l key older
      else answers cfg l key older
  | record _ _ _ :: older => answers cfg l key older
  | reset _ :: older => answers cfg l key older

/-- A call of the key is punctual if it does not record tokens in a window that
is over; the token sums the code forms are also supposed not to overflow. -/
def Punctual (cfg : RateLimitConfig) (key : Str) (l : RateLimiter) : LimiterCall → Prop
  | check now key' estimated =>
      key' = key → (tested cfg now key l).requestsCount < (tested cfg now key l).rpmLimit →
        0 < estimated → FitsInt ((tested cfg now key l).tokensCount + estimated)
  | record now key' tokens =>
      key' = key → (∀ b ∈ l.buckets.lookup key, ¬ MinuteOver b.windowStart now) ∧
        FitsInt ((l.getBucket cfg now key).tokensCount + tokens)
  | reset _ => True

instance (cfg : RateLimitConfig) (key : Str) (l : RateLimiter) :
    DecidablePred (Punctual cfg key l)
  | check _ _ _ => inferInstanceAs (Decidable (_ → _ → _ → _))
  | record _ _ _ => inferInstanceAs (Decidable (_ → _ ∧ _))
  | reset _ => inferInstanceAs (Decidable True)

/-- Every call of a run is punctual in the state that it finds. -/
def PunctualRun (cfg : RateLimitConfig) (l : RateLimiter) (key : Str) : List LimiterCall → Prop
  | [] => True
  | call :: older => Punctual cfg key (after cfg l older) call ∧ PunctualRun cfg l key older

instance decidablePunctualRun (cfg : RateLimitConfig) (l : RateLimiter) (key : Str) :
    DecidablePred (PunctualRun cfg l key)
  | [] => inferInstanceAs (Decidable True)
  | call :: older =>
      have := decidablePunctualRun cfg l key older
      inferInstanceAs (Decidable (Punctual cfg key (after cfg l older) call ∧ _))

end LimiterCall

/-! ## One call -/

namespace Usage

variable {cfg : RateLimitConfig} {key : Str} {l : RateLimiter} {now : Time}
  {latest : Option Usage}

/-- The window test of a check finds the window in progress. -/
theorem tested_eq (now : Time) (hmirror : l.buckets.lookup key = latest.map (toBucket cfg)) :
    LimiterCall.tested cfg now key l = (inProgress now latest).toBucket cfg := by
  unfold LimiterCall.tested RateLimiter.getBucket Bucket.resetIfExpired
  rw [hmirror]
  cases latest with
  | none => exact if_neg (not_minuteOver_self now)
  | some u =>
      rw [Option.map_some, Option.getD_some, inProgress]
      by_cases hover : u.start + seconds 60 ≤ now
      · have hover' : inSeconds (now - (u.toBucket cfg).windowStart) ≥ 60 :=
          minuteOver_iff.mpr hover
        rw [if_pos hover, if_pos hover']
        rfl
      · have hopen : ¬ inSeconds (now - (u.toBucket cfg).windowStart) ≥ 60 :=
          fun h => hover (minuteOver_iff.mp h)
        rw [if_neg hover, if_neg hopen]

/-- On the window in progress the code checks like the reference. -/
theorem check_toBucket (now : Time) (hint : cfg.defaultRpm < 2 ^ 31) {estimated : ℤ} {u : Usage}
    (hfits : u.requests < cfg.defaultRpm → 0 < estimated →
      FitsInt (u.tokens + estimated)) :
    ((u.toBucket cfg).check now estimated).1.allowed = decide (u.Admits cfg estimated) ∧
      ((u.toBucket cfg).check now estimated).2 = (u.check cfg estimated).toBucket cfg := by
  have hiff : ((u.toBucket cfg).check now estimated).1.allowed = true ↔ u.Admits cfg estimated := by
    rw [Bucket.check_allowed_iff]
    apply and_congr_right
    intro hroom
    apply forall_congr'
    intro hpos
    have hsum : wrap32 ((u.toBucket cfg).tokensCount + estimated) = u.tokens + estimated :=
      wrap32_of_fits (hfits hroom hpos)
    rw [hsum]
    rfl
  rcases (u.toBucket cfg).check_cases now estimated with
    ⟨hallowed, hroom, hbucket⟩ | ⟨hdenied, hbucket⟩
  · have hadmits := hiff.mp hallowed
    have hwrap : wrap32 ((u.toBucket cfg).requestsCount + 1) = ((u.requests + 1 : Nat) : ℤ) :=
      wrap32_succ (Int.natCast_nonneg u.requests) hroom hint
    rw [hallowed, hbucket, check, if_pos hadmits, decide_eq_true hadmits, hwrap]
    exact ⟨rfl, rfl⟩
  · have hfull : ¬ u.Admits cfg estimated :=
      fun h => Bool.false_ne_true (hdenied.symm.trans (hiff.mpr h))
    rw [hdenied, hbucket, check, if_neg hfull, decide_eq_false hfull]
    exact ⟨rfl, rfl⟩

/-- A check is answered from the window in progress. -/
theorem checkRequest_toBucket (hint : cfg.defaultRpm < 2 ^ 31) {estimated : ℤ}
    (hmirror : l.buckets.lookup key = latest.map (toBucket cfg))
    (hpunctual : LimiterCall.Punctual cfg key l (.check now key estimated)) :
    (l.checkRequest cfg now key estimated).1.allowed =
        decide ((inProgress now latest).Admits cfg estimated) ∧
      (l.checkRequest cfg now key estimated).2.buckets.lookup key =
        some (((inProgress now latest).check cfg estimated).toBucket cfg) := by
  obtain ⟨hanswer, hafter⟩ := LimiterCall.checkRequest_tested cfg now key estimated l
  have hfits := hpunctual rfl
  rw [tested_eq now hmirror] at hanswer hafter hfits
  obtain ⟨hallowed, hbucket⟩ := check_toBucket now hint hfits
  rw [hanswer, hafter, hbucket]
  exact ⟨hallowed, rfl⟩

/-- A punctual record goes into the window in progress. -/
theorem record_toBucket {tokens : ℤ} (hmirror : l.buckets.lookup key = latest.map (toBucket cfg))
    (hpunctual : LimiterCall.Punctual cfg key l (.record now key tokens)) :
    (l.recordTokens cfg now key tokens).buckets.lookup key =
      some (((inProgress now latest).record tokens).toBucket cfg) := by
  obtain ⟨htime, hfits⟩ := hpunctual rfl
  unfold RateLimiter.recordTokens
  rw [AList.lookup_insert, wrap32_of_fits hfits]
  unfold RateLimiter.getBucket
  rw [hmirror]
  cases latest with
  | none => rfl
  | some u =>
      have hopen : ¬ u.start + seconds 60 ≤ now :=
        fun h => htime (u.toBucket cfg) (by rw [hmirror]; rfl) (minuteOver_iff.mpr h)
      rw [inProgress, if_neg hopen]
      rfl

/-- A call of another key leaves the latest window alone. -/
theorem step_of_ne {call : LimiterCall} (hother : call.key ≠ key) (latest : Option Usage) :
    step cfg key latest call = latest := by
  cases call with
  | check now other estimated => exact if_neg hother
  | record now other tokens => exact if_neg hother
  | reset other => exact if_neg hother

/-- One punctual call keeps the bucket a mirror of the reference. -/
theorem step_toBucket (hint : cfg.defaultRpm < 2 ^ 31) {call : LimiterCall}
    (hmirror : l.buckets.lookup key = latest.map (toBucket cfg))
    (hpunctual : LimiterCall.Punctual cfg key l call) :
    (call.step cfg l).buckets.lookup key = (step cfg key latest call).map (toBucket cfg) := by
  by_cases hkey : call.key = key
  · cases call with
    | check now other estimated =>
        obtain rfl : other = key := hkey
        rw [step, if_pos rfl]
        exact (checkRequest_toBucket hint hmirror hpunctual).2
    | record now other tokens =>
        obtain rfl : other = key := hkey
        rw [step, if_pos rfl]
        exact record_toBucket hmirror hpunctual
    | reset other =>
        obtain rfl : other = key := hkey
        rw [LimiterCall.step, RateLimiter.reset, AList.lookup_erase, step, if_pos rfl]
        rfl
  · rw [LimiterCall.lookup_step_of_ne hkey, step_of_ne hkey]
    exact hmirror

/-! ## Runs -/

/-- In a punctual run the bucket of a key mirrors the reference throughout. -/
theorem after_toBucket (hint : cfg.defaultRpm < 2 ^ 31) (hnew : l.buckets.lookup key = none)
    {calls : List LimiterCall} (hpunctual : LimiterCall.PunctualRun cfg l key calls) :
    (LimiterCall.after cfg l calls).buckets.lookup key =
      (after cfg key calls).map (toBucket cfg) := by
  induction calls with
  | nil =>
      rw [LimiterCall.after, hnew]
      rfl
  | cons call older ih =>
      rw [LimiterCall.after, after]
      apply step_toBucket hint
      · exact ih hpunctual.2
      · exact hpunctual.1

/-- **The answers of the reference.**  For a key without a bucket, every check of
a run is answered as the reference answers it, as long as no call records tokens
in a window that is over. -/
theorem answers_eq_reference (cfg : RateLimitConfig) (hint : cfg.defaultRpm < 2 ^ 31)
    (l : RateLimiter) (key : Str) (hnew : l.buckets.lookup key = none)
    (calls : List LimiterCall) (hpunctual : LimiterCall.PunctualRun cfg l key calls) :
    LimiterCall.answers cfg l key calls = answers cfg key calls := by
  induction calls with
  | nil => rfl
  | cons call older ih =>
      obtain ⟨hcall, holder⟩ := hpunctual
      have ih := ih holder
      cases call with
      | check now other estimated =>
          rw [LimiterCall.answers, answers]
          by_cases hkey : other = key
          · subst hkey
            have hanswer := (checkRequest_toBucket hint (after_toBucket hint hnew holder) hcall).1
            rw [if_pos rfl, if_pos rfl, ih, hanswer]
          · rw [if_neg hkey, if_neg hkey]
            exact ih
      | record now other tokens => exact ih
      | reset other => exact ih

/-- Five requests and a thousand tokens a minute. -/
def smallLimits : RateLimitConfig := { defaultRpm := 5, defaultTpm := 1000 }

/-- The tokens are recorded half a minute into the window, and count there. -/
theorem answers_eq_reference_punctual :
    LimiterCall.answers smallLimits {} (str "k")
        [.check (seconds 61) (str "k") 200, .check (seconds 31) (str "k") 200,
          .record (seconds 30) (str "k") 900, .check 0 (str "k") 100] =
      answers smallLimits (str "k")
        [.check (seconds 61) (str "k") 200, .check (seconds 31) (str "k") 200,
          .record (seconds 30) (str "k") 900, .check 0 (str "k") 100] :=
  answers_eq_reference smallLimits (by decide) {} (str "k") rfl _ (by decide)

/-- The same record a minute after the window started: the next check wipes it,
and lets in what the tokens would have stopped. -/
theorem late_record_wiped :
    ¬ ∀ (cfg : RateLimitConfig) (key : Str) (calls : List LimiterCall),
      LimiterCall.Chronological calls →
        LimiterCall.answers cfg {} key calls = answers cfg key calls := by
  intro h
  have hclaimed := h smallLimits (str "k")
    [.check (seconds 61) (str "k") 200, .record (seconds 61) (str "k") 900, .check 0 (str "k") 100]
    (by decide)
  revert hclaimed
  decide

end Usage

end Gateway
