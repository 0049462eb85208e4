import LlmGateway.LimiterRuns
import LlmGateway.Lib.Unwinding

/-!
# The clock readings of the rate limiter

`check_request` reads the clock when it creates a bucket, for the window test,
and once more for the seconds that it asks a denied client to wait.  A
`ClockedCall` carries these readings, and the configuration that a new bucket
takes its limits from.

The buckets are the only thing that the keys share.  A call reads and writes the
bucket of its own key, so no traffic of other keys can change what a key is told
(`answers_of_own_calls`).
-/

namespace Gateway

/-- The clock readings of a `check_request`, in their order. -/
structure Readings where
  created : Time
  tested : Time
  answered : Time
  created_le : created ≤ tested
  tested_le : tested ≤ answered

/-- All readings at one time. -/
def Readings.instant (now : Time) : Readings :=
  ⟨now, now, now, Int.le_refl now, Int.le_refl now⟩

namespace RateLimiter

/-- The bucket of a key after the window test. -/
def testedBucket (cfg : RateLimitConfig) (r : Readings) (apiKey : Str) (l : RateLimiter) :
    Bucket :=
  (l.getBucket cfg r.created apiKey).resetIfExpired r.tested

/-- `RateLimiter::check_request`, with each of its clock readings. -/
def checkRequestAt (cfg : RateLimitConfig) (r : Readings) (apiKey : Str) (estimatedTokens : ℤ)
    (l : RateLimiter) : RateLimitResult × RateLimiter :=
  let checked := (l.testedBucket cfg r apiKey).check r.answered estimatedTokens
  (checked.1, { buckets := l.buckets.insert apiKey checked.2 })

/-- With all readings at one time it is `checkRequest`. -/
theorem checkRequestAt_instant (cfg : RateLimitConfig) (now : Time) (apiKey : Str)
    (estimatedTokens : ℤ) (l : RateLimiter) :
    l.checkRequestAt cfg (.instant now) apiKey estimatedTokens =
      l.checkRequest cfg now apiKey estimatedTokens := rfl

end RateLimiter

/-- A call on the rate limiter, with its clock readings. -/
inductive ClockedCall where
  | check (cfg : RateLimitConfig) (r : Readings) (key : Str) (estimated : ℤ)
  | record (cfg : RateLimitConfig) (now : Time) (key : Str) (tokens : ℤ)
  | reset (key : Str)

namespace ClockedCall

/-- The key a call is about. -/
def key : ClockedCall → Str
  | check _ _ key _ => key
  | record _ _ key _ => key
  | reset key => key

/-- The first clock reading of a call. -/
def first : ClockedCall → Option Time
  | check _ r _ _ => some r.created
  | record _ now _ _ => some now
  | reset _ => none

/-- The last clock reading of a call. -/
def last : ClockedCall → Option Time
  | check _ r _ _ => some r.answered
  | record _ now _ _ => some now
  | reset _ => none

/-- What a call returns, and the limiter after it. -/
def step : ClockedCall → RateLimiter → Option RateLimitResult × RateLimiter
  | check cfg r key estimated, l =>
      ((l.checkRequestAt cfg r key estimated).1, (l.checkRequestAt cfg r key estimated).2)
  | record cfg now key tokens, l => (none, l.recordTokens cfg now key tokens)
  | reset key, l => (none, l.reset key)

/-- The rate limiter as a machine that serves the keys. -/
def limiter : Machine RateLimiter ClockedCall (Option RateLimitResult) Str where
  init := {}
  step := step
  domain := key

/-- The limiter after a run of calls, newest first, from the empty table. -/
abbrev after (calls : List ClockedCall) : RateLimiter := limiter.after calls

/-- The clock does not run backwards along a run. -/
def Chronological (calls : List ClockedCall) : Prop :=
  calls.Pairwise fun later earlier => ∀ t ∈ later.first, ∀ s ∈ earlier.last, s ≤ t

variable {k : Str} {l : RateLimiter}

/-- A call leaves the buckets of other keys alone. -/
theorem lookup_step_of_ne {call : ClockedCall} (hother : call.key ≠ k) (l : RateLimiter) :
    (call.step l).2.buckets.lookup k = l.buckets.lookup k := by
  cases call with
  | check cfg r other estimated => exact AList.lookup_insert_ne (Ne.symm hother)
  | record cfg now other tokens => exact AList.lookup_insert_ne (Ne.symm hother)
  | reset other => exact AList.lookup_erase_ne (Ne.symm hother)

/-- A call is decided by the bucket of its own key. -/
theorem step_of_lookup (call : ClockedCall) {l l' : RateLimiter}
    (hsame : l.buckets.lookup call.key = l'.buckets.lookup call.key) :
    (call.step l).1 = (call.step l').1 ∧
      (call.step l).2.buckets.lookup call.key = (call.step l').2.buckets.lookup call.key := by
  cases call with
  | check cfg r key estimated =>
      have hlookup : l.buckets.lookup key = l'.buckets.lookup key := hsame
      have hbucket : l.testedBucket cfg r key = l'.testedBucket cfg r key := by
        unfold RateLimiter.testedBucket RateLimiter.getBucket
        rw [hlookup]
      simp only [step, RateLimiter.checkRequestAt, ClockedCall.key, AList.lookup_insert, hbucket,
        and_self]
  | record cfg now key tokens =>
      have hlookup : l.buckets.lookup key = l'.buckets.lookup key := hsame
      have hbucket : l.getBucket cfg now key = l'.getBucket cfg now key := by
        unfold RateLimiter.getBucket
        rw [hlookup]
      simp only [step, RateLimiter.recordTokens, ClockedCall.key, AList.lookup_insert, hbucket,
        and_self]
  | reset key =>
      refine ⟨rfl, ?_⟩
      exact (AList.lookup_erase key l.buckets).trans (AList.lookup_erase key l'.buckets).symm

/-- A key views its own bucket. -/
theorem limiter_unwinds :
    limiter.Unwinds fun (k : Str) (l : RateLimiter) => l.buckets.lookup k where
  answer call _ _ hsame := (step_of_lookup call hsame).1
  consistent call _ _ hsame := (step_of_lookup call hsame).2
  respects _ l _ hother := lookup_step_of_ne hother l

/-- **No interference between keys.**  In every run of calls, a key is given the
results that it is given when its own calls alone are run, with the same clock
readings. -/
theorem answers_of_own_calls (k : Str) (calls : List ClockedCall) :
    limiter.answers k calls = limiter.answers k (calls.filter fun call => call.key = k) :=
  limiter_unwinds.answers_own k calls

end ClockedCall

end Gateway
