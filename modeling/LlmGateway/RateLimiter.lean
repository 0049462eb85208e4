import LlmGateway.Config

/-!
# The rate limiter

`src/middleware/rate_limiter.cpp`: one bucket a key, with a window that is
restarted lazily, by the first check that finds it a minute old.  A bucket takes
its limits from the global configuration when it is created.
-/

namespace Gateway

/-- `RateLimiter::Bucket`. -/
structure Bucket where
  rpmLimit : ℤ := 60
  tpmLimit : ℤ := 100000
  requestsCount : ℤ := 0
  tokensCount : ℤ := 0
  windowStart : Time
  deriving DecidableEq, Repr

/-- `RateLimiter::Result`. -/
structure RateLimitResult where
  allowed : Bool := true
  remainingRpm : ℤ := 0
  remainingTpm : ℤ := 0
  retryAfterSec : ℤ := 0
  deriving DecidableEq, Repr

/-- The state of `RateLimiter`. -/
structure RateLimiter where
  buckets : UnorderedMap Str Bucket := ∅

namespace Bucket

/-- The bucket `get_bucket` creates. -/
def fresh (cfg : RateLimitConfig) (now : Time) : Bucket :=
  { rpmLimit := cfg.defaultRpm, tpmLimit := cfg.defaultTpm, windowStart := now }

/-- `RateLimiter::reset_if_expired`. -/
def resetIfExpired (now : Time) (b : Bucket) : Bucket :=
  if inSeconds (now - b.windowStart) ≥ 60 then
    { b with requestsCount := 0, tokensCount := 0, windowStart := now }
  else b

/-- The seconds until the window ends, at least one. -/
def retryAfter (now : Time) (b : Bucket) : ℤ :=
  max 1 (60 - wrap32 (inSeconds (now - b.windowStart)))

/-- The rest of `check_request`, on the bucket of the current window. -/
def check (now : Time) (estimatedTokens : ℤ) (b : Bucket) : RateLimitResult × Bucket :=
  let r : RateLimitResult :=
    { remainingRpm := wrap32 (b.rpmLimit - b.requestsCount)
      remainingTpm := wrap32 (b.tpmLimit - b.tokensCount) }
  if b.requestsCount ≥ b.rpmLimit then
    ({ r with allowed := false, retryAfterSec := b.retryAfter now }, b)
  else if estimatedTokens > 0 ∧ wrap32 (b.tokensCount + estimatedTokens) > b.tpmLimit then
    ({ r with allowed := false, retryAfterSec := b.retryAfter now }, b)
  else ({ r with allowed := true }, { b with requestsCount := wrap32 (b.requestsCount + 1) })

end Bucket

namespace RateLimiter

/-- `RateLimiter::get_bucket`. -/
def getBucket (cfg : RateLimitConfig) (now : Time) (apiKey : Str) (l : RateLimiter) : Bucket :=
  (l.buckets.lookup apiKey).getD (.fresh cfg now)

/-- `RateLimiter::check_request`. -/
def checkRequest (cfg : RateLimitConfig) (now : Time) (apiKey : Str) (estimatedTokens : ℤ)
    (l : RateLimiter) : RateLimitResult × RateLimiter :=
  let checked := ((l.getBucket cfg now apiKey).resetIfExpired now).check now estimatedTokens
  (checked.1, { buckets := l.buckets.insert apiKey checked.2 })

/-- `RateLimiter::record_tokens`. -/
def recordTokens (cfg : RateLimitConfig) (now : Time) (apiKey : Str) (tokens : ℤ)
    (l : RateLimiter) : RateLimiter :=
  let b := l.getBucket cfg now apiKey
  { buckets := l.buckets.insert apiKey
      { b with tokensCount := wrap32 (b.tokensCount + tokens) } }

/-- `RateLimiter::reset`. -/
def reset (apiKey : Str) (l : RateLimiter) : RateLimiter :=
  { buckets := l.buckets.erase apiKey }

end RateLimiter

end Gateway
