import LlmGateway.Platform

/-!
# Metrics

`src/utils/metrics.cpp`: the request counters, the latency window and the
snapshot that is read out of them.
-/

namespace Gateway

/-- The state of `Metrics`. -/
structure Metrics where
  totalRequests : UInt64 := 0
  totalErrors : UInt64 := 0
  cacheHits : UInt64 := 0
  cacheMisses : UInt64 := 0
  totalTokens : UInt64 := 0
  latencies : List Double := []
  deriving DecidableEq

namespace Metrics

/-- `Metrics::inc_requests`. -/
def incRequests (m : Metrics) : Metrics := { m with totalRequests := m.totalRequests + 1 }

/-- `Metrics::inc_errors`. -/
def incErrors (m : Metrics) : Metrics := { m with totalErrors := m.totalErrors + 1 }

/-- `Metrics::inc_cache_hits`. -/
def incCacheHits (m : Metrics) : Metrics := { m with cacheHits := m.cacheHits + 1 }

/-- `Metrics::inc_cache_misses`. -/
def incCacheMisses (m : Metrics) : Metrics := { m with cacheMisses := m.cacheMisses + 1 }

/-- `Metrics::observe_latency`: a window that outgrows ten thousand loses its
older half. -/
def observeLatency (ms : Double) (m : Metrics) : Metrics :=
  let latencies := m.latencies ++ [ms]
  { m with latencies := if latencies.length > 10000 then latencies.drop 5000 else latencies }

/-- `Metrics::observe_tokens`. -/
def observeTokens (count : ℤ) (m : Metrics) : Metrics :=
  { m with totalTokens := m.totalTokens + UInt64.ofInt count }

/-- `Metrics::Snapshot`. -/
structure Snapshot where
  totalRequests : UInt64 := 0
  totalErrors : UInt64 := 0
  cacheHits : UInt64 := 0
  cacheMisses : UInt64 := 0
  avgLatencyMs : Double := 0
  p99LatencyMs : Double := 0
  totalTokens : UInt64 := 0
  uptimeSeconds : Double := 0
  deriving DecidableEq, Repr

/-- `std::sort` of a copy; numbers are in ascending order in one way only. -/
def ascending (latencies : List Double) : List Double := latencies.insertionSort (· ≤ ·)

/-- `p99_idx`, truncated to a `size_t`. -/
def p99Idx (size : Nat) : Nat := ((size : Double) * 0.99).floor.toNat

/-- `Metrics::snapshot`, given `start_time_`, which nothing changes after the
constructor. -/
def snapshot (startTime now : Time) (m : Metrics) : Snapshot :=
  let s : Snapshot :=
    { totalRequests := m.totalRequests
      totalErrors := m.totalErrors
      cacheHits := m.cacheHits
      cacheMisses := m.cacheMisses
      totalTokens := m.totalTokens
      uptimeSeconds := ((now - startTime : ℤ) : Double) / 1000000000 }
  if m.latencies.isEmpty then s
  else
    let sum := m.latencies.foldl (· + ·) 0
    let sorted := ascending m.latencies
    { s with
      avgLatencyMs := sum / m.latencies.length
      p99LatencyMs := sorted.getD (min (p99Idx sorted.length) (sorted.length - 1)) 0 }

end Metrics

end Gateway
