import LlmGateway.LatencyWindow
import LlmGateway.Json
import LlmGateway.Lib.Decimals

/-!
# The exposition of the metrics

`Metrics::to_json` and `Metrics::to_prometheus`.  The text format prints the
counters as integers and the gauges as `std::ostream` prints a `double`: six
significant digits in the general notation, without trailing zeros.
-/

namespace Gateway

/-- `operator<<` of a `double`, at the default precision of six digits. -/
def streamDouble (x : Double) : Str := Decimals.general roundHalfEven 5 x

namespace Metrics

/-- `(hits + misses) > 0 ? (double) hits / (hits + misses) : 0.0`; the sum of the
counters is one of 64 bits. -/
def hitRate (hits misses : UInt64) : Double :=
  if hits + misses > 0 then (hits.toNat : Double) / (hits + misses).toNat else 0

/-- `Metrics::to_json` of a snapshot. -/
def toJson (s : Snapshot) : Json :=
  .object
    [(str "total_requests", .integer s.totalRequests.toNat),
     (str "total_errors", .integer s.totalErrors.toNat),
     (str "cache_hits", .integer s.cacheHits.toNat),
     (str "cache_misses", .integer s.cacheMisses.toNat),
     (str "avg_latency_ms", .float s.avgLatencyMs),
     (str "p99_latency_ms", .float s.p99LatencyMs),
     (str "total_tokens", .integer s.totalTokens.toNat),
     (str "uptime_seconds", .float s.uptimeSeconds),
     (str "cache_hit_rate", .float (hitRate s.cacheHits s.cacheMisses))]

/-- The help line, the type line and the sample of one metric. -/
def family (name kind help value : Str) : Str :=
  str "# HELP " ++ name ++ str " " ++ help ++ str "\n" ++
    (str "# TYPE " ++ name ++ str " " ++ kind ++ str "\n") ++
    (name ++ str " " ++ value ++ str "\n")

/-- The metrics of a snapshot in the order they are printed: name, kind, help and
printed value. -/
def families (s : Snapshot) : List (Str × Str × Str × Str) :=
  [(str "llm_gateway_requests_total", str "counter", str "Total requests",
      toStringNat s.totalRequests.toNat),
   (str "llm_gateway_errors_total", str "counter", str "Total errors",
      toStringNat s.totalErrors.toNat),
   (str "llm_gateway_cache_hits_total", str "counter", str "Cache hits",
      toStringNat s.cacheHits.toNat),
   (str "llm_gateway_cache_misses_total", str "counter", str "Cache misses",
      toStringNat s.cacheMisses.toNat),
   (str "llm_gateway_latency_avg_ms", str "gauge", str "Average latency in ms",
      streamDouble s.avgLatencyMs),
   (str "llm_gateway_latency_p99_ms", str "gauge", str "P99 latency in ms",
      streamDouble s.p99LatencyMs),
   (str "llm_gateway_tokens_total", str "counter", str "Total tokens processed",
      toStringNat s.totalTokens.toNat),
   (str "llm_gateway_uptime_seconds", str "gauge", str "Uptime",
      streamDouble s.uptimeSeconds)]

/-- `Metrics::to_prometheus` of a snapshot: an empty line between the metrics. -/
def toPrometheus (s : Snapshot) : Str :=
  ((families s).map fun f => family f.1 f.2.1 f.2.2.1 f.2.2.2).intersperse (str "\n") |>.flatten

end Metrics

end Gateway
