import LlmGateway.Json

/-!
# Core types

The records of `include/types.h`.  `received_at` of a request and its `extra`
parameters are left out: no modelled function reads them.
-/

namespace Gateway

/-- `Message`. -/
structure Message where
  role : Str
  content : Str
  deriving DecidableEq, Repr

/-- `ChatRequest`. -/
structure ChatRequest where
  requestId : Str := []
  apiKey : Str := []
  model : Str := []
  messages : List Message := []
  temperature : Double := 0.7
  maxTokens : ℤ := 1024
  stream : Bool := false
  user : Option Str := none
  deriving DecidableEq, Repr

/-- `ChatResponse`. -/
structure ChatResponse where
  requestId : Str := []
  model : Str := []
  provider : Str := []
  content : Str := []
  promptTokens : ℤ := 0
  completionTokens : ℤ := 0
  totalTokens : ℤ := 0
  latencyMs : Double := 0
  costUsd : Double := 0
  fromCache : Bool := false
  rawResponse : Json := .null

/-- `ProviderHealth`. -/
structure ProviderHealth where
  name : Str := []
  available : Bool := true
  avgLatencyMs : Double := 0
  errorRate : Double := 0
  requestsLastMinute : ℤ := 0
  errorsLastMinute : ℤ := 0
  lastSuccess : Time := 0
  lastError : Time := 0
  deriving DecidableEq, Repr

/-- `RoutingStrategy`. -/
inductive RoutingStrategy where
  | costOptimized
  | latencyOptimized
  | roundRobin
  | failover
  | smart
  deriving DecidableEq, Repr

/-- `strategy_to_string`. -/
def strategyToString : RoutingStrategy → Str
  | .costOptimized => str "cost"
  | .latencyOptimized => str "latency"
  | .roundRobin => str "round_robin"
  | .failover => str "failover"
  | .smart => str "smart"

/-- `RouteDecision`. -/
structure RouteDecision where
  provider : Str
  model : Str
  strategyUsed : RoutingStrategy
  estimatedCost : Double := 0
  fallbackChain : List Str := []
  deriving DecidableEq, Repr

/-- `VirtualKey`. -/
structure VirtualKey where
  keyId : Str := []
  keyHash : Str := []
  owner : Str := []
  tier : Str := str "free"
  rateLimitRpm : ℤ := 60
  rateLimitTpm : ℤ := 100000
  budgetUsd : Double := 0
  spentUsd : Double := 0
  active : Bool := true
  allowedModels : List Str := []
  createdAt : Time := 0
  expiresAt : Time := 0
  deriving DecidableEq, Repr

/-- `ModelPricing`. -/
structure ModelPricing where
  provider : Str
  model : Str
  inputCostPer1k : Double := 0
  outputCostPer1k : Double := 0
  deriving DecidableEq, Repr

/-- `RequestMetrics`. -/
structure RequestMetrics where
  requestId : Str := []
  apiKey : Str := []
  provider : Str := []
  model : Str := []
  promptTokens : ℤ := 0
  completionTokens : ℤ := 0
  latencyMs : Double := 0
  costUsd : Double := 0
  cacheHit : Bool := false
  success : Bool := true
  errorMessage : Str := []
  timestamp : Time := 0
  deriving DecidableEq, Repr

end Gateway
