import LlmGateway.Config

/-!
# The router

`src/router.cpp`: alias resolution, the five strategies and the health map they
read.  The health map is filled only by `reportSuccess` and `reportFailure`; a
provider that no call has reached has no record and counts as available.

A loop over the health map takes the order of its walk, and `route_smart` takes
the sort it is compiled with.
-/

namespace Gateway

/-- The state of `Router`. -/
structure Router where
  health : UnorderedMap Str ProviderHealth := ∅
  roundRobinIdx : BitVec 32 := 0
  strategy : RoutingStrategy := .smart

/-- `Candidate` of `route_smart`. -/
structure Candidate where
  provider : Str
  model : Str
  score : Double
  deriving DecidableEq, Repr

/-- The variables the cost and latency loops carry. -/
structure Best where
  provider : Str := []
  model : Str := []
  value : Double := 1000000000
  deriving DecidableEq, Repr

/-- `find(':')` and the two substrings around it. -/
def splitAtColon (s : Str) : Option (Str × Str) :=
  if byte ':' ∈ s then
    some (s.takeWhile (· ≠ byte ':'), (s.dropWhile (· ≠ byte ':')).drop 1)
  else none

/-- `Router::resolve_model_alias`. -/
def resolveModelAlias (cfg : GatewayConfig) (model : Str) : Str :=
  (cfg.modelAliases.lookup model).getD model

/-- The price of a model that the routing strategies compare. -/
def ModelPricing.rate [Rounding] (p : ModelPricing) : Double :=
  fl (p.inputCostPer1k + p.outputCostPer1k)

namespace Router

/-- The state `Router`'s constructor leaves behind. -/
def init (cfg : GatewayConfig) : Router := { strategy := cfg.defaultStrategy }

/-- Not marked unavailable: no health record, or one that says available. -/
def isAvailable (r : Router) (name : Str) : Bool :=
  match r.health.lookup name with
  | none => true
  | some h => h.available

/-- `Router::score_provider`.  The weight is multiplied as an `int`, which wraps. -/
def scoreProvider [Rounding] (cfg : GatewayConfig) (r : Router) (provider : Str) : Double :=
  let score : Double :=
    match r.health.lookup provider with
    | none => 100
    | some h =>
        let score := fl (100 - fl (h.errorRate * 50))
        let score := fl (score - min (fl (h.avgLatencyMs / 100)) 30)
        if h.available then score else fl (score - 1000)
  match cfg.providers.find? fun pc => pc.name = provider with
  | none => score
  | some pc => fl (score + wrap32 (pc.weight * 10))

/-- The inner loop of `route_cost_optimized`. -/
def cheapestModel [Rounding] (cfg : GatewayConfig) (pc : ProviderConfig) (best : Best) : Best :=
  pc.models.foldl (fun best model =>
    match cfg.pricing.lookup (pricingKey pc.name model) with
    | none => best
    | some price => if price.rate < best.value then ⟨pc.name, model, price.rate⟩ else best) best

/-- The first loop of `route_cost_optimized`. -/
def cheapest [Rounding] (cfg : GatewayConfig) (r : Router) : Best :=
  cfg.providers.foldl (fun best pc =>
    if !pc.enabled then best
    else if !r.isAvailable pc.name then best
    else cheapestModel cfg pc best) {}

/-- The first enabled entry with models, available or not. -/
def firstEntry (cfg : GatewayConfig) : Option ProviderConfig :=
  cfg.providers.find? fun pc => pc.enabled && !pc.models.isEmpty

/-- The second loop of `route_cost_optimized`, for a pair without a provider. -/
def orFirstEntry (cfg : GatewayConfig) (best : Best) : Best :=
  if best.provider.isEmpty then
    match firstEntry cfg with
    | none => best
    | some pc => { best with provider := pc.name, model := pc.models.headD [] }
  else best

/-- `Router::route_cost_optimized`. -/
def routeCostOptimized [Rounding] (cfg : GatewayConfig) (r : Router) : RouteDecision :=
  let best := orFirstEntry cfg (r.cheapest cfg)
  ⟨best.provider, best.model, .costOptimized, best.value, []⟩

/-- The latency `route_latency_optimized` compares: 500 ms without a record. -/
def latencyOf (r : Router) (name : Str) : Double :=
  match r.health.lookup name with
  | none => 500
  | some h => h.avgLatencyMs

/-- The loop of `route_latency_optimized`. -/
def fastest (cfg : GatewayConfig) (r : Router) : Best :=
  cfg.providers.foldl (fun best pc =>
    if !pc.enabled then best
    else if !r.isAvailable pc.name then best
    else if r.latencyOf pc.name < best.value ∧ !pc.models.isEmpty then
      ⟨pc.name, pc.models.headD [], r.latencyOf pc.name⟩
    else best) {}

/-- `Router::route_latency_optimized`. -/
def routeLatencyOptimized (cfg : GatewayConfig) (r : Router) : RouteDecision :=
  ⟨(r.fastest cfg).provider, (r.fastest cfg).model, .latencyOptimized, 0, []⟩

/-- The entries that `route_round_robin` and `route_failover` consider. -/
def usable (cfg : GatewayConfig) (r : Router) : List ProviderConfig :=
  cfg.providers.filter fun pc => pc.enabled && !pc.models.isEmpty && r.isAvailable pc.name

/-- The counter converted to `size_t`, modulo the length of the list. -/
def roundRobinIndex (counter : BitVec 32) (n : Nat) : Nat := (counter.signExtend 64).toNat % n

theorem roundRobinIndex_lt (counter : BitVec 32) {n : Nat} (hn : 0 < n) :
    roundRobinIndex counter n < n := Nat.mod_lt _ hn

/-- `Router::route_round_robin`. -/
def routeRoundRobin (cfg : GatewayConfig) (r : Router) : RouteDecision × Router :=
  if h : 0 < (r.usable cfg).length then
    let pc := (r.usable cfg).get ⟨_, roundRobinIndex_lt r.roundRobinIdx h⟩
    (⟨pc.name, pc.models.headD [], .roundRobin, 0, []⟩,
      { r with roundRobinIdx := r.roundRobinIdx + 1 })
  else (⟨[], [], .roundRobin, 0, []⟩, r)

/-- `Router::route_failover`: the model is that of the first entry of the
primary's name with models, enabled or not. -/
def routeFailover (cfg : GatewayConfig) (r : Router) : RouteDecision :=
  match (r.usable cfg).map ProviderConfig.name with
  | [] => ⟨[], [], .failover, 0, []⟩
  | primary :: chain =>
      let model :=
        match cfg.providers.find? fun pc => pc.name = primary ∧ !pc.models.isEmpty with
        | none => []
        | some pc => pc.models.headD []
      ⟨primary, model, .failover, 0, chain⟩

/-- The score of a candidate: that of its provider, less a hundred times the rate
of a priced model. -/
def candidateScore [Rounding] (cfg : GatewayConfig) (r : Router) (provider model : Str) :
    Double :=
  match cfg.pricing.lookup (pricingKey provider model) with
  | none => r.scoreProvider cfg provider
  | some price => fl (r.scoreProvider cfg provider - fl (price.rate * 100))

/-- The candidates of `route_smart`, in the order the loops push them. -/
def candidates [Rounding] (cfg : GatewayConfig) (r : Router) : List Candidate :=
  cfg.providers.flatMap fun pc =>
    if !pc.enabled then []
    else if !r.isAvailable pc.name then []
    else pc.models.map fun model => ⟨pc.name, model, r.candidateScore cfg pc.name model⟩

/-- `Router::route_smart`. -/
def routeSmart [Rounding] (sort : Descending Candidate Candidate.score) (cfg : GatewayConfig)
    (r : Router) : RouteDecision :=
  match sort.sort (r.candidates cfg) with
  | [] => ⟨[], [], .smart, 0, []⟩
  | best :: others =>
      ⟨best.provider, best.model, .smart, 0, (others.take 3).map Candidate.provider⟩

/-- `Router::route`. -/
def route [Rounding] (walk : Traversal (Σ _ : Str, ProviderHealth))
    (sort : Descending Candidate Candidate.score) (cfg : GatewayConfig) (req : ChatRequest)
    (r : Router) : RouteDecision × Router :=
  match splitAtColon (resolveModelAlias cfg req.model) with
  | some (provider, model) =>
      let fallbacks := (walk.order r.health.entries).filterMap fun e =>
        if e.1 ≠ provider ∧ e.2.available then some e.1 else none
      (⟨provider, model, r.strategy, 0, fallbacks⟩, r)
  | none =>
      match r.strategy with
      | .costOptimized => (routeCostOptimized cfg r, r)
      | .latencyOptimized => (routeLatencyOptimized cfg r, r)
      | .roundRobin => routeRoundRobin cfg r
      | .failover => (routeFailover cfg r, r)
      | .smart => (routeSmart sort cfg r, r)

/-- The record a report updates; a missing one starts from the defaults. -/
def healthRecord (r : Router) (provider : Str) : ProviderHealth :=
  (r.health.lookup provider).getD {}

/-- `Router::report_success`. -/
def reportSuccess (now : Time) (provider : Str) (latencyMs : Double) (r : Router) : Router :=
  let h := r.healthRecord provider
  { r with health := r.health.insert provider { h with
      name := provider
      available := true
      requestsLastMinute := wrap32 (h.requestsLastMinute + 1)
      lastSuccess := now
      avgLatencyMs :=
        if h.avgLatencyMs = 0 then latencyMs else h.avgLatencyMs * 0.9 + latencyMs * 0.1
      errorRate := h.errorRate * 0.95 } }

/-- `Router::report_failure`. -/
def reportFailure (now : Time) (provider : Str) (r : Router) : Router :=
  let h := r.healthRecord provider
  { r with health := r.health.insert provider { h with
      name := provider
      errorsLastMinute := wrap32 (h.errorsLastMinute + 1)
      lastError := now
      errorRate := min 1 (h.errorRate + 0.1)
      available := h.available && !(min 1 (h.errorRate + 0.1) > (0.5 : Double)) } }

/-- `Router::get_health`. -/
def getHealth (provider : Str) (r : Router) : ProviderHealth :=
  (r.health.lookup provider).getD { name := provider }

/-- `Router::set_strategy`. -/
def setStrategy (s : RoutingStrategy) (r : Router) : Router := { r with strategy := s }

end Router

end Gateway
