import LlmGateway.Lib.Interleaving
import LlmGateway.Exposition
import LlmGateway.ChatCompletions

/-!
# The operations of the singletons

`main` serves requests on several threads.  What the threads share are the
singletons, and every method of a singleton is atomic: it holds the singleton's
mutex, works on one atomic counter, or reads what nothing changes once the server
runs (the configuration and the registry).  `set_strategy`, and `get` and `put` of
a disabled cache, take no lock; here they are atomic as well.

A handler is a program over these operations.  A provider call is an operation
too: it leaves the singletons alone, and its answer comes from the network.  An
eviction loop that never ends shows as the answer `false` of `cachePut`.
-/

namespace Gateway

open Interleaving

/-- What an operation finds outside the program: the clock, the order in which
loops visit the hash maps, the sort, the draws of a key, and what the network
answers to each attempt of a provider call. -/
structure Moment where
  now : Time := 0
  walk : Traversal (Σ _ : Str, ProviderHealth) := .listed _
  sort : Descending Candidate Candidate.score := .stable _ _
  keys : Traversal (Σ _ : Str, VirtualKey) := .listed _
  registered : Traversal (Σ _ : Str, Provider) := .listed _
  draws : Draws := firstDraws
  upstream : Provider → ChatRequest → Nat → Exchange

/-- The atomic counters of `Metrics`. -/
inductive Counter where
  | requests
  | errors
  | cacheHits
  | cacheMisses
  | tokens
  deriving DecidableEq, Repr

/-- `load()` of a counter. -/
def Metrics.load (m : Metrics) : Counter → UInt64
  | .requests => m.totalRequests
  | .errors => m.totalErrors
  | .cacheHits => m.cacheHits
  | .cacheMisses => m.cacheMisses
  | .tokens => m.totalTokens

/-- The methods that the handlers call. -/
inductive Op where
  | count (call : MetricsCall)
  | load (counter : Counter)
  | latencies
  | clock
  | isAdmin (token : Str)
  | authenticate (bearerToken : Str)
  | createKey (owner tier : Str)
  | revokeKey (keyId : Str)
  | listKeys
  | checkRequest (apiKey : Str) (estimatedTokens : ℤ)
  | recordTokens (apiKey : Str) (tokens : ℤ)
  | cacheGet (req : ChatRequest)
  | cachePut (req : ChatRequest) (resp : ChatResponse)
  | cacheClear
  | cacheStats
  | route (req : ChatRequest)
  | reportSuccess (provider : Str) (latencyMs : Double)
  | reportFailure (provider : Str)
  | getHealth (provider : Str)
  | setStrategy (s : RoutingStrategy)
  | getProvider (name : Str)
  | availableProviders
  | callProvider (name : Str) (provider : Provider) (req : ChatRequest)
  | estimateCost (provider model : Str) (inputTokens estimatedOutputTokens : ℤ)
  | record (metrics : RequestMetrics)
  | getSummary

/-- What a method returns. -/
@[reducible] def Op.Res : Op → Type
  | .count _ | .recordTokens .. | .cacheClear | .reportSuccess .. | .reportFailure _
  | .setStrategy _ | .record _ => Unit
  | .load _ => UInt64
  | .latencies => List Double
  | .clock => Time
  | .isAdmin _ | .revokeKey _ | .cachePut .. => Bool
  | .authenticate _ => Option VirtualKey
  | .createKey .. => VirtualKey
  | .listKeys => List VirtualKey
  | .checkRequest .. => RateLimitResult
  | .cacheGet _ => Option ChatResponse
  | .cacheStats => CacheStats
  | .route _ => RouteDecision
  | .getHealth _ => ProviderHealth
  | .getProvider _ => Option Provider
  | .availableProviders => List Str
  | .callProvider .. => ChatOutcome
  | .estimateCost .. => Double
  | .getSummary => SpendSummary

/-- A program over the methods. -/
abbrev Program (α : Type) := Prog Op Op.Res α

/-- Call a method. -/
abbrev invoke (o : Op) : Program o.Res := Prog.perform o

/-- What a method answers, and the singletons after it. -/
def Op.exec (P : Platform) (e : Moment) : (o : Op) → Server → o.Res × Server
  | .count call, s => ((), { s with metrics := call.step s.metrics })
  | .load counter, s => (s.metrics.load counter, s)
  | .latencies, s => (s.metrics.latencies, s)
  | .clock, s => (e.now, s)
  | .isAdmin token, s => (AuthMiddleware.isAdmin s.config.server token, s)
  | .authenticate bearerToken, s => (s.auth.authenticate P e.now bearerToken, s)
  | .createKey owner tier, s =>
      let created := s.auth.createKey P e.now e.draws owner tier
      (created.1, { s with auth := created.2 })
  | .revokeKey keyId, s =>
      let revoked := s.auth.revokeKey e.keys keyId
      (revoked.1, { s with auth := revoked.2 })
  | .listKeys, s => (s.auth.listKeys e.keys, s)
  | .checkRequest apiKey estimatedTokens, s =>
      let checked := s.limiter.checkRequest s.config.rateLimit e.now apiKey estimatedTokens
      (checked.1, { s with limiter := checked.2 })
  | .recordTokens apiKey tokens, s =>
      ((), { s with limiter := s.limiter.recordTokens s.config.rateLimit e.now apiKey tokens })
  | .cacheGet req, s =>
      let got := s.cache.get P s.config.cache e.now req
      (got.1, { s with cache := got.2 })
  | .cachePut req resp, s =>
      match s.cache.put P s.config.cache e.now req resp with
      | none => (false, s)
      | some cache => (true, { s with cache := cache })
  | .cacheClear, s => ((), { s with cache := s.cache.clear })
  | .cacheStats, s => (s.cache.getStats, s)
  | .route req, s =>
      let routed := s.router.route e.walk e.sort s.config req
      (routed.1, { s with router := routed.2 })
  | .reportSuccess provider latencyMs, s =>
      ((), { s with router := s.router.reportSuccess e.now provider latencyMs })
  | .reportFailure provider, s =>
      ((), { s with router := s.router.reportFailure e.now provider })
  | .getHealth provider, s => (s.router.getHealth provider, s)
  | .setStrategy strategy, s => ((), { s with router := s.router.setStrategy strategy })
  | .getProvider name, s => (s.registry.get name, s)
  | .availableProviders, s => (s.registry.availableProviders e.registered, s)
  | .callProvider _ provider req, s => ((provider.chat (e.upstream provider req) req).outcome, s)
  | .estimateCost provider model inputTokens estimatedOutputTokens, s =>
      (s.costs.estimateCost provider model inputTokens estimatedOutputTokens, s)
  | .record metrics, s => ((), { s with costs := s.costs.record metrics })
  | .getSummary, s => (s.costs.getSummary [], s)

namespace Op

variable (P : Platform) (e : Moment) (o : Op) (s : Server)

/-! ## What each method leaves alone -/

/-- A write of the cache that hangs leaves every singleton as it was. -/
theorem exec_cachePut (req : ChatRequest) (resp : ChatResponse) :
    (cachePut req resp).exec P e s =
      match s.cache.put P s.config.cache e.now req resp with
      | none => (false, s)
      | some cache => (true, { s with cache := cache }) :=
  rfl

/-- Nothing changes the configuration. -/
theorem exec_config : (o.exec P e s).2.config = s.config := by
  cases o with
  | cachePut req resp =>
      rw [exec_cachePut]
      split <;> rfl
  | _ => rfl

/-- Nothing changes the registry. -/
theorem exec_registry : (o.exec P e s).2.registry = s.registry := by
  cases o with
  | cachePut req resp =>
      rw [exec_cachePut]
      split <;> rfl
  | _ => rfl

theorem exec_metrics : (o.exec P e s).2.metrics =
    match o with
    | count call => call.step s.metrics
    | _ => s.metrics := by
  cases o with
  | cachePut req resp =>
      rw [exec_cachePut]
      split <;> rfl
  | _ => rfl

theorem exec_costs : (o.exec P e s).2.costs =
    match o with
    | record metrics => s.costs.record metrics
    | _ => s.costs := by
  cases o with
  | cachePut req resp =>
      rw [exec_cachePut]
      split <;> rfl
  | _ => rfl

theorem exec_limiter : (o.exec P e s).2.limiter =
    match o with
    | checkRequest apiKey estimatedTokens =>
        (s.limiter.checkRequest s.config.rateLimit e.now apiKey estimatedTokens).2
    | recordTokens apiKey tokens =>
        s.limiter.recordTokens s.config.rateLimit e.now apiKey tokens
    | _ => s.limiter := by
  cases o with
  | cachePut req resp =>
      rw [exec_cachePut]
      split <;> rfl
  | _ => rfl

theorem exec_auth : (o.exec P e s).2.auth =
    match o with
    | createKey owner tier => (s.auth.createKey P e.now e.draws owner tier).2
    | revokeKey keyId => (s.auth.revokeKey e.keys keyId).2
    | _ => s.auth := by
  cases o with
  | cachePut req resp =>
      rw [exec_cachePut]
      split <;> rfl
  | _ => rfl

theorem exec_router : (o.exec P e s).2.router =
    match o with
    | route req => (s.router.route e.walk e.sort s.config req).2
    | reportSuccess provider latencyMs => s.router.reportSuccess e.now provider latencyMs
    | reportFailure provider => s.router.reportFailure e.now provider
    | setStrategy strategy => s.router.setStrategy strategy
    | _ => s.router := by
  cases o with
  | cachePut req resp =>
      rw [exec_cachePut]
      split <;> rfl
  | _ => rfl

theorem exec_cache : (o.exec P e s).2.cache =
    match o with
    | cacheGet req => (s.cache.get P s.config.cache e.now req).2
    | cachePut req resp => (s.cache.put P s.config.cache e.now req resp).getD s.cache
    | cacheClear => s.cache.clear
    | _ => s.cache := by
  cases o with
  | cachePut req resp =>
      rw [exec_cachePut]
      dsimp only
      cases s.cache.put P s.config.cache e.now req resp <;> rfl
  | _ => rfl

end Op

end Gateway
