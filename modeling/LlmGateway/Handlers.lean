import LlmGateway.Operations

/-!
# The handlers as programs

`src/api/`: every endpoint as a program over the methods of the singletons, which
it calls in the order of the source.  What a handler computes between two calls is
its own.

The completion endpoints have one definition for each step, named as the functions
that handle a request without others next to it.
-/

namespace Gateway

open Interleaving Prog

/-- What a client gets: a reply, or the text page of `/metrics`. -/
inductive Answer where
  | of (reply : Reply)
  | page (status : ℤ) (headers : List (Str × Str)) (text : Str)

def jsonResponse (status : ℤ) (body : Json) : Response :=
  { status := status, headers := [jsonHeader], body := body }

namespace Handler

/-! ## `/v1/chat/completions` -/

/-- The loop over the fallback chain. -/
def tryFallbacks (req : ChatRequest) : List Str → Program CallEnd
  | [] => return .failed
  | fbName :: chain => do
      let fb : Option Provider ← invoke (.getProvider fbName)
      match fb with
      | none => tryFallbacks req chain
      | some fb =>
          match fb.kind.supportedModels with
          | [] => tryFallbacks req chain
          | model :: _ => do
              let outcome : ChatOutcome ←
                invoke (.callProvider fbName fb { req with model := model })
              match outcome with
              | .answered resp => do
                  invoke (.reportSuccess fbName resp.latencyMs)
                  return .answered { resp with provider := fbName }
              | .threw _ => do
                  invoke (.reportFailure fbName)
                  tryFallbacks req chain
              | .nullException => return .crashed

/-- Step 6: the primary with the routed model, then the fallbacks. -/
def callProviders (req : ChatRequest) (decision : RouteDecision) (provider : Provider) :
    Program CallEnd := do
  let outcome : ChatOutcome ←
    invoke (.callProvider decision.provider provider { req with model := decision.model })
  match outcome with
  | .answered resp => do
      invoke (.reportSuccess decision.provider resp.latencyMs)
      return .answered resp
  | .threw _ => do
      invoke (.reportFailure decision.provider)
      tryFallbacks req decision.fallbackChain
  | .nullException => return .crashed

/-- The tokens of a request with a key. -/
def recordUsage (req : ChatRequest) (resp : ChatResponse) : Program Unit :=
  if req.apiKey.isEmpty then return ()
  else invoke (.recordTokens req.apiKey resp.totalTokens)

/-- Steps 7 to 9, after a provider answered. -/
def settle (req : ChatRequest) (decision : RouteDecision) (resp : ChatResponse) :
    Program Reply := do
  let cost : Double ← invoke
    (.estimateCost resp.provider resp.model resp.promptTokens resp.completionTokens)
  let resp : ChatResponse := { resp with costUsd := cost, requestId := req.requestId }
  let now : Time ← invoke .clock
  invoke (.record (metricsOf now req resp))
  recordUsage req resp
  invoke (.count (.observeLatency resp.latencyMs))
  invoke (.count (.observeTokens resp.totalTokens))
  let stored : Bool ← invoke (.cachePut req resp)
  if stored then return .response (missResponse req.requestId resp decision)
  else return .hangs

/-- An error reply that is counted. -/
def refuse (resp : Response) : Program Reply := do
  invoke (.count .incErrors)
  return .response resp

/-- Step 6 and what follows. -/
def callStep (req : ChatRequest) (decision : RouteDecision) (provider : Provider) :
    Program Reply := do
  let finish ← callProviders req decision provider
  match finish with
  | .answered resp => settle req decision resp
  | .failed => refuse (makeError 502 (str "All providers failed for model: " ++ req.model))
  | .crashed => return .crashes

/-- Step 5 and what follows. -/
def routeStep (req : ChatRequest) : Program Reply := do
  let decision : RouteDecision ← invoke (.route req)
  if decision.provider.isEmpty then
    refuse (makeError 503 (str "No available providers for model: " ++ req.model))
  else do
    let provider : Option Provider ← invoke (.getProvider decision.provider)
    match provider with
    | none => refuse (makeError 503 (str "Provider not available: " ++ decision.provider))
    | some provider => callStep req decision provider

/-- Step 4 and what follows. -/
def cacheStep (req : ChatRequest) : Program Reply := do
  let cached : Option ChatResponse ← invoke (.cacheGet req)
  match cached with
  | some cached => do
      invoke (.count .incCacheHits)
      return .response (hitResponse req.requestId cached)
  | none => do
      invoke (.count .incCacheMisses)
      routeStep req

/-- Steps 2 and 3 and what follows.  What `authenticate` finds only decides a
debug line. -/
def limitStep (P : Platform) (req : ChatRequest) : Program Reply :=
  if req.apiKey.isEmpty then cacheStep req
  else do
    let _keyInfo : Option VirtualKey ← invoke (.authenticate req.apiKey)
    let checked : RateLimitResult ← invoke
      (.checkRequest req.apiKey (TokenCounter.countMessages P req.messages))
    if !checked.allowed then return .response (throttled checked)
    else cacheStep req

/-- The handler of `/v1/chat/completions`, for a drawn request id. -/
def chatCompletions (P : Platform) (draw : UInt64) (http : HttpRequest) : Program Reply := do
  invoke (.count .incRequests)
  match http.body with
  | none => return .response (makeError 400 (str "Invalid JSON body"))
  | some body =>
      match readRequest (generateRequestId draw) body with
      | .error e => return .escaped e
      | .ok none =>
          return .response
            (makeError 400 (str "messages is required and must be a non-empty array"))
      | .ok (some req) => limitStep P { req with apiKey := http.authorization }

/-! ## `/chat` -/

/-- The provider call of `/chat`. -/
def legacyCall (req : ChatRequest) (decision : RouteDecision) (provider : Provider) :
    Program Reply := do
  let outcome : ChatOutcome ←
    invoke (.callProvider decision.provider provider { req with model := decision.model })
  match outcome with
  | .threw e => return .response (makeError 502 e.what)
  | .nullException => return .crashes
  | .answered resp => do
      let stored : Bool ← invoke (.cachePut req resp)
      if stored then
        return .response (legacyResponse
          [(str "response", .string resp.content),
           (str "provider", .string resp.provider),
           (str "model", .string resp.model),
           (str "cached", .boolean false)])
      else return .hangs

/-- Routing in `/chat`. -/
def legacyRoute (req : ChatRequest) : Program Reply := do
  let decision : RouteDecision ← invoke (.route req)
  let provider : Option Provider ← invoke (.getProvider decision.provider)
  match provider with
  | none => return .response (makeError 503 (str "No providers available"))
  | some provider => legacyCall req decision provider

/-- The cache lookup of `/chat`. -/
def legacyCache (req : ChatRequest) : Program Reply := do
  let cached : Option ChatResponse ← invoke (.cacheGet req)
  match cached with
  | some cached =>
      return .response (legacyResponse
        [(str "response", .string cached.content), (str "cached", .boolean true)])
  | none => legacyRoute req

/-- The handler of `/chat`. -/
def chat (draw : UInt64) (http : HttpRequest) : Program Reply :=
  match http.body with
  | none => return .response (makeError 400 (str "Invalid JSON"))
  | some body =>
      match body.value Json.getString (str "prompt") [] with
      | .error e => return .escaped e
      | .ok prompt =>
          if prompt.isEmpty then return .response (makeError 400 (str "prompt is required"))
          else legacyCache (legacyRequest (generateRequestId draw) prompt)

/-! ## `src/api/admin.cpp` -/

/-- `admin_error`. -/
def adminError (msg : Str) : Response := jsonResponse 403 (.object [(str "error", .string msg)])

/-- The check that opens every admin handler. -/
def asAdmin (http : HttpRequest) (p : Program Reply) : Program Reply := do
  let admin : Bool ← invoke (.isAdmin http.authorization)
  if !admin then return .response (adminError (str "Admin key required")) else p

/-- The handlers that read a body, after the outcome of `json::parse`. -/
def withBody (http : HttpRequest) (p : Json → Program Reply) : Program Reply :=
  match http.body with
  | none => return .response (jsonResponse 400 (.object [(str "error", .string (str "Invalid JSON"))]))
  | some body => p body

/-- What `POST /admin/keys` reads. -/
def readOwner (body : Json) : Except Exn (Str × Str) := do
  let owner ← body.value Json.getString (str "owner") (str "anonymous")
  let tier ← body.value Json.getString (str "tier") (str "free")
  .ok (owner, tier)

/-- The answer that hands a new key over. -/
def createdKey (key : VirtualKey) : Response :=
  jsonResponse 201 (.object
    [(str "key_id", .string key.keyId),
     (str "api_key", .string key.keyHash),
     (str "owner", .string key.owner),
     (str "tier", .string key.tier),
     (str "rate_limit_rpm", .integer key.rateLimitRpm),
     (str "rate_limit_tpm", .integer key.rateLimitTpm),
     (str "budget_usd", .float key.budgetUsd),
     (str "message", .string (str "Save this API key - it will not be shown again"))])

/-- `POST /admin/keys`. -/
def createKey (http : HttpRequest) : Program Reply :=
  asAdmin http <| withBody http fun body =>
    match readOwner body with
    | .error e => return .escaped e
    | .ok (owner, tier) => do
        let key : VirtualKey ← invoke (.createKey owner tier)
        return .response (createdKey key)

/-- `GET /admin/keys`. -/
def listKeys (http : HttpRequest) : Program Reply :=
  asAdmin http do
    let keys : List VirtualKey ← invoke .listKeys
    return .response (jsonResponse 200 (.array (keys.map fun k => .object
      [(str "key_id", .string k.keyId),
       (str "owner", .string k.owner),
       (str "tier", .string k.tier),
       (str "active", .boolean k.active),
       (str "rate_limit_rpm", .integer k.rateLimitRpm),
       (str "spent_usd", .float k.spentUsd)])))

/-- `DELETE /admin/keys/<string>`. -/
def revokeKey (http : HttpRequest) (keyId : Str) : Program Reply :=
  asAdmin http do
    let ok : Bool ← invoke (.revokeKey keyId)
    return .response (jsonResponse (if ok then 200 else 404)
      (.object [(str "revoked", .boolean ok), (str "key_id", .string keyId)]))

/-- The strategy a name stands for; any other name is `smart`. -/
def strategyNamed (name : Str) : RoutingStrategy :=
  if name = str "cost" then .costOptimized
  else if name = str "latency" then .latencyOptimized
  else if name = str "round_robin" then .roundRobin
  else if name = str "failover" then .failover
  else .smart

/-- `POST /admin/routing`. -/
def setRouting (http : HttpRequest) : Program Reply :=
  asAdmin http <| withBody http fun body =>
    match body.value Json.getString (str "strategy") (str "smart") with
    | .error e => return .escaped e
    | .ok name => do
        invoke (.setStrategy (strategyNamed name))
        return .response (jsonResponse 200
          (.object [(str "strategy", .string (strategyToString (strategyNamed name)))]))

/-- `DELETE /admin/cache`. -/
def clearCache (http : HttpRequest) : Program Reply :=
  asAdmin http do
    invoke .cacheClear
    return .response (jsonResponse 200 (.object [(str "cleared", .boolean true)]))

/-- A map of amounts as an object. -/
def amounts (tally : UnorderedMap Str Double) : Json :=
  .object (tally.entries.map fun e => (e.1, .float e.2))

/-- `/admin/costs`. -/
def costs (http : HttpRequest) : Program Reply :=
  asAdmin http do
    let summary : SpendSummary ← invoke .getSummary
    return .response (jsonResponse 200 (.object
      [(str "total_usd", .float summary.totalUsd),
       (str "cache_savings_usd", .float summary.cacheSavingsUsd),
       (str "total_requests", .integer summary.totalRequests),
       (str "cached_requests", .integer summary.cachedRequests),
       (str "by_provider", amounts summary.byProvider),
       (str "by_model", amounts summary.byModel)]))

/-! ## `src/api/health.cpp` -/

/-- The loop over the providers that shows the health of each. -/
def providersHealth (fields : ProviderHealth → List (Str × Json)) :
    List Str → Program (List (Str × Json))
  | [] => return []
  | name :: names => do
      let health : ProviderHealth ← invoke (.getHealth name)
      let rest ← providersHealth fields names
      return (name, .object (fields health)) :: rest

/-- What `/health` shows of a provider. -/
def healthFields (health : ProviderHealth) : List (Str × Json) :=
  [(str "available", .boolean health.available),
   (str "avg_latency_ms", .float health.avgLatencyMs),
   (str "error_rate", .float health.errorRate)]

/-- What `/v1/stats` shows of a provider. -/
def statsFields (health : ProviderHealth) : List (Str × Json) :=
  healthFields health ++
    [(str "requests_last_minute", .integer health.requestsLastMinute),
     (str "errors_last_minute", .integer health.errorsLastMinute)]

/-- `/health`. -/
def health : Program Reply := do
  let names : List Str ← invoke .availableProviders
  let providers ← providersHealth healthFields names
  return .response (jsonResponse 200 (.object
    [(str "status", .string (str "ok")),
     (str "version", .string (str "1.0.0")),
     (str "providers", .object providers)]))

/-- `Metrics::snapshot`: the counters are read one after another. -/
def snapshot (startTime : Time) : Program Metrics.Snapshot := do
  let totalRequests : UInt64 ← invoke (.load .requests)
  let totalErrors : UInt64 ← invoke (.load .errors)
  let cacheHits : UInt64 ← invoke (.load .cacheHits)
  let cacheMisses : UInt64 ← invoke (.load .cacheMisses)
  let totalTokens : UInt64 ← invoke (.load .tokens)
  let now : Time ← invoke .clock
  let latencies : List Double ← invoke .latencies
  let seen : Metrics :=
    { totalRequests := totalRequests, totalErrors := totalErrors, cacheHits := cacheHits,
      cacheMisses := cacheMisses, totalTokens := totalTokens, latencies := latencies }
  return seen.snapshot startTime now

/-- `/metrics`. -/
def metrics (startTime : Time) : Program Answer := do
  let s ← snapshot startTime
  return .page 200 [(str "Content-Type", str "text/plain; version=0.0.4; charset=utf-8")]
    (Metrics.toPrometheus s)

/-- The `cache` section of `/v1/stats`. -/
def cacheSection (stats : CacheStats) : Json :=
  .object
    [(str "entries", .integer stats.entries),
     (str "max_size", .integer stats.maxSize),
     (str "hits", .integer stats.hits.toNat),
     (str "misses", .integer stats.misses.toNat),
     (str "evictions", .integer stats.evictions.toNat),
     (str "hit_rate", .float (Metrics.hitRate stats.hits stats.misses)),
     (str "savings_usd", .float stats.savingsUsd)]

/-- `/v1/stats`. -/
def stats (startTime : Time) : Program Reply := do
  let cacheStats : CacheStats ← invoke .cacheStats
  let s ← snapshot startTime
  let names : List Str ← invoke .availableProviders
  let providers ← providersHealth statsFields names
  return .response (jsonResponse 200 (.object
    [(str "metrics", Metrics.toJson s),
     (str "cache", cacheSection cacheStats),
     (str "providers", .object providers)]))

/-- The entry of one model in the list. -/
def modelEntry (owner model : Str) : Json :=
  .object
    [(str "id", .string model),
     (str "object", .string (str "model")),
     (str "owned_by", .string owner),
     (str "created", .integer 0)]

/-- The loops of `/v1/models`. -/
def listModels : List Str → Program (List Json)
  | [] => return []
  | name :: names => do
      let provider : Option Provider ← invoke (.getProvider name)
      let rest ← listModels names
      match provider with
      | none => return rest
      | some provider => return provider.kind.supportedModels.map (modelEntry name) ++ rest

/-- `/v1/models`. -/
def models : Program Reply := do
  let names : List Str ← invoke .availableProviders
  let entries ← listModels names
  return .response (jsonResponse 200
    (.object [(str "object", .string (str "list")), (str "data", .array entries)]))

end Handler

/-- A request to one of the endpoints; the completion endpoints draw an id for it. -/
inductive Request where
  | completions (draw : UInt64) (http : HttpRequest)
  | chat (draw : UInt64) (http : HttpRequest)
  | createKey (http : HttpRequest)
  | listKeys (http : HttpRequest)
  | revokeKey (http : HttpRequest) (keyId : Str)
  | setRouting (http : HttpRequest)
  | clearCache (http : HttpRequest)
  | costs (http : HttpRequest)
  | health
  | metrics
  | stats
  | models

/-- The program that serves a request, on a server whose metrics started at
`startTime`. -/
def Request.handler (P : Platform) (startTime : Time) : Request → Program Answer
  | completions draw http => .of <$> Handler.chatCompletions P draw http
  | chat draw http => .of <$> Handler.chat draw http
  | createKey http => .of <$> Handler.createKey http
  | listKeys http => .of <$> Handler.listKeys http
  | revokeKey http keyId => .of <$> Handler.revokeKey http keyId
  | setRouting http => .of <$> Handler.setRouting http
  | clearCache http => .of <$> Handler.clearCache http
  | costs http => .of <$> Handler.costs http
  | health => .of <$> Handler.health
  | metrics => Handler.metrics startTime
  | stats => .of <$> Handler.stats startTime
  | models => .of <$> Handler.models

/-- The server while it handles requests: one thread for each of them, and the
singletons they share. -/
abbrev Service (ι : Type) := Pool ι Moment Op Op.Res Answer Server

/-- The requests at the start, on a server. -/
def Service.start {ι : Type} (P : Platform) (startTime : Time) (s : Server)
    (requests : ι → Request) : Service ι :=
  { shared := s, threads := fun i => (requests i).handler P startTime }

/-- The service after the turns of a schedule. -/
def Service.after {ι : Type} [DecidableEq ι] (P : Platform) (startTime : Time) (s : Server)
    (requests : ι → Request) (sched : List (ι × Moment)) : Service ι :=
  (Service.start P startTime s requests).run (Op.exec P) sched

/-- A schedule of the service is a sequence of calls on the singletons, in which each
thread runs the handler of its request. -/
theorem Service.explained {ι : Type} [DecidableEq ι] (P : Platform) (startTime : Time) (s : Server)
    (requests : ι → Request) (sched : List (ι × Moment)) :
    Explained (Op.exec P) s (fun i => (requests i).handler P startTime)
      (Service.after P startTime s requests sched) :=
  explained_run (Op.exec P) s _ sched

end Gateway
