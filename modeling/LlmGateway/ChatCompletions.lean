import LlmGateway.TokenCounter
import LlmGateway.Cache
import LlmGateway.Auth
import LlmGateway.Providers
import LlmGateway.Router
import LlmGateway.RateLimiter
import LlmGateway.CostTracker
import LlmGateway.Metrics

/-!
# The completion endpoints

`src/api/chat_completions.cpp`: the handlers of `/v1/chat/completions` and
`/chat`, one definition for each numbered step of the source, and runs of
requests handled one after another.

Everything a request meets outside the program is its `World`.  What a request
leaves behind is the reply, the provider calls it made, what it passed to the
cost tracker, and the state of the singletons.  A handler that never returns
(`hangs`) or ends the process (`crashes`) ends the run.
-/

namespace Gateway

/-- The singletons. -/
structure Server where
  config : GatewayConfig
  registry : ProviderRegistry := {}
  router : Router := {}
  cache : Cache := {}
  costs : CostTracker := {}
  auth : AuthMiddleware := {}
  limiter : RateLimiter := {}
  metrics : Metrics := {}

/-- The singletons as `main` leaves them when it starts to serve. -/
def Server.init (cfg : GatewayConfig) : Server where
  config := cfg
  registry := ProviderRegistry.initializeFrom cfg.providers {}
  router := .init cfg
  cache := .init cfg.cache
  costs := .init cfg

/-- The request header and the outcome of `json::parse` on the body. -/
structure HttpRequest where
  authorization : Str := []
  body : Option Json

/-- Outside the program: the clock before and after the provider calls, the
random request id, the walk over the health map, the sort of the candidates,
and what the network answers to each attempt of each call. -/
structure World where
  now : Time := 0
  later : Time := now
  ordered : now ≤ later
  requestDraw : UInt64 := 0
  walk : Traversal (Σ _ : Str, ProviderHealth) := .listed _
  sort : Descending Candidate Candidate.score := .stable _ _
  upstream : Nat → Provider → ChatRequest → Nat → Exchange

/-- The clock need not advance during a request. -/
theorem noDelay : (0 : Time) ≤ 0 := le_refl 0

/-- `crow::response`. -/
structure Response where
  status : ℤ
  headers : List (Str × Str)
  body : Json

/-- How a handler ends. -/
inductive Reply where
  | response (resp : Response)
  | escaped (e : Exn)
  | hangs
  | crashes

/-- One provider call: the registry name it was made under, the request and the
outcome. -/
structure ProviderCall where
  provider : Str
  request : ChatRequest
  outcome : ChatOutcome

/-- What a handled request leaves behind. -/
structure Served where
  reply : Reply
  calls : List ProviderCall := []
  recorded : List RequestMetrics := []
  server : Server

/-- `generate_request_id`. -/
def generateRequestId (draw : UInt64) : Str := str "chatcmpl-" ++ toHex draw.toNat

def jsonHeader : Str × Str := (str "Content-Type", str "application/json")

/-- `make_error` with the default error type. -/
def makeError (status : ℤ) (message : Str) : Response where
  status := status
  headers := [jsonHeader]
  body := .object [(str "error", .object
    [(str "message", .string message),
     (str "type", .string (str "invalid_request_error")),
     (str "code", .integer status)])]

/-! ## `/v1/chat/completions` -/

/-- The loop over `body["messages"]`. -/
def readMessages : List Json → Except Exn (List Message)
  | [] => .ok []
  | m :: rest => do
      let role ← m.value Json.getString (str "role") (str "user")
      let content ← m.value Json.getString (str "content") []
      let more ← readMessages rest
      .ok (⟨role, content⟩ :: more)

/-- The `user` field, if there is one. -/
def readUser (body : Json) : Except Exn (Option Str) :=
  match body.find? (str "user") with
  | none => .ok none
  | some user => some <$> user.getString

/-- Step 1 on a parsed body; `none` is the rejection of the messages. -/
def readRequest (requestId : Str) (body : Json) : Except Exn (Option ChatRequest) := do
  let model ← body.value Json.getString (str "model") (str "gpt-4o-mini")
  let temperature ← body.value Json.getDouble (str "temperature") 0.7
  let maxTokens ← body.value Json.getInt (str "max_tokens") 1024
  let stream ← body.value Json.getBool (str "stream") false
  let user ← readUser body
  match body.find? (str "messages") with
  | none => .ok none
  | some list =>
      if !list.isArray || list.isEmpty then .ok none
      else do
        let messages ← readMessages list.elements
        .ok (some
          { requestId := requestId, model := model, temperature := temperature,
            maxTokens := maxTokens, stream := stream, user := user, messages := messages })

/-- The answer to a throttled request. -/
def throttled (rl : RateLimitResult) : Response :=
  let resp := makeError 429 (str "Rate limit exceeded")
  { resp with headers := resp.headers ++
      [(str "Retry-After", toStringInt rl.retryAfterSec),
       (str "X-RateLimit-Remaining-Requests", toStringInt rl.remainingRpm),
       (str "X-RateLimit-Remaining-Tokens", toStringInt rl.remainingTpm)] }

/-- The OpenAI-compatible body with the gateway's own section. -/
def completionBody (requestId : Str) (resp : ChatResponse) (gateway : List (Str × Json)) : Json :=
  .object
    [(str "id", .string requestId),
     (str "object", .string (str "chat.completion")),
     (str "model", .string resp.model),
     (str "choices", .array [.object
       [(str "index", .integer 0),
        (str "message", .object
          [(str "role", .string (str "assistant")), (str "content", .string resp.content)]),
        (str "finish_reason", .string (str "stop"))]]),
     (str "usage", .object
       [(str "prompt_tokens", .integer resp.promptTokens),
        (str "completion_tokens", .integer resp.completionTokens),
        (str "total_tokens", .integer resp.totalTokens)]),
     (str "x_gateway", .object gateway)]

/-- The answer to a cache hit. -/
def hitResponse (requestId : Str) (cached : ChatResponse) : Response where
  status := 200
  headers := [jsonHeader, (str "X-Gateway-Cache", str "HIT")]
  body := completionBody requestId cached
    [(str "provider", .string cached.provider),
     (str "cache", .string (str "hit")),
     (str "latency_ms", .integer 0),
     (str "cost_usd", .integer 0)]

/-- The answer to a request that a provider served. -/
def missResponse (requestId : Str) (resp : ChatResponse) (decision : RouteDecision) :
    Response where
  status := 200
  headers :=
    [jsonHeader,
     (str "X-Gateway-Cache", str "MISS"),
     (str "X-Gateway-Provider", resp.provider),
     (str "X-Gateway-Latency-Ms",
       toStringInt (wrap32 (resp.latencyMs.num.tdiv resp.latencyMs.den)))]
  body := completionBody requestId resp
    [(str "provider", .string resp.provider),
     (str "cache", .string (str "miss")),
     (str "latency_ms", .float resp.latencyMs),
     (str "cost_usd", .float resp.costUsd),
     (str "routing_strategy", .string (strategyToString decision.strategyUsed))]

/-- How the provider calls of one request end. -/
inductive CallEnd where
  | answered (resp : ChatResponse)
  | failed
  | crashed

/-- The provider calls of one request: their end, the calls, and the router with
their health reports. -/
structure Called where
  finish : CallEnd
  calls : List ProviderCall
  router : Router

def Called.after (call : ProviderCall) (c : Called) : Called :=
  { c with calls := call :: c.calls }

/-- The loop over the fallback chain, `k` calls into the request: the first
model of each registered member, until one answers. -/
def tryFallbacks (w : World) (registry : ProviderRegistry) (req : ChatRequest) :
    List Str → Nat → Router → Called
  | [], _, router => ⟨.failed, [], router⟩
  | fbName :: chain, k, router =>
      match registry.get fbName with
      | none => tryFallbacks w registry req chain k router
      | some fb =>
          match fb.kind.supportedModels with
          | [] => tryFallbacks w registry req chain k router
          | model :: _ =>
              let providerReq := { req with model := model }
              let outcome := (fb.chat (w.upstream k fb providerReq) providerReq).outcome
              let call : ProviderCall := ⟨fbName, providerReq, outcome⟩
              match outcome with
              | .answered resp =>
                  ⟨.answered { resp with provider := fbName }, [call],
                    router.reportSuccess w.later fbName resp.latencyMs⟩
              | .threw _ =>
                  (tryFallbacks w registry req chain (k + 1)
                    (router.reportFailure w.later fbName)).after call
              | .nullException => ⟨.crashed, [call], router⟩

/-- Step 6: the primary with the routed model, then the fallbacks. -/
def callProviders (w : World) (registry : ProviderRegistry) (decision : RouteDecision)
    (provider : Provider) (req : ChatRequest) (router : Router) : Called :=
  let providerReq := { req with model := decision.model }
  let outcome := (provider.chat (w.upstream 0 provider providerReq) providerReq).outcome
  let call : ProviderCall := ⟨decision.provider, providerReq, outcome⟩
  match outcome with
  | .answered resp =>
      ⟨.answered resp, [call], router.reportSuccess w.later decision.provider resp.latencyMs⟩
  | .threw _ =>
      (tryFallbacks w registry req decision.fallbackChain 1
        (router.reportFailure w.later decision.provider)).after call
  | .nullException => ⟨.crashed, [call], router⟩

/-- The response with its cost and the id of the request. -/
def priceResponse [Rounding] (costs : CostTracker) (req : ChatRequest) (resp : ChatResponse) :
    ChatResponse :=
  { resp with
    costUsd := costs.estimateCost resp.provider resp.model resp.promptTokens resp.completionTokens
    requestId := req.requestId }

/-- The metrics of a priced response. -/
def metricsOf (now : Time) (req : ChatRequest) (resp : ChatResponse) : RequestMetrics :=
  { requestId := req.requestId
    apiKey := req.apiKey
    provider := resp.provider
    model := resp.model
    promptTokens := resp.promptTokens
    completionTokens := resp.completionTokens
    latencyMs := resp.latencyMs
    costUsd := resp.costUsd
    timestamp := now }

/-- Step 7: the ledger, the tokens of the key and the metrics. -/
def bookkeep [Rounding] (w : World) (req : ChatRequest) (resp : ChatResponse) (s : Server) :
    Server :=
  { s with
    costs := s.costs.record (metricsOf w.later req resp)
    limiter :=
      if req.apiKey.isEmpty then s.limiter
      else s.limiter.recordTokens s.config.rateLimit w.later req.apiKey resp.totalTokens
    metrics := (s.metrics.observeLatency resp.latencyMs).observeTokens resp.totalTokens }

/-- Steps 7 to 9, after a provider answered. -/
def settle [Rounding] (P : Platform) (w : World) (req : ChatRequest) (decision : RouteDecision)
    (resp : ChatResponse) (calls : List ProviderCall) (s : Server) : Served :=
  let resp := priceResponse s.costs req resp
  let recorded := [s.costs.priced (metricsOf w.later req resp)]
  let s := bookkeep w req resp s
  match s.cache.put P s.config.cache w.later req resp with
  | none => { reply := .hangs, calls := calls, recorded := recorded, server := s }
  | some cache =>
      { reply := .response (missResponse req.requestId resp decision)
        calls := calls
        recorded := recorded
        server := { s with cache := cache } }

def Server.withError (s : Server) : Server := { s with metrics := s.metrics.incErrors }

/-- Step 6 and what follows. -/
def callStep [Rounding] (P : Platform) (w : World) (req : ChatRequest) (decision : RouteDecision)
    (provider : Provider) (s : Server) : Served :=
  let called := callProviders w s.registry decision provider req s.router
  let s := { s with router := called.router }
  match called.finish with
  | .answered resp => settle P w req decision resp called.calls s
  | .failed =>
      { reply := .response (makeError 502 (str "All providers failed for model: " ++ req.model))
        calls := called.calls
        server := s.withError }
  | .crashed => { reply := .crashes, calls := called.calls, server := s }

/-- Step 5 and what follows. -/
def routeStep [Rounding] (P : Platform) (w : World) (req : ChatRequest) (s : Server) : Served :=
  let routed := s.router.route w.walk w.sort s.config req
  let s := { s with router := routed.2 }
  if routed.1.provider.isEmpty then
    { reply := .response
        (makeError 503 (str "No available providers for model: " ++ req.model))
      server := s.withError }
  else
    match s.registry.get routed.1.provider with
    | none =>
        { reply := .response
            (makeError 503 (str "Provider not available: " ++ routed.1.provider))
          server := s.withError }
    | some provider => callStep P w req routed.1 provider s

/-- Step 4 and what follows. -/
def cacheStep [Rounding] (P : Platform) (w : World) (req : ChatRequest) (s : Server) : Served :=
  match s.cache.get P s.config.cache w.now req with
  | (some cached, cache) =>
      { reply := .response (hitResponse req.requestId cached)
        server := { s with cache := cache, metrics := s.metrics.incCacheHits } }
  | (none, cache) =>
      routeStep P w req { s with cache := cache, metrics := s.metrics.incCacheMisses }

/-- Step 3 and what follows.  The outcome of `authenticate` in step 2 only
decides a debug line. -/
def limitStep [Rounding] (P : Platform) (w : World) (req : ChatRequest) (s : Server) : Served :=
  if req.apiKey.isEmpty then cacheStep P w req s
  else
    let checked := s.limiter.checkRequest s.config.rateLimit w.now req.apiKey
      (TokenCounter.countMessages P req.messages)
    let s := { s with limiter := checked.2 }
    if !checked.1.allowed then { reply := .response (throttled checked.1), server := s }
    else cacheStep P w req s

/-- The handler of `/v1/chat/completions`. -/
def chatCompletions [Rounding] (P : Platform) (w : World) (http : HttpRequest) (s : Server) :
    Served :=
  let s := { s with metrics := s.metrics.incRequests }
  match http.body with
  | none => { reply := .response (makeError 400 (str "Invalid JSON body")), server := s }
  | some body =>
      match readRequest (generateRequestId w.requestDraw) body with
      | .error e => { reply := .escaped e, server := s }
      | .ok none =>
          { reply := .response
              (makeError 400 (str "messages is required and must be a non-empty array"))
            server := s }
      | .ok (some req) => limitStep P w { req with apiKey := http.authorization } s

/-! ## `/chat` -/

/-- The request that `/chat` forwards. -/
def legacyRequest (requestId prompt : Str) : ChatRequest :=
  { requestId := requestId, model := str "gpt-4o-mini", messages := [⟨str "user", prompt⟩] }

def legacyResponse (members : List (Str × Json)) : Response :=
  { status := 200, headers := [jsonHeader], body := .object members }

/-- The provider call of `/chat`: no fallback and no health report. -/
def legacyCall (P : Platform) (w : World) (req : ChatRequest) (decision : RouteDecision)
    (provider : Provider) (s : Server) : Served :=
  let providerReq := { req with model := decision.model }
  let outcome := (provider.chat (w.upstream 0 provider providerReq) providerReq).outcome
  let calls : List ProviderCall := [⟨decision.provider, providerReq, outcome⟩]
  match outcome with
  | .threw e => { reply := .response (makeError 502 e.what), calls := calls, server := s }
  | .nullException => { reply := .crashes, calls := calls, server := s }
  | .answered resp =>
      match s.cache.put P s.config.cache w.later req resp with
      | none => { reply := .hangs, calls := calls, server := s }
      | some cache =>
          { reply := .response (legacyResponse
              [(str "response", .string resp.content),
               (str "provider", .string resp.provider),
               (str "model", .string resp.model),
               (str "cached", .boolean false)])
            calls := calls
            server := { s with cache := cache } }

/-- Routing in `/chat`. -/
def legacyRoute [Rounding] (P : Platform) (w : World) (req : ChatRequest) (s : Server) : Served :=
  let routed := s.router.route w.walk w.sort s.config req
  let s := { s with router := routed.2 }
  match s.registry.get routed.1.provider with
  | none => { reply := .response (makeError 503 (str "No providers available")), server := s }
  | some provider => legacyCall P w req routed.1 provider s

/-- The cache lookup of `/chat`. -/
def legacyCache [Rounding] (P : Platform) (w : World) (req : ChatRequest) (s : Server) : Served :=
  match s.cache.get P s.config.cache w.now req with
  | (some cached, cache) =>
      { reply := .response (legacyResponse
          [(str "response", .string cached.content), (str "cached", .boolean true)])
        server := { s with cache := cache } }
  | (none, cache) => legacyRoute P w req { s with cache := cache }

/-- The handler of `/chat`. -/
def chat [Rounding] (P : Platform) (w : World) (http : HttpRequest) (s : Server) : Served :=
  match http.body with
  | none => { reply := .response (makeError 400 (str "Invalid JSON")), server := s }
  | some body =>
      match body.value Json.getString (str "prompt") [] with
      | .error e => { reply := .escaped e, server := s }
      | .ok prompt =>
          if prompt.isEmpty then
            { reply := .response (makeError 400 (str "prompt is required")), server := s }
          else legacyCache P w (legacyRequest (generateRequestId w.requestDraw) prompt) s

/-! ## Runs -/

/-- The two completion endpoints. -/
inductive Endpoint where
  | completions
  | chat
  deriving DecidableEq, Repr

/-- A request on its way in. -/
structure Incoming where
  endpoint : Endpoint
  http : HttpRequest
  world : World

/-- Handle one request. -/
def serve [Rounding] (P : Platform) (s : Server) (i : Incoming) : Served :=
  match i.endpoint with
  | .completions => chatCompletions P i.world i.http s
  | .chat => chat P i.world i.http s

/-- The server still answers after this reply. -/
def Reply.goesOn : Reply → Bool
  | .response _ | .escaped _ => true
  | .hangs | .crashes => false

/-- One request of a run, with the state it met. -/
structure Step where
  before : Server
  incoming : Incoming
  served : Served

/-- Requests handled one after another, up to one that does not return. -/
def run [Rounding] (P : Platform) : Server → List Incoming → List Step
  | _, [] => []
  | s, i :: rest =>
      let served := serve P s i
      ⟨s, i, served⟩ :: if served.reply.goesOn then run P served.server rest else []

/-- The state a run ends in. -/
def finalState [Rounding] (P : Platform) : Server → List Incoming → Server
  | s, [] => s
  | s, i :: rest =>
      if (serve P s i).reply.goesOn then finalState P (serve P s i).server rest
      else (serve P s i).server

end Gateway
