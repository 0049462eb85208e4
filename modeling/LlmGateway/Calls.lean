import LlmGateway.CacheRefinement
import LlmGateway.ChatCompletions

/-!
# Provider calls

What one call of `chat` can end in, what a reply that parses says about the
response, and one equation for each turn of the fallback loop, so that later
inductions over a chain follow the loop without unfolding it.
-/

namespace Gateway

namespace ChatOutcome

/-- The call returned a response. -/
def Answered : ChatOutcome → Prop
  | answered _ => True
  | _ => False

/-- The call ended in an exception the handler catches. -/
def Threw : ChatOutcome → Prop
  | threw _ => True
  | _ => False

instance : DecidablePred Answered
  | answered _ => .isTrue trivial
  | threw _ => .isFalse id
  | nullException => .isFalse id

instance : DecidablePred Threw
  | threw _ => .isTrue trivial
  | answered _ => .isFalse id
  | nullException => .isFalse id

theorem answered_iff {o : ChatOutcome} : o.Answered ↔ ∃ resp, o = answered resp := by
  cases o with
  | answered resp => exact ⟨fun _ => ⟨resp, rfl⟩, fun _ => trivial⟩
  | threw e => simp [Answered]
  | nullException => simp [Answered]

end ChatOutcome

/-- The loop rethrows an empty pointer only if it never ran. -/
theorem retryLoop_null_iff {fn : Nat → Except Exn ChatResponse} {left attempt : Nat}
    {last : Option Exn} :
    (retryLoop fn left attempt last).outcome = .nullException ↔ left = 0 ∧ last = none := by
  induction left generalizing attempt last with
  | zero => cases last <;> simp [retryLoop]
  | succ left ih =>
      cases hfn : fn attempt with
      | ok resp => simp [retryLoop, hfn]
      | error e => simp [retryLoop, hfn, ih]

/-- A response comes from one of the attempts. -/
theorem retryLoop_answered {fn : Nat → Except Exn ChatResponse} {left attempt : Nat}
    {last : Option Exn} {resp : ChatResponse}
    (h : (retryLoop fn left attempt last).outcome = .answered resp) :
    ∃ i, fn i = .ok resp := by
  induction left generalizing attempt last with
  | zero => cases last <;> simp [retryLoop] at h
  | succ left ih =>
      cases hfn : fn attempt with
      | ok resp' =>
          simp only [retryLoop, hfn, ChatOutcome.answered.injEq] at h
          exact ⟨attempt, h ▸ hfn⟩
      | error e =>
          simp only [retryLoop, hfn] at h
          exact ih h

/-- A first attempt that succeeds is the outcome. -/
theorem retryLoop_of_ok {fn : Nat → Except Exn ChatResponse} {left attempt : Nat}
    {last : Option Exn} {resp : ChatResponse} (h : fn attempt = .ok resp) :
    (retryLoop fn (left + 1) attempt last).outcome = .answered resp := by
  simp [retryLoop, h]

namespace Provider

variable {p : Provider} {upstream : Nat → Exchange} {req : ChatRequest} {resp : ChatResponse}

/-- A negative number of retries makes every call rethrow an empty pointer. -/
theorem chat_null_iff : (p.chat upstream req).outcome = .nullException ↔ p.maxRetries < 0 := by
  unfold chat withRetry
  rw [retryLoop_null_iff]
  simp only [and_true]
  omega

/-- A response is the parsed reply to one attempt. -/
theorem chat_answered (h : (p.chat upstream req).outcome = .answered resp) :
    ∃ i json, httpPost (upstream i).reply = .ok json ∧
      p.kind.parseResponse json req (upstream i).elapsedMs = .ok resp := by
  obtain ⟨i, hi⟩ := retryLoop_answered h
  obtain ⟨json, hpost, hparse⟩ := bind_eq_ok hi
  exact ⟨i, json, hpost, hparse⟩

theorem chat_of_first_ok {json : Json} (hretries : 0 ≤ p.maxRetries)
    (hpost : httpPost (upstream 0).reply = .ok json)
    (hparse : p.kind.parseResponse json req (upstream 0).elapsedMs = .ok resp) :
    (p.chat upstream req).outcome = .answered resp := by
  unfold chat withRetry
  obtain ⟨n, hn⟩ : ∃ n, (p.maxRetries + 1).toNat = n + 1 := ⟨p.maxRetries.toNat, by omega⟩
  rw [hn]
  refine retryLoop_of_ok ?_
  rw [hpost]
  exact hparse

end Provider

/-- What every parsed response carries: the provider's own name, the id and the
model of the request unless the reply names another, and the time it took. -/
structure Parsed (name : Str) (json : Json) (req : ChatRequest) (ms : Double)
    (resp : ChatResponse) : Prop where
  provider : resp.provider = name
  requestId : resp.requestId = req.requestId
  latencyMs : resp.latencyMs = ms
  model : json.value Json.getString (str "model") req.model = .ok resp.model

theorem parsed_of_openAiFormat {name : Str} {json : Json} {req : ChatRequest} {ms : Double}
    {resp : ChatResponse} (h : parseOpenAiFormat name json req ms = .ok resp) :
    Parsed name json req ms resp := by
  unfold parseOpenAiFormat at h
  obtain ⟨model, hmodel, h⟩ := bind_eq_ok h
  obtain ⟨content, -, h⟩ := bind_eq_ok h
  cases husage : json.find? (str "usage") with
  | none =>
      simp only [husage] at h
      cases h
      exact ⟨rfl, rfl, rfl, hmodel⟩
  | some usage =>
      simp only [husage] at h
      obtain ⟨promptTokens, -, h⟩ := bind_eq_ok h
      obtain ⟨completionTokens, -, h⟩ := bind_eq_ok h
      obtain ⟨totalTokens, -, h⟩ := bind_eq_ok h
      cases h
      exact ⟨rfl, rfl, rfl, hmodel⟩

theorem parsed_of_anthropic {json : Json} {req : ChatRequest} {ms : Double} {resp : ChatResponse}
    (h : AnthropicProvider.parseResponse json req ms = .ok resp) :
    Parsed (str "anthropic") json req ms resp := by
  unfold AnthropicProvider.parseResponse at h
  obtain ⟨model, hmodel, h⟩ := bind_eq_ok h
  obtain ⟨content, -, h⟩ := bind_eq_ok h
  cases husage : json.find? (str "usage") with
  | none =>
      simp only [husage] at h
      cases h
      exact ⟨rfl, rfl, rfl, hmodel⟩
  | some usage =>
      simp only [husage] at h
      obtain ⟨promptTokens, -, h⟩ := bind_eq_ok h
      obtain ⟨completionTokens, -, h⟩ := bind_eq_ok h
      cases h
      exact ⟨rfl, rfl, rfl, hmodel⟩

/-- Every provider's `parse_response` keeps to this. -/
theorem parsed_of_parseResponse {kind : ProviderKind} {json : Json} {req : ChatRequest}
    {ms : Double} {resp : ChatResponse} (h : kind.parseResponse json req ms = .ok resp) :
    Parsed kind.name json req ms resp := by
  cases kind with
  | anthropic => exact parsed_of_anthropic h
  | openai => exact parsed_of_openAiFormat h
  | together => exact parsed_of_openAiFormat h
  | groq => exact parsed_of_openAiFormat h

/-! ## The fallback loop -/

/-- The request a fallback provider is called with: its own first model. -/
def fallbackRequest (req : ChatRequest) (fb : Provider) : ChatRequest :=
  { req with model := fb.kind.supportedModels.headD [] }

/-- The outcome of a fallback call, `k` calls into the request. -/
def fallbackOutcome (w : World) (req : ChatRequest) (k : Nat) (fb : Provider) : ChatOutcome :=
  (fb.chat (w.upstream k fb (fallbackRequest req fb)) (fallbackRequest req fb)).outcome

variable {w : World} {registry : ProviderRegistry} {req : ChatRequest}

/-- A member of the chain that is not registered is skipped. -/
theorem tryFallbacks_skip {fbName : Str} (h : registry.get fbName = none) (chain : List Str)
    (k : Nat) (router : Router) :
    tryFallbacks w registry req (fbName :: chain) k router =
      tryFallbacks w registry req chain k router := by
  rw [tryFallbacks]
  simp only [h]

/-- A registered member of the chain is called once. -/
theorem tryFallbacks_call {fbName : Str} {fb : Provider} (h : registry.get fbName = some fb)
    (chain : List Str) (k : Nat) (router : Router) :
    tryFallbacks w registry req (fbName :: chain) k router =
      match fallbackOutcome w req k fb with
      | .answered resp =>
          ⟨.answered { resp with provider := fbName },
            [⟨fbName, fallbackRequest req fb, fallbackOutcome w req k fb⟩],
            router.reportSuccess w.later fbName resp.latencyMs⟩
      | .threw _ =>
          (tryFallbacks w registry req chain (k + 1)
            (router.reportFailure w.later fbName)).after
              ⟨fbName, fallbackRequest req fb, fallbackOutcome w req k fb⟩
      | .nullException =>
          ⟨.crashed, [⟨fbName, fallbackRequest req fb, fallbackOutcome w req k fb⟩], router⟩ := by
  rw [tryFallbacks]
  simp only [h]
  cases hmodels : fb.kind.supportedModels with
  | nil => exact absurd hmodels fb.kind.supportedModels_ne_nil
  | cons model models =>
      have houtcome : fallbackOutcome w req k fb =
          (fb.chat (w.upstream k fb { req with model := model })
            { req with model := model }).outcome := by
        simp only [fallbackOutcome, fallbackRequest, hmodels, List.headD_cons]
      cases hend : fallbackOutcome w req k fb <;>
        simp only [fallbackRequest, hmodels, List.headD_cons, ← houtcome, hend]

/-- The request the primary is called with. -/
def primaryRequest (req : ChatRequest) (decision : RouteDecision) : ChatRequest :=
  { req with model := decision.model }

/-- The outcome of the primary call. -/
def primaryOutcome (w : World) (req : ChatRequest) (decision : RouteDecision)
    (provider : Provider) : ChatOutcome :=
  (provider.chat (w.upstream 0 provider (primaryRequest req decision))
    (primaryRequest req decision)).outcome

/-- The primary is called, and the chain only after it threw. -/
theorem callProviders_eq (decision : RouteDecision) (provider : Provider) (router : Router) :
    callProviders w registry decision provider req router =
      match primaryOutcome w req decision provider with
      | .answered resp =>
          ⟨.answered resp,
            [⟨decision.provider, primaryRequest req decision,
              primaryOutcome w req decision provider⟩],
            router.reportSuccess w.later decision.provider resp.latencyMs⟩
      | .threw _ =>
          (tryFallbacks w registry req decision.fallbackChain 1
            (router.reportFailure w.later decision.provider)).after
              ⟨decision.provider, primaryRequest req decision,
                primaryOutcome w req decision provider⟩
      | .nullException =>
          ⟨.crashed,
            [⟨decision.provider, primaryRequest req decision,
              primaryOutcome w req decision provider⟩], router⟩ := rfl

/-- The first call of a request is that of its primary. -/
theorem callProviders_first (decision : RouteDecision) (provider : Provider) (router : Router) :
    ⟨decision.provider, primaryRequest req decision, primaryOutcome w req decision provider⟩ ∈
      (callProviders w registry decision provider req router).calls := by
  rw [callProviders_eq]
  cases primaryOutcome w req decision provider with
  | answered resp => exact List.mem_cons_self
  | threw e => exact List.mem_cons_self
  | nullException => exact List.mem_cons_self

/-- The call step hands on the calls and the router of its provider calls, and
leaves configuration and registry alone. -/
theorem callStep_frame [Rounding] (P : Platform) (w : World) (req : ChatRequest)
    (decision : RouteDecision) (provider : Provider) (s : Server) :
    (callStep P w req decision provider s).calls =
        (callProviders w s.registry decision provider req s.router).calls ∧
      (callStep P w req decision provider s).server.router =
        (callProviders w s.registry decision provider req s.router).router ∧
      (callStep P w req decision provider s).server.config = s.config ∧
      (callStep P w req decision provider s).server.registry = s.registry := by
  simp only [callStep]
  cases (callProviders w s.registry decision provider req s.router).finish with
  | answered resp =>
      simp only [settle]
      split <;> exact ⟨rfl, rfl, rfl, rfl⟩
  | failed => exact ⟨rfl, rfl, rfl, rfl⟩
  | crashed => exact ⟨rfl, rfl, rfl, rfl⟩

/-! ## Replies -/

/-- The reply is a response with the status. -/
def Reply.HasStatus (status : ℤ) (reply : Reply) : Prop :=
  ∃ resp, reply = .response resp ∧ resp.status = status

@[simp] theorem Reply.hasStatus_response {status : ℤ} {resp : Response} :
    (Reply.response resp).HasStatus status ↔ resp.status = status := by
  simp [HasStatus]

theorem Reply.HasStatus.goesOn {status : ℤ} {reply : Reply} (h : reply.HasStatus status) :
    reply.goesOn = true := by
  obtain ⟨resp, rfl, -⟩ := h
  rfl

@[simp] theorem Reply.not_hasStatus_escaped {status : ℤ} {e : Exn} :
    ¬ (Reply.escaped e).HasStatus status := by
  simp [HasStatus]

@[simp] theorem Reply.not_hasStatus_hangs {status : ℤ} : ¬ Reply.hangs.HasStatus status := by
  simp [HasStatus]

@[simp] theorem Reply.not_hasStatus_crashes {status : ℤ} : ¬ Reply.crashes.HasStatus status := by
  simp [HasStatus]

instance (status : ℤ) : DecidablePred (Reply.HasStatus status)
  | .response _ => decidable_of_iff _ Reply.hasStatus_response.symm
  | .escaped _ => .isFalse Reply.not_hasStatus_escaped
  | .hangs => .isFalse Reply.not_hasStatus_hangs
  | .crashes => .isFalse Reply.not_hasStatus_crashes

/-- Once a provider is called the answer is 200 or 502, if there is one. -/
theorem callStep_not_503 [Rounding] (P : Platform) (w : World) (req : ChatRequest)
    (decision : RouteDecision) (provider : Provider) (s : Server) :
    ¬ (callStep P w req decision provider s).reply.HasStatus 503 := by
  unfold callStep
  simp only
  split
  · unfold settle
    simp only
    split
    · simp
    · simp [missResponse]
  · simp [makeError]
  · simp

/-- A registered primary is called. -/
theorem routeStep_of_registered [Rounding] {P : Platform} {w : World} {req : ChatRequest}
    {s : Server} {provider : Provider}
    (hname : (s.router.route w.walk w.sort s.config req).1.provider ≠ [])
    (hget : s.registry.get (s.router.route w.walk w.sort s.config req).1.provider =
      some provider) :
    routeStep P w req s = callStep P w req (s.router.route w.walk w.sort s.config req).1 provider
      { s with router := (s.router.route w.walk w.sort s.config req).2 } := by
  unfold routeStep
  simp only
  rw [if_neg (by simpa using hname), hget]

/-- An unregistered primary means 503. -/
theorem routeStep_503 [Rounding] {P : Platform} {w : World} {req : ChatRequest} {s : Server}
    (hname : (s.router.route w.walk w.sort s.config req).1.provider ≠ [])
    (hget : s.registry.get (s.router.route w.walk w.sort s.config req).1.provider = none) :
    (routeStep P w req s).reply.HasStatus 503 := by
  unfold routeStep
  simp only
  rw [if_neg (by simpa using hname), hget]
  simp [makeError]

/-- The cache takes the response: it is off, the request streams, or there is
room for an entry. -/
def CanStore (cfg : CacheConfig) (req : ChatRequest) : Prop :=
  cfg.enabled = false ∨ req.stream = true ∨ 0 < toSizeT cfg.maxEntries

/-- Settling an answered call ends in 200 if the cache takes the response, and in
no reply otherwise. -/
theorem settle_200_iff [Rounding] {P : Platform} {w : World} {req : ChatRequest}
    {decision : RouteDecision} {resp : ChatResponse} {calls : List ProviderCall} {s : Server} :
    (settle P w req decision resp calls s).reply.HasStatus 200 ↔ CanStore s.config.cache req := by
  unfold CanStore
  rw [← Cache.put_isSome_iff P s.config.cache w.later req (priceResponse s.costs req resp) s.cache]
  simp only [settle, bookkeep]
  cases s.cache.put P s.config.cache w.later req (priceResponse s.costs req resp) with
  | none => simp
  | some cache => simp [missResponse]

theorem callStep_200_iff [Rounding] {P : Platform} {w : World} {req : ChatRequest}
    {decision : RouteDecision} {provider : Provider} {s : Server} :
    (callStep P w req decision provider s).reply.HasStatus 200 ↔
      (∃ resp, (callProviders w s.registry decision provider req s.router).finish =
        .answered resp) ∧ CanStore s.config.cache req := by
  simp only [callStep]
  cases (callProviders w s.registry decision provider req s.router).finish with
  | answered resp => simp [settle_200_iff]
  | failed => simp [makeError]
  | crashed => simp

/-- A primary that answers is the only one called, its success is reported, and
the answer is 200 if the cache takes the response. -/
theorem callStep_of_answered [Rounding] (P : Platform) {w : World} {req : ChatRequest}
    {decision : RouteDecision} {provider : Provider} {s : Server} {resp : ChatResponse}
    (h : primaryOutcome w req decision provider = .answered resp) :
    (callStep P w req decision provider s).calls =
        [⟨decision.provider, primaryRequest req decision, .answered resp⟩] ∧
      (callStep P w req decision provider s).server.router =
        s.router.reportSuccess w.later decision.provider resp.latencyMs ∧
      (CanStore s.config.cache req →
        (callStep P w req decision provider s).reply.HasStatus 200) := by
  obtain ⟨hcalls, hrouter, -, -⟩ := callStep_frame P w req decision provider s
  rw [callProviders_eq, h] at hcalls hrouter
  refine ⟨hcalls, hrouter, fun hstore => callStep_200_iff.mpr ⟨⟨resp, ?_⟩, hstore⟩⟩
  rw [callProviders_eq, h]

end Gateway
