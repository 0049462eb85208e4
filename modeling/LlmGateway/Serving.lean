import LlmGateway.Calls
import LlmGateway.Routing

/-!
# Handling requests

How a request travels through a handler up to its provider calls, what stays as
it was on the way, and the induction over runs that the laws of the whole
service use.  `serve_cases` is the inversion of one request: it makes no
provider call and leaves configuration, registry, ledger and health alone, or
it gets to the call step of its endpoint.
-/

namespace Gateway

/-- The request that a body of `/v1/chat/completions` stands for, if it is
accepted. -/
def parsedRequest (w : World) (http : HttpRequest) : Option ChatRequest :=
  match http.body with
  | none => none
  | some body =>
      match readRequest (generateRequestId w.requestDraw) body with
      | .ok (some req) => some { req with apiKey := http.authorization }
      | _ => none

/-- The key of a request is its `Authorization` header. -/
theorem parsedRequest_apiKey {w : World} {http : HttpRequest} {req : ChatRequest}
    (h : parsedRequest w http = some req) : req.apiKey = http.authorization := by
  unfold parsedRequest at h
  split at h
  · cases h
  · split at h
    · cases h
      rfl
    · cases h

/-- The state after the rate limiter, if it lets the request pass. -/
def pastLimiter (P : Platform) (w : World) (req : ChatRequest) (s : Server) : Option Server :=
  if req.apiKey.isEmpty then some s
  else
    match s.limiter.checkRequest s.config.rateLimit w.now req.apiKey
        (TokenCounter.countMessages P req.messages) with
    | (checked, limiter) => if checked.allowed then some { s with limiter := limiter } else none

/-- The state after the cache, if it misses. -/
def pastCache (P : Platform) (w : World) (req : ChatRequest) (s : Server) : Option Server :=
  match s.cache.get P s.config.cache w.now req with
  | (some _, _) => none
  | (none, cache) => some { s with cache := cache, metrics := s.metrics.incCacheMisses }

/-- The request and the state with which `/v1/chat/completions` gets to its
routing step: the body is accepted, the limiter lets it pass, the cache
misses. -/
def toRouting (P : Platform) (w : World) (http : HttpRequest) (s : Server) :
    Option (ChatRequest × Server) := do
  let req ← parsedRequest w http
  let s ← pastLimiter P w req { s with metrics := s.metrics.incRequests }
  let s ← pastCache P w req s
  some (req, s)

/-- The prompt that a body of `/chat` carries, if it is accepted. -/
def parsedPrompt (http : HttpRequest) : Option Str :=
  match http.body with
  | none => none
  | some body =>
      match body.value Json.getString (str "prompt") [] with
      | .ok prompt => if prompt.isEmpty then none else some prompt
      | .error _ => none

/-- The request and the state with which `/chat` gets to its routing step. -/
def toLegacyRouting (P : Platform) (w : World) (http : HttpRequest) (s : Server) :
    Option (ChatRequest × Server) := do
  let prompt ← parsedPrompt http
  let req := legacyRequest (generateRequestId w.requestDraw) prompt
  match s.cache.get P s.config.cache w.now req with
  | (some _, _) => none
  | (none, cache) => some (req, { s with cache := cache })

/-- What requests without provider calls leave alone. -/
structure SameCore (s s' : Server) : Prop where
  config : s'.config = s.config
  registry : s'.registry = s.registry
  costs : s'.costs = s.costs
  health : s'.router.health = s.router.health
  strategy : s'.router.strategy = s.router.strategy

theorem SameCore.refl (s : Server) : SameCore s s := ⟨rfl, rfl, rfl, rfl, rfl⟩

/-- The cache, the limiter and the metrics are not part of it. -/
theorem SameCore.rest (s : Server) (cache : Cache) (limiter : RateLimiter) (metrics : Metrics) :
    SameCore s { s with cache := cache, limiter := limiter, metrics := metrics } :=
  ⟨rfl, rfl, rfl, rfl, rfl⟩

theorem SameCore.trans {a b c : Server} (h : SameCore a b) (h' : SameCore b c) : SameCore a c :=
  ⟨h'.config.trans h.config, h'.registry.trans h.registry, h'.costs.trans h.costs,
    h'.health.trans h.health, h'.strategy.trans h.strategy⟩

/-- The request made no provider call. -/
structure NoCall (s : Server) (served : Served) : Prop where
  calls : served.calls = []
  recorded : served.recorded = []
  core : SameCore s served.server

variable {P : Platform} {w : World} {http : HttpRequest} {s : Server}

/-! ## `/v1/chat/completions` -/

theorem chatCompletions_of_parsed [Rounding] {req : ChatRequest}
    (h : parsedRequest w http = some req) :
    chatCompletions P w http s = limitStep P w req { s with metrics := s.metrics.incRequests } := by
  unfold parsedRequest at h
  unfold chatCompletions
  cases hbody : http.body with
  | none => simp [hbody] at h
  | some body =>
      simp only [hbody] at h ⊢
      cases hread : readRequest (generateRequestId w.requestDraw) body with
      | error e => simp [hread] at h
      | ok parsed =>
          cases parsed with
          | none => simp [hread] at h
          | some parsed =>
              simp only [hread, Option.some.injEq] at h ⊢
              rw [h]

/-- A body that is not accepted only counts. -/
theorem chatCompletions_of_not_parsed (h : parsedRequest w http = none) :
    (chatCompletions P w http s).calls = [] ∧ (chatCompletions P w http s).recorded = [] ∧
      (chatCompletions P w http s).server = { s with metrics := s.metrics.incRequests } := by
  unfold parsedRequest at h
  unfold chatCompletions
  cases hbody : http.body with
  | none => exact ⟨rfl, rfl, rfl⟩
  | some body =>
      simp only [hbody] at h ⊢
      cases hread : readRequest (generateRequestId w.requestDraw) body with
      | error e => exact ⟨rfl, rfl, rfl⟩
      | ok parsed =>
          cases parsed with
          | none => exact ⟨rfl, rfl, rfl⟩
          | some parsed => simp [hread] at h

theorem limitStep_of_past [Rounding] {req : ChatRequest} {s' : Server}
    (h : pastLimiter P w req s = some s') :
    limitStep P w req s = cacheStep P w req s' := by
  unfold pastLimiter at h
  unfold limitStep
  by_cases hkey : req.apiKey.isEmpty = true
  · rw [if_pos hkey] at h ⊢
    rw [Option.some.inj h]
  · rw [if_neg hkey] at h ⊢
    simp only at h ⊢
    split at h
    · next hallowed =>
        rw [if_neg (by simp [hallowed]), Option.some.inj h]
    · cases h

theorem limitStep_of_stopped {req : ChatRequest} (h : pastLimiter P w req s = none) :
    NoCall s (limitStep P w req s) ∧ (limitStep P w req s).reply.HasStatus 429 := by
  unfold pastLimiter at h
  unfold limitStep
  by_cases hkey : req.apiKey.isEmpty = true
  · rw [if_pos hkey] at h
    cases h
  · rw [if_neg hkey] at h ⊢
    simp only at h ⊢
    split at h
    · cases h
    · next hdenied =>
        rw [if_pos (by simpa using hdenied)]
        exact ⟨⟨rfl, rfl, .rest s _ _ _⟩, by simp [throttled, makeError]⟩

theorem cacheStep_of_past [Rounding] {req : ChatRequest} {s' : Server}
    (h : pastCache P w req s = some s') :
    cacheStep P w req s = routeStep P w req s' := by
  unfold pastCache at h
  unfold cacheStep
  rcases hget : s.cache.get P s.config.cache w.now req with ⟨found, cache⟩
  simp only [hget] at h ⊢
  cases found with
  | none =>
      rw [← Option.some.inj h]
  | some cached => cases h

theorem cacheStep_of_hit {req : ChatRequest} (h : pastCache P w req s = none) :
    NoCall s (cacheStep P w req s) := by
  unfold pastCache at h
  unfold cacheStep
  rcases hget : s.cache.get P s.config.cache w.now req with ⟨found, cache⟩
  simp only [hget] at h ⊢
  cases found with
  | none => cases h
  | some cached => exact ⟨rfl, rfl, .rest s _ _ _⟩

theorem pastLimiter_core {req : ChatRequest} {s' : Server}
    (h : pastLimiter P w req s = some s') : SameCore s s' ∧ s'.router = s.router := by
  unfold pastLimiter at h
  split at h
  · cases h
    exact ⟨SameCore.refl s, rfl⟩
  · simp only at h
    split at h
    · cases h
      exact ⟨.rest s _ _ _, rfl⟩
    · cases h

theorem pastCache_core {req : ChatRequest} {s' : Server} (h : pastCache P w req s = some s') :
    SameCore s s' ∧ s'.router = s.router := by
  unfold pastCache at h
  split at h
  · cases h
  · cases h
    exact ⟨.rest s _ _ _, rfl⟩

/-- A request that gets to routing has passed the three stages in front of it. -/
theorem toRouting_cases {req : ChatRequest} {s' : Server}
    (h : toRouting P w http s = some (req, s')) :
    parsedRequest w http = some req ∧
      ∃ s₁, pastLimiter P w req { s with metrics := s.metrics.incRequests } = some s₁ ∧
        pastCache P w req s₁ = some s' := by
  unfold toRouting at h
  obtain ⟨req', hparsed, h⟩ := Option.bind_eq_some_iff.mp h
  obtain ⟨s₁, hlimit, h⟩ := Option.bind_eq_some_iff.mp h
  obtain ⟨s₂, hcache, h⟩ := Option.bind_eq_some_iff.mp h
  obtain ⟨rfl, rfl⟩ := Prod.mk.inj (Option.some.inj h)
  exact ⟨hparsed, s₁, hlimit, hcache⟩

/-- The stages before routing leave the core and the router alone. -/
theorem toRouting_core {req : ChatRequest} {s' : Server}
    (h : toRouting P w http s = some (req, s')) :
    parsedRequest w http = some req ∧ SameCore s s' ∧ s'.router = s.router := by
  obtain ⟨hparsed, s₁, hlimit, hcache⟩ := toRouting_cases h
  obtain ⟨hcore₁, hrouter₁⟩ := pastLimiter_core hlimit
  obtain ⟨hcore₂, hrouter₂⟩ := pastCache_core hcache
  have hcounted : SameCore s { s with metrics := s.metrics.incRequests } := .rest s _ _ _
  exact ⟨hparsed, (hcounted.trans hcore₁).trans hcore₂, hrouter₂.trans hrouter₁⟩

/-- From there on the handler is its routing step. -/
theorem chatCompletions_of_toRouting [Rounding] {req : ChatRequest} {s' : Server}
    (h : toRouting P w http s = some (req, s')) :
    chatCompletions P w http s = routeStep P w req s' := by
  obtain ⟨hparsed, s₁, hlimit, hcache⟩ := toRouting_cases h
  rw [chatCompletions_of_parsed hparsed, limitStep_of_past hlimit, cacheStep_of_past hcache]

/-- A request that does not get there makes no provider call. -/
theorem chatCompletions_of_not_toRouting (h : toRouting P w http s = none) :
    NoCall s (chatCompletions P w http s) := by
  have hcounted : SameCore s { s with metrics := s.metrics.incRequests } := .rest s _ _ _
  cases hparsed : parsedRequest w http with
  | none =>
      obtain ⟨hcalls, hrecorded, hserver⟩ := chatCompletions_of_not_parsed (P := P) (s := s) hparsed
      exact ⟨hcalls, hrecorded, hserver ▸ hcounted⟩
  | some req =>
      rw [chatCompletions_of_parsed hparsed]
      cases hlimit : pastLimiter P w req { s with metrics := s.metrics.incRequests } with
      | none =>
          obtain ⟨⟨hcalls, hrecorded, hcore⟩, -⟩ := limitStep_of_stopped hlimit
          exact ⟨hcalls, hrecorded, hcounted.trans hcore⟩
      | some s₁ =>
          rw [limitStep_of_past hlimit]
          cases hcache : pastCache P w req s₁ with
          | none =>
              obtain ⟨hcalls, hrecorded, hcore⟩ := cacheStep_of_hit hcache
              exact ⟨hcalls, hrecorded, (hcounted.trans (pastLimiter_core hlimit).1).trans hcore⟩
          | some s₂ => simp [toRouting, hparsed, hlimit, hcache] at h

/-! ## `/chat` -/

theorem toLegacyRouting_core {req : ChatRequest} {s' : Server}
    (h : toLegacyRouting P w http s = some (req, s')) :
    SameCore s s' ∧ s'.router = s.router := by
  unfold toLegacyRouting at h
  obtain ⟨prompt, -, h⟩ := Option.bind_eq_some_iff.mp h
  simp only at h
  split at h
  · cases h
  · cases h
    exact ⟨.rest s _ _ _, rfl⟩

/-- The handler of `/chat` is its routing step, or makes no provider call. -/
theorem chat_cases (P : Platform) (w : World) (http : HttpRequest) (s : Server) :
    (∃ req s', toLegacyRouting P w http s = some (req, s') ∧
      chat P w http s = legacyRoute P w req s') ∨
      toLegacyRouting P w http s = none ∧ NoCall s (chat P w http s) := by
  have hnothing : ∀ served : Served, served.calls = [] → served.recorded = [] →
      served.server = s → NoCall s served :=
    fun served hcalls hrecorded hserver => ⟨hcalls, hrecorded, hserver ▸ SameCore.refl s⟩
  unfold toLegacyRouting parsedPrompt chat
  cases hbody : http.body with
  | none => exact .inr ⟨rfl, hnothing _ rfl rfl rfl⟩
  | some body =>
      simp only
      cases hprompt : body.value Json.getString (str "prompt") [] with
      | error e => exact .inr ⟨rfl, hnothing _ rfl rfl rfl⟩
      | ok prompt =>
          by_cases hempty : prompt.isEmpty = true
          · simp only [hempty, if_true]
            exact .inr ⟨rfl, hnothing _ rfl rfl rfl⟩
          · simp only [hempty, Bool.false_eq_true, if_false, legacyCache, Option.bind_eq_bind,
              Option.bind_some]
            rcases s.cache.get P s.config.cache w.now
              (legacyRequest (generateRequestId w.requestDraw) prompt) with ⟨found, cache⟩
            cases found with
            | none => exact .inl ⟨_, _, rfl, rfl⟩
            | some cached => exact .inr ⟨rfl, rfl, rfl, .rest s _ _ _⟩

theorem chat_of_toLegacyRouting {req : ChatRequest} {s' : Server}
    (h : toLegacyRouting P w http s = some (req, s')) :
    chat P w http s = legacyRoute P w req s' := by
  rcases chat_cases P w http s with ⟨req', s'', hrouting, hrun⟩ | ⟨hnone, -⟩
  · cases h.symm.trans hrouting
    exact hrun
  · cases h.symm.trans hnone

/-- The provider call of `/chat` is its only trace outside the cache. -/
theorem legacyCall_frame (P : Platform) (w : World) (req : ChatRequest) (decision : RouteDecision)
    (provider : Provider) (s : Server) :
    (legacyCall P w req decision provider s).calls =
        [⟨decision.provider, primaryRequest req decision,
          primaryOutcome w req decision provider⟩] ∧
      (legacyCall P w req decision provider s).recorded = [] ∧
      SameCore s (legacyCall P w req decision provider s).server := by
  have hcore : SameCore s s := SameCore.refl s
  unfold legacyCall
  simp only
  split
  · exact ⟨rfl, rfl, hcore⟩
  · exact ⟨rfl, rfl, hcore⟩
  · split
    · exact ⟨rfl, rfl, hcore⟩
    · exact ⟨rfl, rfl, .rest s _ _ _⟩

/-! ## One request -/

/-- The decision for a request in a state. -/
def decisionFor (w : World) (req : ChatRequest) (s : Server) : RouteDecision :=
  (s.router.route w.walk w.sort s.config req).1

/-- The state in which a provider is called. -/
def afterRoute (w : World) (req : ChatRequest) (s : Server) : Server :=
  { s with router := (s.router.route w.walk w.sort s.config req).2 }

theorem afterRoute_core (w : World) (req : ChatRequest) (s : Server) :
    SameCore s (afterRoute w req s) := by
  have hrouter : (s.router.route w.walk w.sort s.config req).2.health = s.router.health ∧
      (s.router.route w.walk w.sort s.config req).2.strategy = s.router.strategy :=
    Router.route_router w.walk w.sort req
  exact ⟨rfl, rfl, rfl, hrouter.1, hrouter.2⟩

/-- The routing step calls the registered primary, or makes no call. -/
theorem routeStep_cases (req : ChatRequest) :
    (∃ provider, (decisionFor w req s).provider ≠ [] ∧
      s.registry.get (decisionFor w req s).provider = some provider ∧
      routeStep P w req s =
        callStep P w req (decisionFor w req s) provider (afterRoute w req s)) ∨
      NoCall s (routeStep P w req s) := by
  have hcore := afterRoute_core w req s
  by_cases hname : (decisionFor w req s).provider = []
  · refine .inr ?_
    unfold routeStep
    simp only
    rw [if_pos (by simpa [decisionFor] using hname)]
    exact ⟨rfl, rfl, ⟨rfl, rfl, rfl, hcore.health, hcore.strategy⟩⟩
  · cases hget : s.registry.get (decisionFor w req s).provider with
    | none =>
        refine .inr ?_
        unfold routeStep
        simp only
        rw [if_neg (by simpa [decisionFor] using hname)]
        simp only [decisionFor] at hget
        rw [hget]
        exact ⟨rfl, rfl, ⟨rfl, rfl, rfl, hcore.health, hcore.strategy⟩⟩
    | some provider => exact .inl ⟨provider, hname, rfl, routeStep_of_registered hname hget⟩

/-- In `/chat`, too, a registered primary is called. -/
theorem legacyRoute_of_registered {req : ChatRequest} {provider : Provider}
    (hget : s.registry.get (decisionFor w req s).provider = some provider) :
    legacyRoute P w req s =
      legacyCall P w req (decisionFor w req s) provider (afterRoute w req s) := by
  unfold legacyRoute
  simp only [decisionFor] at hget ⊢
  rw [hget]
  rfl

theorem legacyRoute_cases (req : ChatRequest) :
    (∃ provider, s.registry.get (decisionFor w req s).provider = some provider ∧
      legacyRoute P w req s =
        legacyCall P w req (decisionFor w req s) provider (afterRoute w req s)) ∨
      NoCall s (legacyRoute P w req s) := by
  cases hget : s.registry.get (decisionFor w req s).provider with
  | none =>
      unfold legacyRoute
      simp only [decisionFor] at hget ⊢
      rw [hget]
      exact .inr ⟨rfl, rfl, afterRoute_core w req s⟩
  | some provider => exact .inl ⟨provider, rfl, legacyRoute_of_registered hget⟩

/-- Handling one request: no provider call, or the call step of its endpoint in
a state with the core and the router it came with. -/
theorem serve_cases (P : Platform) (s : Server) (i : Incoming) :
    NoCall s (serve P s i) ∨
      (∃ req s' provider, i.endpoint = .completions ∧
        toRouting P i.world i.http s = some (req, s') ∧
        (decisionFor i.world req s').provider ≠ [] ∧
        s'.registry.get (decisionFor i.world req s').provider = some provider ∧
        serve P s i = callStep P i.world req (decisionFor i.world req s') provider
          (afterRoute i.world req s')) ∨
      ∃ req s' provider, i.endpoint = .chat ∧
        toLegacyRouting P i.world i.http s = some (req, s') ∧
        s'.registry.get (decisionFor i.world req s').provider = some provider ∧
        serve P s i = legacyCall P i.world req (decisionFor i.world req s') provider
          (afterRoute i.world req s') := by
  have hpass : ∀ {s' : Server} {served : Served}, SameCore s s' → NoCall s' served →
      NoCall s served :=
    fun hcore h => ⟨h.calls, h.recorded, hcore.trans h.core⟩
  obtain ⟨endpoint, http, w⟩ := i
  cases endpoint with
  | completions =>
      have hserve : serve P s ⟨.completions, http, w⟩ = chatCompletions P w http s := rfl
      rw [hserve]
      cases hrouting : toRouting P w http s with
      | none => exact .inl (chatCompletions_of_not_toRouting hrouting)
      | some routed =>
          obtain ⟨req, s'⟩ := routed
          rw [chatCompletions_of_toRouting hrouting]
          rcases routeStep_cases (P := P) (w := w) (s := s') req with
            ⟨provider, hname, hget, hrun⟩ | hnone
          · exact .inr (.inl ⟨req, s', provider, rfl, rfl, hname, hget, hrun⟩)
          · exact .inl (hpass (toRouting_core hrouting).2.1 hnone)
  | chat =>
      have hserve : serve P s ⟨.chat, http, w⟩ = chat P w http s := rfl
      rw [hserve]
      rcases chat_cases P w http s with
        ⟨req, s', hrouting, hrun⟩ | ⟨-, hnone⟩
      · rw [hrun]
        rcases legacyRoute_cases (P := P) (w := w) (s := s') req with
          ⟨provider, hget, hcall⟩ | hnone
        · exact .inr (.inr ⟨req, s', provider, rfl, hrouting, hget, hcall⟩)
        · exact .inl (hpass (toLegacyRouting_core hrouting).1 hnone)
      · exact .inl hnone

/-! ## Runs -/

theorem run_singleton (P : Platform) (s : Server) (i : Incoming) :
    run P s [i] = [⟨s, i, serve P s i⟩] := by
  simp [run]

theorem finalState_singleton (P : Platform) (s : Server) (i : Incoming) :
    finalState P s [i] = (serve P s i).server := by
  simp [finalState]

/-- The requests that are handled after one with this reply. -/
def Reply.remaining (reply : Reply) (rest : List Incoming) : List Incoming :=
  if reply.goesOn then rest else []

theorem run_cons (P : Platform) (s : Server) (i : Incoming) (rest : List Incoming) :
    run P s (i :: rest) =
      ⟨s, i, serve P s i⟩ :: run P (serve P s i).server ((serve P s i).reply.remaining rest) := by
  unfold Reply.remaining
  rw [run]
  cases (serve P s i).reply.goesOn <;> rfl

theorem finalState_cons (P : Platform) (s : Server) (i : Incoming) (rest : List Incoming) :
    finalState P s (i :: rest) =
      finalState P (serve P s i).server ((serve P s i).reply.remaining rest) := by
  unfold Reply.remaining
  rw [finalState]
  cases (serve P s i).reply.goesOn <;> rfl

/-- An invariant that every good step keeps holds at the end of a run of good
steps. -/
theorem finalState_induction {I : Server → Prop} {G : Step → Prop}
    (hstep : ∀ s i, I s → G ⟨s, i, serve P s i⟩ → I (serve P s i).server) {incoming : List Incoming}
    (hs : I s) (hgood : ∀ step ∈ run P s incoming, G step) : I (finalState P s incoming) := by
  induction incoming generalizing s with
  | nil => exact hs
  | cons i rest ih =>
      have hnext := hstep s i hs (hgood _ List.mem_cons_self)
      unfold finalState
      by_cases hgoes : (serve P s i).reply.goesOn = true
      · rw [if_pos hgoes]
        refine ih hnext fun step hin => hgood step (List.mem_cons_of_mem _ ?_)
        rw [if_pos hgoes]
        exact hin
      · rw [if_neg hgoes]
        exact hnext

/-- No request changes the configuration or the registry. -/
theorem serve_frame (P : Platform) (s : Server) (i : Incoming) :
    (serve P s i).server.config = s.config ∧ (serve P s i).server.registry = s.registry := by
  rcases serve_cases P s i with hnone | ⟨req, s', provider, -, hrouting, -, -, hrun⟩ |
    ⟨req, s', provider, -, hrouting, -, hrun⟩
  · exact ⟨hnone.core.config, hnone.core.registry⟩
  · have hcore := (toRouting_core hrouting).2.1
    obtain ⟨-, -, hconfig, hregistry⟩ := callStep_frame P i.world req
      (decisionFor i.world req s') provider (afterRoute i.world req s')
    rw [hrun]
    exact ⟨hconfig.trans hcore.config, hregistry.trans hcore.registry⟩
  · have hcore := (toLegacyRouting_core hrouting).1
    obtain ⟨-, -, hkept⟩ := legacyCall_frame P i.world req (decisionFor i.world req s') provider
      (afterRoute i.world req s')
    rw [hrun]
    exact ⟨hkept.config.trans hcore.config, hkept.registry.trans hcore.registry⟩

theorem finalState_frame (P : Platform) (s : Server) (incoming : List Incoming) :
    (finalState P s incoming).config = s.config ∧
      (finalState P s incoming).registry = s.registry := by
  refine finalState_induction (P := P) (s := s)
    (I := fun s' => s'.config = s.config ∧ s'.registry = s.registry) (G := fun _ => True)
    (fun s' i hs' _ => ?_) ⟨rfl, rfl⟩ fun _ _ => trivial
  obtain ⟨hconfig, hregistry⟩ := serve_frame P s' i
  exact ⟨hconfig.trans hs'.1, hregistry.trans hs'.2⟩

end Gateway
