import LlmGateway.Ledger

/-!
# What an answer costs

The handler prices a call by the name it was made under and by the model the
response carries, which `parse_response` takes from the reply.  One cost goes to
the client, into the cache and into the ledger; it is the cost of the requested
model only as far as the reply names that model or none.
-/

namespace Gateway

variable {P : Platform} {w : World} {http : HttpRequest} {req : ChatRequest}

/-! ## The answering call -/

/-- The call was made to the provider registered under its name, and this is
what came of it. -/
def ProviderCall.MadeBy (w : World) (call : ProviderCall) (provider : Provider) : Prop :=
  ∃ k, (provider.chat (w.upstream k provider call.request) call.request).outcome = call.outcome

theorem tryFallbacks_answered {registry : ProviderRegistry} (chain : List Str) (k : Nat)
    (router : Router) {call : ProviderCall} {resp : ChatResponse}
    (hcall : call ∈ (tryFallbacks w registry req chain k router).calls)
    (hanswered : call.outcome = .answered resp) :
    (tryFallbacks w registry req chain k router).finish =
        .answered { resp with provider := call.provider } ∧
      ∃ provider, registry.get call.provider = some provider ∧ call.MadeBy w provider := by
  induction chain generalizing k router with
  | nil => cases hcall
  | cons fbName chain ih =>
      cases hget : registry.get fbName with
      | none =>
          rw [tryFallbacks_skip hget] at hcall ⊢
          exact ih k router hcall
      | some fb =>
          rw [tryFallbacks_call hget] at hcall ⊢
          cases houtcome : fallbackOutcome w req k fb with
          | answered resp' =>
              simp only [houtcome, List.mem_singleton] at hcall ⊢
              subst hcall
              cases hanswered
              exact ⟨rfl, fb, hget, k, houtcome⟩
          | threw e =>
              simp only [houtcome, Called.after, List.mem_cons] at hcall ⊢
              rcases hcall with rfl | hcall
              · cases hanswered
              · exact ih (k + 1) (router.reportFailure w.later fbName) hcall
          | nullException =>
              simp only [houtcome, List.mem_singleton] at hcall
              subst hcall
              cases hanswered

/-- A successful call of a request is the one whose response is handed on, under
the name the call was made under. -/
theorem callProviders_answered {registry : ProviderRegistry} {decision : RouteDecision}
    {primary : Provider} {router : Router} (hget : registry.get decision.provider = some primary)
    (hname : primary.kind.name = decision.provider) {call : ProviderCall} {resp : ChatResponse}
    (hcall : call ∈ (callProviders w registry decision primary req router).calls)
    (hanswered : call.outcome = .answered resp) :
    (callProviders w registry decision primary req router).finish =
        .answered { resp with provider := call.provider } ∧
      ∃ provider, registry.get call.provider = some provider ∧ call.MadeBy w provider := by
  rw [callProviders_eq] at hcall ⊢
  cases houtcome : primaryOutcome w req decision primary with
  | answered resp' =>
      simp only [houtcome, List.mem_singleton] at hcall ⊢
      subst hcall
      cases hanswered
      have hprovider := (primaryOutcome_provider houtcome).trans hname
      exact ⟨by rw [← hprovider], primary, hget, 0, houtcome⟩
  | threw e =>
      simp only [houtcome, Called.after, List.mem_cons] at hcall ⊢
      rcases hcall with rfl | hcall
      · cases hanswered
      · exact tryFallbacks_answered decision.fallbackChain 1 _ hcall hanswered
  | nullException =>
      simp only [houtcome, List.mem_singleton] at hcall
      subst hcall
      cases hanswered

/-! ## One cost -/

/-- The cost the client reads. -/
def Response.costUsd? (r : Response) : Option Json :=
  (r.body.find? (str "x_gateway")).bind fun gateway => gateway.find? (str "cost_usd")

/-- The cost of a response goes to the client, into the cache and into the
ledger. -/
structure Charged (http : HttpRequest) (stream : Bool) (s : Server) (served : Served)
    (entry : LedgerEntry) (cost : Double) : Prop where
  client : ∀ r, served.reply = .response r → r.costUsd? = some (.float cost)
  cached : served.reply.goesOn = true → s.config.cache.enabled = true → stream = false →
    ∃ n rest, served.server.cache.entries = n :: rest ∧ n.entry.response.costUsd = cost
  recorded : ∃ m, served.recorded = [m] ∧ m.entry = entry ∧ m.costUsd = cost ∧
    served.server.costs.history = CostTracker.pushHistory m s.costs.history
  spent : http.authorization ≠ [] → served.server.costs.getSpend http.authorization =
    s.costs.getSpend http.authorization + cost

/-- Whatever `put` stores is at the front. -/
theorem Cache.put_front (P : Platform) {cfg : CacheConfig} {now : Time} {resp : ChatResponse}
    {c c' : Cache} (h : c.put P cfg now req resp = some c') (hen : cfg.enabled = true)
    (hstream : req.stream = false) :
    ∃ n rest, c'.entries = n :: rest ∧ n.entry.response = resp := by
  rw [put_of_effective P hen now hstream, Option.map_eq_some_iff] at h
  obtain ⟨c₂, -, rfl⟩ := h
  exact ⟨_, _, rfl, rfl⟩

namespace CostTracker

/-- Recording prices a response as the estimate did. -/
theorem priced_costUsd (now : Time) (req : ChatRequest) (resp : ChatResponse) (t : CostTracker) :
    (t.priced (metricsOf now req (priceResponse t req resp))).costUsd =
      t.estimateCost resp.provider resp.model resp.promptTokens resp.completionTokens := by
  simp only [priced, metricsOf, priceResponse, estimateCost]
  cases t.pricing.lookup (pricingKey resp.provider resp.model) <;> rfl

theorem getSpend_record {t : CostTracker} {m : RequestMetrics} (hkey : m.apiKey ≠ []) :
    (t.record m).getSpend m.apiKey = t.getSpend m.apiKey + (t.priced m).costUsd := by
  have hsame : (t.priced m).apiKey = m.apiKey := by
    unfold priced
    split <;> rfl
  have hnot : m.apiKey.isEmpty = false := by simpa using hkey
  simp only [record, hsame, hnot, Bool.false_eq_true, if_false]
  show (AList.lookup m.apiKey (AList.insert m.apiKey _ t.spendByKey)).getD 0 = _
  rw [AList.lookup_insert, Option.getD_some]

end CostTracker

theorem missResponse_costUsd (requestId : Str) (resp : ChatResponse) (decision : RouteDecision) :
    (missResponse requestId resp decision).costUsd? = some (.float resp.costUsd) := rfl

/-- Settling charges the estimate for the response. -/
theorem settle_charged (hkey : req.apiKey = http.authorization) (decision : RouteDecision)
    (resp : ChatResponse) (calls : List ProviderCall) (s : Server) :
    Charged http req.stream s (settle P w req decision resp calls s) resp.entry
      (s.costs.estimateCost resp.provider resp.model resp.promptTokens resp.completionTokens) := by
  have hrecorded : ∃ m, [s.costs.priced (metricsOf w.later req (priceResponse s.costs req resp))] =
      [m] ∧ m.entry = resp.entry ∧
        m.costUsd = s.costs.estimateCost resp.provider resp.model resp.promptTokens
          resp.completionTokens ∧
        (s.costs.record (metricsOf w.later req (priceResponse s.costs req resp))).history =
          CostTracker.pushHistory m s.costs.history :=
    ⟨_, rfl, CostTracker.priced_entry _ _, CostTracker.priced_costUsd _ _ _ _, rfl⟩
  have hspent : http.authorization ≠ [] →
      (s.costs.record (metricsOf w.later req (priceResponse s.costs req resp))).getSpend
          http.authorization =
        s.costs.getSpend http.authorization +
          s.costs.estimateCost resp.provider resp.model resp.promptTokens
            resp.completionTokens := by
    intro hne
    rw [← hkey] at hne ⊢
    rw [← CostTracker.priced_costUsd w.later req resp s.costs]
    exact CostTracker.getSpend_record
      (m := metricsOf w.later req (priceResponse s.costs req resp)) hne
  unfold settle
  simp only [bookkeep]
  split
  · refine ⟨?_, ?_, hrecorded, hspent⟩
    · intro r hr
      cases hr
    · intro hgoes
      cases hgoes
  · next cache hput =>
      refine ⟨?_, ?_, hrecorded, hspent⟩
      · intro r hr
        cases hr
        exact missResponse_costUsd _ _ _
      · intro _ hen hstream
        obtain ⟨n, rest, hentries, hresp⟩ := Cache.put_front P hput hen hstream
        exact ⟨n, rest, hentries, by rw [hresp]; rfl⟩

theorem callStep_charged (hkey : req.apiKey = http.authorization) {decision : RouteDecision}
    {provider : Provider} {s : Server} {resp : ChatResponse}
    (hfinish : (callProviders w s.registry decision provider req s.router).finish =
      .answered resp) :
    Charged http req.stream s (callStep P w req decision provider s) resp.entry
      (s.costs.estimateCost resp.provider resp.model resp.promptTokens resp.completionTokens) := by
  unfold callStep
  simp only [hfinish]
  obtain ⟨hclient, hcached, hrecorded, hspent⟩ := settle_charged (P := P) (w := w) hkey decision
    resp (callProviders w s.registry decision provider req s.router).calls
    { s with router := (callProviders w s.registry decision provider req s.router).router }
  exact ⟨hclient, hcached, hrecorded, hspent⟩

theorem Charged.of_core {s s' : Server} {stream : Bool} {served : Served} {entry : LedgerEntry}
    {cost : Double} (h : Charged http stream s' served entry cost) (hcore : SameCore s s') :
    Charged http stream s served entry cost := by
  obtain ⟨hclient, hcached, hrecorded, hspent⟩ := h
  rw [hcore.config] at hcached
  rw [hcore.costs] at hrecorded hspent
  exact ⟨hclient, hcached, hrecorded, hspent⟩

/-- A request that was served by a call got to its call step. -/
theorem chatCompletions_of_call {s : Server} {call : ProviderCall}
    (hcall : call ∈ (chatCompletions P w http s).calls) :
    ∃ req s' primary, toRouting P w http s = some (req, s') ∧
      s'.registry.get (decisionFor w req s').provider = some primary ∧
      chatCompletions P w http s =
        callStep P w req (decisionFor w req s') primary (afterRoute w req s') := by
  cases hrouting : toRouting P w http s with
  | none =>
      rw [(chatCompletions_of_not_toRouting hrouting).calls] at hcall
      cases hcall
  | some routed =>
      obtain ⟨req, s'⟩ := routed
      rw [chatCompletions_of_toRouting hrouting] at hcall ⊢
      rcases routeStep_cases (P := P) (w := w) (s := s') req with ⟨primary, -, hget, hrun⟩ | hnone
      · exact ⟨req, s', primary, rfl, hget, hrun⟩
      · rw [hnone.calls] at hcall
        cases hcall

/-- What the provider answered: the reply to one attempt of the call parses to
the response, and the response has the model that the reply names, or that of
the call where it names none. -/
def ProviderCall.AnsweredWith (w : World) (call : ProviderCall) (provider : Provider)
    (resp : ChatResponse) : Prop :=
  ∃ k i reply, httpPost (w.upstream k provider call.request i).reply = .ok reply ∧
    provider.kind.parseResponse reply call.request (w.upstream k provider call.request i).elapsedMs =
      .ok resp ∧
    (reply.find? (str "model") = some (.string resp.model) ∨
      reply.find? (str "model") = none ∧ resp.model = call.request.model)

theorem ProviderCall.MadeBy.answeredWith {call : ProviderCall} {provider : Provider}
    {resp : ChatResponse} (h : call.MadeBy w provider) (hanswered : call.outcome = .answered resp) :
    call.AnsweredWith w provider resp := by
  obtain ⟨k, houtcome⟩ := h
  obtain ⟨i, reply, hpost, hparse⟩ := Provider.chat_answered (houtcome.trans hanswered)
  refine ⟨k, i, reply, hpost, hparse, ?_⟩
  rcases Json.value_eq_ok (parsed_of_parseResponse hparse).model with ⟨v, hfind, hget⟩ | hmissing
  · left
    rw [hfind]
    cases v with
    | string model => rw [Except.ok.inj hget]
    | _ => cases hget
  · exact .inr hmissing

/-- **Cost.**  For a request of `/v1/chat/completions` that a provider call
answered, one cost is returned to the client, stored in the cached response and
added to the ledger.  It is that of the response's tokens at the rates of the
name the call was made under and the model that the reply names (the model of
the call where it names none), or at the default rate where the table has no
such pair. -/
theorem cost_at_reported_model (P : Platform) (w : World) (http : HttpRequest) (s : Server)
    (hregistry : s.registry = ProviderRegistry.initializeFrom s.config.providers {})
    (call : ProviderCall) (hcall : call ∈ (chatCompletions P w http s).calls) (resp : ChatResponse)
    (hanswered : call.outcome = .answered resp) :
    ∃ req cost, parsedRequest w http = some req ∧
      Charged http req.stream s (chatCompletions P w http s)
        ⟨call.provider, resp.model, resp.promptTokens, resp.completionTokens⟩ cost ∧
      (∀ price, s.costs.pricing.lookup (pricingKey call.provider resp.model) = some price →
        cost = resp.promptTokens / 1000 * price.inputCostPer1k +
          resp.completionTokens / 1000 * price.outputCostPer1k) ∧
      (s.costs.pricing.lookup (pricingKey call.provider resp.model) = none →
        cost = wrap32 (resp.promptTokens + resp.completionTokens) * 0.002 / 1000) ∧
      ∃ provider, s.registry.get call.provider = some provider ∧
        call.AnsweredWith w provider resp := by
  obtain ⟨req, s', primary, hrouting, hget, hrun⟩ := chatCompletions_of_call hcall
  obtain ⟨hparsed, hcore, -⟩ := toRouting_core hrouting
  have hroute := hcore.trans (afterRoute_core w req s')
  have hname : primary.kind.name = (decisionFor w req s').provider := by
    rw [hcore.registry, hregistry] at hget
    exact ProviderRegistry.kind_of_get_initializeFrom (fun _ _ h => by cases h) hget
  have hcalls := (callStep_frame P w req (decisionFor w req s') primary
    (afterRoute w req s')).1
  rw [hrun, hcalls] at hcall
  obtain ⟨hfinish, provider, hprovider, hmade⟩ := callProviders_answered hget hname hcall hanswered
  have hcharged := callStep_charged (P := P) (parsedRequest_apiKey hparsed) hfinish
  rw [← hrun] at hcharged
  have hcosts : (afterRoute w req s').costs = s.costs := hroute.costs
  rw [hcosts] at hcharged
  refine ⟨req, _, hparsed, hcharged.of_core hroute, ?_, ?_, provider, ?_,
    hmade.answeredWith hanswered⟩
  · intro price hprice
    simp only [CostTracker.estimateCost, hprice, CostTracker.priceAt, fl_exactly]
  · intro hnone
    simp only [CostTracker.estimateCost, hnone, fl_exactly]
  · rw [← hcore.registry]
    exact hprovider

/-- An upstream that names the dated version of the model it was asked for. -/
def datedModel : World where
  ordered := noDelay
  upstream _ _ _ _ :=
    ⟨.answered 200 [] (.ok (.object
      [(str "model", .string (str "gpt-4o-mini-2024-07-18")),
       (str "usage", .object
        [(str "prompt_tokens", .integer 1000), (str "completion_tokens", .integer 1000)])])), 0⟩

/-- One provider for that model. -/
def miniConfig : GatewayConfig :=
  setDefaultPricing
    { providers := [{ name := str "openai", apiKey := str "k", models := [str "gpt-4o-mini"] }] }

/-- The call that is made there, and what its response carries. -/
theorem datedModel_called :
    ∃ call resp, call ∈ (chatCompletions (cLocale fnv1a) datedModel plainHttp
        (Server.init miniConfig)).calls ∧
      call.outcome = .answered resp ∧ call.request.model = str "gpt-4o-mini" ∧
      (⟨call.provider, resp.model, resp.promptTokens, resp.completionTokens⟩ : LedgerEntry) =
        ⟨str "openai", str "gpt-4o-mini-2024-07-18", 1000, 1000⟩ := by
  have hcalls : ((chatCompletions (cLocale fnv1a) datedModel plainHttp
      (Server.init miniConfig)).calls.map fun call => (call.request.model, call.entry?)) =
      [(str "gpt-4o-mini", some ⟨str "openai", str "gpt-4o-mini-2024-07-18", 1000, 1000⟩)] := by
    decide +kernel
  obtain ⟨call, hcall, heq⟩ := List.mem_map.mp (hcalls ▸ List.mem_singleton_self _)
  obtain ⟨hmodel, hentry⟩ := Prod.mk.inj heq
  cases houtcome : call.outcome with
  | answered resp =>
      simp only [ProviderCall.entry?, houtcome] at hentry
      exact ⟨call, resp, hcall, houtcome, hmodel, Option.some.inj hentry⟩
  | threw e => simp [ProviderCall.entry?, houtcome] at hentry
  | nullException => simp [ProviderCall.entry?, houtcome] at hentry

/-- That answer is charged at the default rate. -/
theorem cost_at_reported_model_dated :
    ∃ req cost, parsedRequest datedModel plainHttp = some req ∧
      Charged plainHttp req.stream (Server.init miniConfig)
        (chatCompletions (cLocale fnv1a) datedModel plainHttp (Server.init miniConfig))
        ⟨str "openai", str "gpt-4o-mini-2024-07-18", 1000, 1000⟩ cost ∧
      cost = 0.004 := by
  obtain ⟨call, resp, hcall, hanswered, -, hentry⟩ := datedModel_called
  obtain ⟨req, cost, hparsed, hcharged, -, hdefault, -⟩ := cost_at_reported_model (cLocale fnv1a)
    datedModel plainHttp (Server.init miniConfig) rfl call hcall resp hanswered
  obtain ⟨hprovider, hmodel, hprompt, hcompletion⟩ := LedgerEntry.mk.inj hentry
  rw [hentry] at hcharged
  rw [hprovider, hmodel, hprompt, hcompletion] at hdefault
  refine ⟨req, cost, hparsed, hcharged, (hdefault (by decide +kernel)).trans ?_⟩
  decide +kernel

/-- It is not charged at the rates of the model that was asked for. -/
theorem dated_model_charged_otherwise :
    ¬ ∀ (P : Platform) (cfg : GatewayConfig) (w : World) (http : HttpRequest) (call : ProviderCall)
        (resp : ChatResponse) (price : ModelPricing) (req : ChatRequest),
      call ∈ (chatCompletions P w http (Server.init cfg)).calls → call.outcome = .answered resp →
      cfg.pricing.lookup (pricingKey call.provider call.request.model) = some price →
      parsedRequest w http = some req →
        Charged http req.stream (Server.init cfg) (chatCompletions P w http (Server.init cfg))
          ⟨call.provider, resp.model, resp.promptTokens, resp.completionTokens⟩
          (resp.promptTokens / 1000 * price.inputCostPer1k +
            resp.completionTokens / 1000 * price.outputCostPer1k) := by
  intro h
  obtain ⟨call, resp, hcall, hanswered, hasked, hentry⟩ := datedModel_called
  obtain ⟨hprovider, -, hprompt, hcompletion⟩ := LedgerEntry.mk.inj hentry
  have hcharged := h (cLocale fnv1a) miniConfig datedModel plainHttp call resp
    ⟨str "openai", str "gpt-4o-mini", 0.00015, 0.0006⟩ plainRequest hcall hanswered
    (by rw [hprovider, hasked]; decide +kernel) rfl
  obtain ⟨m, hrecorded, -, hcost, -⟩ := hcharged.recorded
  rw [hprompt, hcompletion] at hcost
  have hledger : (chatCompletions (cLocale fnv1a) datedModel plainHttp
      (Server.init miniConfig)).recorded.map RequestMetrics.costUsd = [0.004] := by decide +kernel
  rw [hrecorded, List.map_singleton, hcost] at hledger
  revert hledger
  decide +kernel

end Gateway
