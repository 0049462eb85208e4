import LlmGateway.Fallback

/-!
# Coming back from unavailable

A provider is marked unavailable by its failures and available again only by a
success, and a success takes a call.  The strategies call usable entries, so an
unavailable provider is called in one situation only: the cost strategy finds
no priced pair and falls back on the first enabled entry with models without
asking for its health.  `recovers_iff` says that this is the one way back, and
that everywhere else unavailability lasts.
-/

namespace Gateway

namespace Router

variable {cfg : GatewayConfig} {r : Router}

/-- The cost strategy falls back on the provider. -/
def FallsBackOn (cfg : GatewayConfig) (r : Router) (provider : Str) : Prop :=
  r.strategy = .costOptimized ∧ (∀ p m, ¬ CheapestNamed cfg r p m) ∧
    ∃ pc, firstEntry cfg = some pc ∧ pc.name = provider

/-- A success makes a provider available and no other. -/
theorem isAvailable_reportSuccess (now : Time) (provider : Str) (ms : Double) (name : Str) :
    (r.reportSuccess now provider ms).isAvailable name =
      (decide (name = provider) || r.isAvailable name) := by
  unfold isAvailable reportSuccess
  by_cases h : name = provider
  · subst h
    simp only [AList.lookup_insert, decide_true, Bool.true_or]
  · simp only [AList.lookup_insert_ne h, decide_false, h, Bool.false_or]

/-- With fewer available names the priced pairs are filtered. -/
theorem pricedPairs_filter {r' : Router}
    (h : ∀ name, r.isAvailable name = true → r'.isAvailable name = true) :
    pricedPairs cfg r = (pricedPairs cfg r').filter fun b => r.isAvailable b.provider := by
  unfold pricedPairs
  rw [List.filter_flatMap]
  congr 1
  funext pc
  cases havailable : r.isAvailable pc.name with
  | true =>
      rw [h pc.name havailable]
      cases pc.enabled with
      | false => rfl
      | true =>
          simp only [Bool.and_self, if_true]
          refine (List.filter_eq_self.mpr fun b hb => ?_).symm
          obtain ⟨model, -, hsome⟩ := List.mem_filterMap.mp hb
          obtain ⟨price, -, rfl⟩ := Option.map_eq_some_iff.mp hsome
          exact havailable
  | false =>
      rw [Bool.and_false, if_neg Bool.false_ne_true]
      refine (List.filter_eq_nil_iff.mpr fun b hb => ?_).symm
      split at hb
      · obtain ⟨model, -, hsome⟩ := List.mem_filterMap.mp hb
        obtain ⟨price, -, rfl⟩ := Option.map_eq_some_iff.mp hsome
        simp [havailable]
      · cases hb

/-- A success elsewhere does not take the cheapest named pair away. -/
theorem CheapestNamed.after_success (now : Time) {provider p m : Str} (ms : Double)
    (h : CheapestNamed cfg r p m) (hprovider : provider ≠ []) :
    ∃ p' m', CheapestNamed cfg (r.reportSuccess now provider ms) p' m' := by
  obtain ⟨hp, rate, hfirst⟩ := h
  have hmore : ∀ name, r.isAvailable name = true →
      (r.reportSuccess now provider ms).isAvailable name = true := by
    intro name hname
    rw [isAvailable_reportSuccess, hname, Bool.or_true]
  have hfilter : pricedPairs cfg r = (pricedPairs cfg (r.reportSuccess now provider ms)).filter
      fun b => r.isAvailable b.provider := pricedPairs_filter hmore
  have hold : ⟨p, m, rate⟩ ∈ pricedPairs cfg (r.reportSuccess now provider ms) :=
    List.mem_of_mem_filter (hfilter ▸ hfirst.mem)
  obtain ⟨b, hnew⟩ : ∃ b, Scan.FirstBelow Best.value 1000000000
      (pricedPairs cfg (r.reportSuccess now provider ms)) b :=
    ⟨_, Scan.firstBelow_scan Best.value {} ⟨_, hold, hfirst.1⟩⟩
  refine ⟨b.provider, b.model, fun hnil => ?_, b.value, hnew⟩
  -- an unnamed winner was there before, and won
  have hthere : r.isAvailable [] = true := by
    obtain ⟨pc, -, -, havailable, hname, -⟩ := mem_pricedPairs.mp hnew.mem
    rw [← hname, hnil, isAvailable_reportSuccess] at havailable
    simpa [Ne.symm hprovider] using havailable
  have hbefore := hnew.filter (p := fun b => r.isAvailable b.provider)
    (show r.isAvailable b.provider = true by rw [hnil]; exact hthere)
  rw [← hfilter] at hbefore
  have hsame := hbefore.unique hfirst
  exact hp ((congrArg Best.provider hsame).symm.trans hnil)

theorem FallsBackOn.before_success {now : Time} {provider p : Str} {ms : Double}
    (h : FallsBackOn cfg (r.reportSuccess now provider ms) p) (hprovider : provider ≠ []) :
    FallsBackOn cfg r p := by
  obtain ⟨hstrategy, hnone, hfirst⟩ := h
  refine ⟨hstrategy, fun q m hcheapest => ?_, hfirst⟩
  obtain ⟨q', m', hafter⟩ := hcheapest.after_success now ms hprovider
  exact hnone q' m' hafter

/-- Falling back depends on the health map and the strategy. -/
theorem FallsBackOn.congr {r' : Router} {p : Str} (hhealth : r'.health = r.health)
    (hstrategy : r'.strategy = r.strategy) (h : FallsBackOn cfg r' p) : FallsBackOn cfg r p := by
  obtain ⟨health, counter, strategy⟩ := r
  obtain ⟨health', counter', strategy'⟩ := r'
  subst hhealth hstrategy
  exact h

theorem isAvailable_congr {r' : Router} (hhealth : r'.health = r.health) (name : Str) :
    r'.isAvailable name = r.isAvailable name := by
  unfold isAvailable
  rw [hhealth]

end Router

/-- The request that a body stands for at its endpoint. -/
def Incoming.request (i : Incoming) : Option ChatRequest :=
  match i.endpoint with
  | .completions => parsedRequest i.world i.http
  | .chat => (parsedPrompt i.http).map (legacyRequest (generateRequestId i.world.requestDraw))

/-- The request names the provider, by an alias or as `provider:model`. -/
def Incoming.Names (cfg : GatewayConfig) (provider : Str) (i : Incoming) : Prop :=
  ∃ req, i.request = some req ∧
    ∃ model, splitAtColon (resolveModelAlias cfg req.model) = some (provider, model)

/-- A step that does not name the provider, whose provider calls all succeed and
after which the server goes on. -/
structure Step.Quiet (provider : Str) (step : Step) : Prop where
  unnamed : ¬ step.incoming.Names step.before.config provider
  answered : ∀ call ∈ step.served.calls, call.outcome.Answered
  goesOn : step.served.reply.goesOn = true

/-- A registered provider is unavailable, and there is no way back: it has a
negative number of retries or the cost strategy does not fall back on it. -/
structure Stranded (name : Str) (provider : Provider) (s : Server) : Prop where
  named : name ≠ []
  registered : s.registry.get name = some provider
  unavailable : s.router.isAvailable name = false
  stuck : provider.maxRetries < 0 ∨ ¬ Router.FallsBackOn s.config s.router name

namespace Stranded

variable {P : Platform} {s s' : Server} {name : Str} {provider : Provider}

theorem of_core (h : Stranded name provider s) (hcore : SameCore s s') :
    Stranded name provider s' where
  named := h.named
  registered := by rw [hcore.registry]; exact h.registered
  unavailable := by rw [Router.isAvailable_congr hcore.health]; exact h.unavailable
  stuck := by
    rcases h.stuck with hneg | hnot
    · exact .inl hneg
    · rw [hcore.config]
      exact .inr fun hfalls => hnot (hfalls.congr hcore.health hcore.strategy)

/-- The provider is not the primary of a request that does not name it, unless
its calls cannot succeed. -/
theorem primary_ne (h : Stranded name provider s) {w : World} {req : ChatRequest}
    (hprovider : (decisionFor w req s).provider = name)
    (hunnamed : ¬ ∃ model, splitAtColon (resolveModelAlias s.config req.model) =
      some (name, model)) : provider.maxRetries < 0 := by
  cases hsplit : splitAtColon (resolveModelAlias s.config req.model) with
  | some direct =>
      obtain ⟨named, model⟩ := direct
      have hdirect : (decisionFor w req s).provider = named := by
        simp only [decisionFor, Router.route, hsplit]
      exact absurd ⟨model, by rw [hsplit, ← hprovider, hdirect]⟩ hunnamed
  | none =>
      have hpick := (Router.picks_iff (r := s.router) hsplit).mpr
        ⟨w.walk, w.sort, hprovider, rfl⟩
      rcases hpick.provider_cases with ⟨pc, hpc, rfl⟩ | ⟨hstrategy, hnone, hfirst⟩ | hnil
      · have hdown := h.unavailable
        rw [(Router.mem_usable.mp hpc).2.2.2] at hdown
        cases hdown
      · exact h.stuck.resolve_right fun hnot => hnot ⟨hstrategy, hnone, hfirst⟩
      · exact absurd hnil h.named

/-- A success of another provider changes nothing. -/
theorem after_success (h : Stranded name provider s) {now : Time} {other : Str} {ms : Double}
    (hother : other ≠ name) (hnonempty : other ≠ []) (hregistry : s'.registry = s.registry)
    (hconfig : s'.config = s.config)
    (hrouter : s'.router = s.router.reportSuccess now other ms) : Stranded name provider s' where
  named := h.named
  registered := by rw [hregistry]; exact h.registered
  unavailable := by
    rw [hrouter, Router.isAvailable_reportSuccess, h.unavailable]
    simpa using Ne.symm hother
  stuck := by
    rcases h.stuck with hneg | hnot
    · exact .inl hneg
    · rw [hconfig, hrouter]
      exact .inr fun hfalls => hnot (hfalls.before_success hnonempty)

/-- A quiet step leaves a stranded provider stranded. -/
theorem step (h : Stranded name provider s) {i : Incoming}
    (hquiet : Step.Quiet name ⟨s, i, serve P s i⟩) :
    Stranded name provider (serve P s i).server := by
  obtain ⟨hunnamed, hanswered, -⟩ := hquiet
  simp only at hunnamed hanswered
  rcases serve_cases P s i with hnone | ⟨req, s', primary, hendpoint, hrouting, hname, hget, hrun⟩ |
    ⟨req, s', primary, hendpoint, hrouting, hget, hrun⟩
  · exact h.of_core hnone.core
  · obtain ⟨hparsed, hcore, -⟩ := toRouting_core hrouting
    have hroute := hcore.trans (afterRoute_core i.world req s')
    obtain ⟨hcalls, hrouter, hconfig, hregistry⟩ :=
      callStep_frame P i.world req (decisionFor i.world req s') primary
        (afterRoute i.world req s')
    rw [hrun] at hanswered ⊢
    rw [hcalls] at hanswered
    have hprimary := hanswered _ (callProviders_first _ _ _)
    obtain ⟨resp, hresp⟩ := ChatOutcome.answered_iff.mp hprimary
    have hne : (decisionFor i.world req s').provider ≠ name := by
      intro heq
      have hneg := (h.of_core hcore).primary_ne heq fun ⟨model, hsplit⟩ => hunnamed
        ⟨req, by simp only [Incoming.request, hendpoint, hparsed], model, by
          rw [← hcore.config]; exact hsplit⟩
      rw [heq, hcore.registry, h.registered] at hget
      cases hget
      have hnull : primaryOutcome i.world req (decisionFor i.world req s') provider =
          .nullException := Provider.chat_null_iff.mpr hneg
      rw [hnull] at hresp
      cases hresp
    rw [callProviders_eq] at hrouter
    simp only at hresp
    rw [hresp] at hrouter
    exact (h.of_core hroute).after_success hne hname hregistry hconfig hrouter
  · obtain ⟨-, -, hkept⟩ := legacyCall_frame P i.world req (decisionFor i.world req s') primary
      (afterRoute i.world req s')
    rw [hrun]
    exact h.of_core (((toLegacyRouting_core hrouting).1.trans
      (afterRoute_core i.world req s')).trans hkept)

/-- No run of quiet steps brings a stranded provider back. -/
theorem run (h : Stranded name provider s) {incoming : List Incoming}
    (hquiet : ∀ step ∈ Gateway.run P s incoming, step.Quiet name) :
    Stranded name provider (finalState P s incoming) :=
  finalState_induction (fun _ _ hs hstep => hs.step hstep) h hquiet

end Stranded

/-! ## The way back -/

/-- After every expiry time nothing is served from the cache. -/
theorem Cache.get_none_of_expired (P : Platform) (cfg : CacheConfig) {now : Time}
    (req : ChatRequest) {c : Cache} (h : ∀ n ∈ c.entries, n.entry.expiresAt < now) :
    (c.get P cfg now req).1 = none := by
  unfold get
  split
  · rfl
  · simp only
    split
    · rfl
    · next it hit =>
        cases hderef : c.deref it with
        | none => rfl
        | some entry =>
            obtain ⟨n, hn, rfl⟩ := Option.map_eq_some_iff.mp hderef
            simp only
            rw [if_pos (h n (List.mem_of_find?_eq_some hn))]

/-- Some time is past every expiry time. -/
theorem exists_past_expiry (entries : List Node) :
    ∃ now : Time, ∀ n ∈ entries, n.entry.expiresAt < now := by
  induction entries with
  | nil => exact ⟨0, by simp⟩
  | cons n entries ih =>
      obtain ⟨now, hnow⟩ := ih
      refine ⟨max now (n.entry.expiresAt + 1), fun m hm => ?_⟩
      rcases List.mem_cons.mp hm with rfl | hm
      · exact lt_max_of_lt_right (Int.lt_succ _)
      · exact lt_max_of_lt_left (hnow m hm)

/-- A model that is longer than every alias. -/
def freshModel (cfg : GatewayConfig) : Str :=
  List.replicate ((cfg.modelAliases.entries.map fun e => e.1.length).sum + 1) (byte 'a')

theorem freshModel_plain (cfg : GatewayConfig) :
    splitAtColon (resolveModelAlias cfg (freshModel cfg)) = none := by
  refine Router.plain_of_no_alias ?_ ?_
  · rw [AList.lookup_eq_none]
    intro hmem
    obtain ⟨e, he, hkey⟩ := List.mem_map.mp (AList.mem_keys.mp hmem)
    have hle : e.1.length ≤ (cfg.modelAliases.entries.map fun e => e.1.length).sum :=
      List.single_le_sum (by simp) _ (List.mem_map_of_mem he)
    rw [hkey] at hle
    simp only [freshModel, List.length_replicate] at hle
    omega
  · intro hmem
    have := List.eq_of_mem_replicate hmem
    revert this
    decide

/-- A streaming request for that model without a key, at a time when every
provider answers with an empty object. -/
def recoveryRequest (cfg : GatewayConfig) (now : Time) : Incoming where
  endpoint := .completions
  http := { body := some (.object
    [(str "model", .string (freshModel cfg)), (str "stream", .boolean true),
     (str "messages", .array [.object []])]) }
  world :=
    { now := now, ordered := le_refl now,
      upstream := fun _ _ _ _ => ⟨.answered 200 [] (.ok (.object [])), 0⟩ }

theorem recoveryRequest_parsed (cfg : GatewayConfig) (now : Time) :
    ∃ req, parsedRequest (recoveryRequest cfg now).world (recoveryRequest cfg now).http = some req ∧
      req.model = freshModel cfg ∧ req.stream = true ∧ req.apiKey = [] :=
  ⟨{ requestId := generateRequestId 0, model := freshModel cfg, stream := true,
     messages := [⟨str "user", []⟩] }, rfl, rfl, rfl, rfl⟩

/-- Every provider takes the empty object for an answer. -/
theorem parseResponse_empty (kind : ProviderKind) (req : ChatRequest) (ms : Double) :
    ∃ resp, kind.parseResponse (.object []) req ms = .ok resp := by
  cases kind with
  | openai => exact ⟨_, rfl⟩
  | anthropic => exact ⟨_, rfl⟩
  | together => exact ⟨_, rfl⟩
  | groq => exact ⟨_, rfl⟩

/-- The request gets to its routing step: it has no key and misses the cache. -/
theorem toRouting_recoveryRequest (P : Platform) {s : Server} {now : Time}
    (hnow : ∀ n ∈ s.cache.entries, n.entry.expiresAt < now) :
    ∃ req s', toRouting P (recoveryRequest s.config now).world (recoveryRequest s.config now).http s =
      some (req, s') ∧ req.model = freshModel s.config ∧ req.stream = true := by
  obtain ⟨req, hparsed, hmodel, hstream, hkey⟩ := recoveryRequest_parsed s.config now
  have hcache : ∃ s', pastCache P (recoveryRequest s.config now).world req
      { s with metrics := s.metrics.incRequests } = some s' := by
    unfold pastCache
    split
    · next cached cache hget =>
        have hmiss := Cache.get_none_of_expired P s.config.cache req hnow
        cases hmiss.symm.trans (congrArg Prod.fst hget)
    · next cache hget => exact ⟨_, rfl⟩
  obtain ⟨s', hs'⟩ := hcache
  refine ⟨req, s', ?_, hmodel, hstream⟩
  simp only [toRouting, hparsed, pastLimiter, hkey, List.isEmpty_nil, if_true, Option.bind_eq_bind,
    Option.bind_some, hs']

/-- Where the cost strategy falls back on a provider, it answers a request that
names none with it. -/
theorem decisionFor_of_fallsBackOn {w : World} {req : ChatRequest} {s : Server} {name : Str}
    (hplain : splitAtColon (resolveModelAlias s.config req.model) = none)
    (hfalls : Router.FallsBackOn s.config s.router name) :
    (decisionFor w req s).provider = name := by
  obtain ⟨hstrategy, hnone, pc, hpc, rfl⟩ := hfalls
  have hpick := (Router.picks_iff (r := s.router) hplain).mpr ⟨w.walk, w.sort, rfl, rfl⟩
  unfold Router.Picks at hpick
  rw [hstrategy] at hpick
  rcases hpick with hcheapest | ⟨-, ⟨pc', hpc', heq, -⟩ | ⟨hno, -⟩⟩
  · exact absurd hcheapest (hnone _ _)
  · cases hpc.symm.trans hpc'
    exact heq
  · cases hpc.symm.trans hno

/-- A registered primary answers that request. -/
theorem recoveryRequest_answered (cfg : GatewayConfig) (now : Time) (req : ChatRequest)
    (decision : RouteDecision) {provider : Provider} (hretries : 0 ≤ provider.maxRetries) :
    ∃ resp, primaryOutcome (recoveryRequest cfg now).world req decision provider =
      .answered resp := by
  obtain ⟨resp, hparse⟩ := parseResponse_empty provider.kind (primaryRequest req decision) 0
  exact ⟨resp, Provider.chat_of_first_ok hretries rfl hparse⟩

/-- Where the cost strategy falls back on a provider, one request calls it and
brings it back. -/
theorem recovers_of_fallsBackOn (P : Platform) {s : Server} {name : Str} {provider : Provider}
    (hname : name ≠ []) (hget : s.registry.get name = some provider)
    (hfalls : Router.FallsBackOn s.config s.router name) (hretries : 0 ≤ provider.maxRetries) :
    ∃ incoming, (∀ step ∈ run P s incoming, step.Quiet name) ∧
      (finalState P s incoming).router.isAvailable name = true := by
  obtain ⟨now, hnow⟩ := exists_past_expiry s.cache.entries
  obtain ⟨req, s', hrouting, hmodel, hstream⟩ := toRouting_recoveryRequest P hnow
  obtain ⟨hparsed, hcore, hrouter⟩ := toRouting_core hrouting
  have hplain : splitAtColon (resolveModelAlias s.config req.model) = none :=
    hmodel ▸ freshModel_plain s.config
  have hdecision : (decisionFor (recoveryRequest s.config now).world req s').provider = name :=
    decisionFor_of_fallsBackOn (by rw [hcore.config]; exact hplain)
      (by rw [hcore.config, hrouter]; exact hfalls)
  obtain ⟨resp, hresp⟩ := recoveryRequest_answered s.config now req
    (decisionFor (recoveryRequest s.config now).world req s') hretries
  have hserve : serve P s (recoveryRequest s.config now) =
      callStep P (recoveryRequest s.config now).world req
        (decisionFor (recoveryRequest s.config now).world req s') provider
        (afterRoute (recoveryRequest s.config now).world req s') := by
    refine (chatCompletions_of_toRouting hrouting).trans ?_
    refine routeStep_of_registered (hdecision ▸ hname) ?_
    rw [hcore.registry, ← hget]
    exact congrArg s.registry.get hdecision
  obtain ⟨hcalls, hrouter', hreply⟩ := callStep_of_answered P
    (s := afterRoute (recoveryRequest s.config now).world req s') hresp
  rw [← hserve] at hcalls hrouter' hreply
  refine ⟨[recoveryRequest s.config now], ?_, ?_⟩
  · intro step hstep
    rw [run_singleton, List.mem_singleton] at hstep
    subst hstep
    refine ⟨?_, ?_, (hreply (.inr (.inl hstream))).goesOn⟩
    · intro hnames
      obtain ⟨req', hreq', model, hsplit⟩ := hnames
      cases hparsed.symm.trans hreq'
      cases hplain.symm.trans hsplit
    · intro call hcall
      rw [hcalls, List.mem_singleton] at hcall
      subst hcall
      trivial
  · rw [finalState_singleton, hrouter', Router.isAvailable_reportSuccess, hdecision]
    simp

/-- **Recovery.**  At the end of any run, a registered provider that is marked
unavailable can come back by requests that do not name it and whose provider
calls all succeed, exactly when the cost strategy falls back on it and it has a
non-negative number of retries. -/
theorem recovers_iff (P : Platform) (start : Server)
    (hregistry : start.registry = ProviderRegistry.initializeFrom start.config.providers {})
    (history : List Incoming) (name : Str) (provider : Provider)
    (hregistered : (finalState P start history).registry.get name = some provider)
    (hdown : (finalState P start history).router.isAvailable name = false) :
    (∃ incoming, (∀ step ∈ run P (finalState P start history) incoming, step.Quiet name) ∧
        (finalState P (finalState P start history) incoming).router.isAvailable name = true) ↔
      Router.FallsBackOn start.config (finalState P start history).router name ∧
        0 ≤ provider.maxRetries := by
  obtain ⟨hconfig, hkept⟩ := finalState_frame P start history
  have hname : name ≠ [] := by
    have hsome := Option.isSome_of_eq_some hregistered
    rw [hkept, hregistry] at hsome
    obtain ⟨pc, -, rfl, hkeyed⟩ := Router.keyedName_iff.mp hsome
    exact hkeyed.name_ne_nil
  rw [← hconfig]
  constructor
  · intro h
    obtain ⟨incoming, hquiet, hback⟩ := h
    by_contra hstuck
    have hstranded : Stranded name provider (finalState P start history) :=
      ⟨hname, hregistered, hdown, by
        rw [not_and_or, not_le] at hstuck
        exact hstuck.symm⟩
    cases hback.symm.trans (hstranded.run hquiet).unavailable
  · intro h
    exact recovers_of_fallsBackOn P hname hregistered h.1 h.2

/-- One provider with a key. -/
def loneConfig (strategy : RoutingStrategy) : GatewayConfig :=
  setDefaultPricing
    { defaultStrategy := strategy
      providers :=
        [{ name := str "groq", apiKey := str "k", models := [str "llama-3.1-8b-instant"] }] }

/-- Six requests while that provider is down. -/
def sixFailures : List Incoming := List.replicate 6 ⟨.completions, plainHttp, groqDown⟩

/-- The state they lead to. -/
def afterFailures (strategy : RoutingStrategy) : Server :=
  finalState (cLocale fnv1a) (Server.init (loneConfig strategy)) sixFailures

/-- Under the cost strategy a request brings the provider back. -/
theorem recovers_iff_cost :
    ∃ incoming,
      (∀ step ∈ run (cLocale fnv1a) (afterFailures .costOptimized) incoming,
        step.Quiet (str "groq")) ∧
      (finalState (cLocale fnv1a) (afterFailures .costOptimized) incoming).router.isAvailable
        (str "groq") = true := by
  have hlaw := recovers_iff (cLocale fnv1a) (Server.init (loneConfig .costOptimized)) rfl
    sixFailures (str "groq") (keyedProvider .groq) (by with_unfolding_all decide)
    (by with_unfolding_all decide)
  have hnone : Router.pricedPairs (loneConfig .costOptimized)
      (afterFailures .costOptimized).router = [] := by with_unfolding_all decide
  refine hlaw.mpr ⟨⟨by with_unfolding_all decide, fun p m hcheapest => ?_, _, rfl, rfl⟩, by decide⟩
  obtain ⟨-, rate, hfirst⟩ := hcheapest
  have hin : ⟨p, m, rate⟩ ∈ Router.pricedPairs (loneConfig .costOptimized)
      (afterFailures .costOptimized).router := hfirst.mem
  rw [hnone] at hin
  cases hin

/-- Under `smart` the six failures exclude it for good. -/
theorem failures_exclude_for_good :
    ¬ ∀ (P : Platform) (cfg : GatewayConfig) (history : List Incoming) (pc : ProviderConfig),
      pc ∈ cfg.providers → pc.enabled = true → pc.models ≠ [] →
      ((finalState P (Server.init cfg) history).registry.get pc.name).isSome →
      (finalState P (Server.init cfg) history).router.isAvailable pc.name = false →
        ∃ incoming,
          (∀ step ∈ run P (finalState P (Server.init cfg) history) incoming, step.Quiet pc.name) ∧
          (finalState P (finalState P (Server.init cfg) history) incoming).router.isAvailable
            pc.name = true := by
  intro h
  have hstranded : Stranded (str "groq") (keyedProvider .groq) (afterFailures .smart) :=
    ⟨by decide, by with_unfolding_all decide, by with_unfolding_all decide, .inr fun hfalls =>
      absurd hfalls.1 (by with_unfolding_all decide)⟩
  obtain ⟨incoming, hquiet, hback⟩ := h (cLocale fnv1a) (loneConfig .smart) sixFailures
    ((loneConfig .smart).providers.head (by decide)) (by decide) rfl (by decide)
    (Option.isSome_of_eq_some hstranded.registered) hstranded.unavailable
  cases hback.symm.trans (hstranded.run hquiet).unavailable

end Gateway
