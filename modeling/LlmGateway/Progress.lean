import LlmGateway.SharedLedger
import LlmGateway.Fallback

/-!
# Every request is answered

No handler waits for another one: a request is answered after a number of its own
turns that only depends on the number of configured providers, however the turns of
the other requests fall (`answered_after_turns`).  This needs room for an entry in
the cache, if it is on, and no negative number of retries: with none the eviction
loop does not end, and with one every provider call ends the process.

The fallback chain of a request to a named provider is as long as the health map, so
the bound rests on an invariant: only registered providers are reported on.
-/

namespace Gateway

open Interleaving Prog

/-- The registry that `main` fills before it serves. -/
def registryOf (cfg : GatewayConfig) : ProviderRegistry :=
  ProviderRegistry.initializeFrom cfg.providers {}

/-- The most members that a fallback chain has: every provider, or the three that
`route_smart` takes. -/
def chainBound (cfg : GatewayConfig) : Nat := max cfg.providers.length 3

/-- The most calls that the handler of a request makes. -/
def turnBound (cfg : GatewayConfig) : Nat := 3 * chainBound cfg + 16

/-- Only registered providers are reported on. -/
def ReportsRegistered (cfg : GatewayConfig) : Op → Prop
  | .reportSuccess provider _ | .reportFailure provider =>
      ((registryOf cfg).get provider).isSome
  | _ => True

/-- What the handlers rely on. -/
def Relied (cfg : GatewayConfig) : Event Op Op.Res → Prop
  | ⟨.getProvider name, found⟩ => found = (registryOf cfg).get name
  | ⟨.availableProviders, names⟩ => names.length ≤ chainBound cfg
  | ⟨.route _, decision⟩ => decision.fallbackChain.length ≤ chainBound cfg
  | ⟨.callProvider _ provider _, outcome⟩ => 0 ≤ provider.maxRetries → outcome ≠ .nullException
  | ⟨.cachePut .., stored⟩ => stored = true
  | _ => True

/-! ## What the handlers can rely on -/

/-- Each entry of the configuration registers at most one provider. -/
theorem ProviderRegistry.length_initializeFrom (configs : List ProviderConfig)
    (reg : ProviderRegistry) :
    (initializeFrom configs reg).providers.entries.length ≤
      reg.providers.entries.length + configs.length := by
  induction configs generalizing reg with
  | nil => exact Nat.le_refl _
  | cons pc configs ih =>
      have hregister : (reg.register pc).providers.entries.length ≤
          reg.providers.entries.length + 1 := by
        unfold register
        split_ifs
        · exact Nat.le_succ _
        · exact Nat.le_succ _
        · split
          · exact Nat.le_succ _
          · have herase := (List.kerase_sublist pc.name reg.providers.entries).length_le
            simpa [AList.entries_insert] using herase
      have hrest := ih (reg.register pc)
      simp only [initializeFrom, List.foldl_cons, List.length_cons] at hrest ⊢
      omega

/-- There are no more providers than entries of the configuration. -/
theorem length_registryOf (cfg : GatewayConfig) :
    (registryOf cfg).providers.entries.length ≤ cfg.providers.length :=
  (ProviderRegistry.length_initializeFrom cfg.providers {}).trans_eq (Nat.zero_add _)

/-- The singletons while requests are served. -/
structure Serving (cfg : GatewayConfig) (s : Server) : Prop where
  config : s.config = cfg
  registry : s.registry = registryOf cfg
  reported : ∀ name ∈ s.router.health, ((registryOf cfg).get name).isSome

/-- The server starts without health records. -/
theorem Serving.init (cfg : GatewayConfig) : Serving cfg (.init cfg) :=
  ⟨rfl, rfl, fun _ hname => by cases hname⟩

section
variable {cfg : GatewayConfig} {s : Server}

/-- The health map knows no more providers than the registry. -/
theorem Serving.length_health (h : Serving cfg s) :
    s.router.health.entries.length ≤ cfg.providers.length := by
  have hsub : s.router.health.keys ⊆ (registryOf cfg).providers.keys := fun name hname =>
    AList.mem_keys.mp (AList.lookup_isSome.mp (h.reported name (AList.mem_keys.mpr hname)))
  have hle := (List.subperm_of_subset s.router.health.nodupKeys hsub).length_le
  simp only [AList.keys, List.keys, List.length_map] at hle
  exact hle.trans (length_registryOf cfg)

/-- A chain walks the health map or the configuration, or is cut to three. -/
theorem Serving.length_chain (h : Serving cfg s) (walk : Traversal (Σ _ : Str, ProviderHealth))
    (sort : Descending Candidate Candidate.score) (req : ChatRequest) :
    (s.router.route walk sort cfg req).1.fallbackChain.length ≤ chainBound cfg := by
  have hproviders : cfg.providers.length ≤ chainBound cfg := Nat.le_max_left _ _
  rw [Router.route_fallbackChain, Router.backups]
  cases splitAtColon (resolveModelAlias cfg req.model) with
  | some direct =>
      have hwalk := (walk.perm s.router.health.entries).length_eq
      have hfilter := List.length_filter_le
        (fun e => decide (e.1 ≠ direct.1 ∧ e.2.available = true))
        (walk.order s.router.health.entries)
      rw [List.length_map]
      exact (hfilter.trans_eq hwalk).trans (h.length_health.trans hproviders)
  | none =>
      cases s.router.strategy with
      | failover =>
          have husable := List.length_filter_le (fun pc : ProviderConfig =>
            pc.enabled && !pc.models.isEmpty && s.router.isAvailable pc.name) cfg.providers
          rw [List.length_map, List.length_tail]
          exact ((Nat.sub_le _ _).trans husable).trans hproviders
      | smart =>
          have hthree : 3 ≤ chainBound cfg := Nat.le_max_right _ _
          rw [List.length_map, List.length_take]
          exact (Nat.min_le_left _ _).trans hthree
      | costOptimized => exact Nat.zero_le _
      | latencyOptimized => exact Nat.zero_le _
      | roundRobin => exact Nat.zero_le _

theorem ReportsRegistered.insert {provider name : Str} {health : ProviderHealth} {r : Router}
    (hreported : ∀ name ∈ r.health, ((registryOf cfg).get name).isSome)
    (hprovider : ((registryOf cfg).get provider).isSome)
    (hname : name ∈ r.health.insert provider health) : ((registryOf cfg).get name).isSome := by
  rcases (AList.mem_insert _).mp hname with rfl | hname
  · exact hprovider
  · exact hreported name hname

/-- **The methods keep what the handlers rely on.** -/
theorem lawful_serving (P : Platform)
    (hroom : cfg.cache.enabled = false ∨ 0 < toSizeT cfg.cache.maxEntries) :
    Lawful (Op.exec P) (ReportsRegistered cfg) (Serving cfg) (Relied cfg) where
  keeps e o s ho h := by
    have hconfig := (o.exec_config P e s).trans h.config
    have hregistry := (o.exec_registry P e s).trans h.registry
    have hrouter := o.exec_router P e s
    refine ⟨hconfig, hregistry, ?_⟩
    rw [hrouter]
    cases o with
    | reportSuccess provider latencyMs =>
        exact fun name hname => ReportsRegistered.insert h.reported ho hname
    | reportFailure provider =>
        exact fun name hname => ReportsRegistered.insert h.reported ho hname
    | route req =>
        have hhealth : (s.router.route e.walk e.sort s.config req).2.health = s.router.health :=
          (Router.route_router e.walk e.sort req).1
        simp only [hhealth]
        exact h.reported
    | _ => exact h.reported
  answers e o s ho h := by
    cases o with
    | getProvider name => exact congrArg (ProviderRegistry.get · name) h.registry
    | availableProviders =>
        have hwalk := (e.registered.perm s.registry.providers.entries).length_eq
        have hlength := length_registryOf cfg
        rw [← h.registry] at hlength
        simp only [Relied, Op.exec, ProviderRegistry.availableProviders, List.length_map]
        exact (hwalk.trans_le hlength).trans (Nat.le_max_left _ _)
    | route req =>
        have hchain := h.length_chain e.walk e.sort req
        rw [← h.config] at hchain ⊢
        exact hchain
    | callProvider name provider req =>
        intro hretries hnull
        exact absurd (Provider.chat_null_iff.mp hnull) (not_lt.mpr hretries)
    | cachePut req resp =>
        have hsome : (s.cache.put P s.config.cache e.now req resp).isSome := by
          rw [h.config, Cache.put_isSome_iff]
          exact hroom.imp_right Or.inr
        obtain ⟨cache, hput⟩ := Option.isSome_iff_exists.mp hsome
        simp only [Relied, Op.exec, hput]
    | _ => trivial

end

/-! ## How many calls the handlers make -/

/-- The program makes at most `n` calls, and ends in a result as said. -/
abbrev Ends (cfg : GatewayConfig) {α : Type} (F : α → Prop) (n : Nat) (p : Program α) : Prop :=
  Within (Relied cfg) (ReportsRegistered cfg) F p n

/-- No provider is configured with a negative number of retries. -/
def Retries (cfg : GatewayConfig) : Prop := ∀ pc ∈ cfg.providers, 0 ≤ pc.maxRetries

/-- A registered provider has the retries of an entry. -/
theorem Retries.registered {cfg : GatewayConfig} (h : Retries cfg) {name : Str}
    {provider : Provider} (hget : (registryOf cfg).get name = some provider) :
    0 ≤ provider.maxRetries := by
  rcases ProviderRegistry.mem_of_get_initializeFrom hget with hnone | ⟨pc, hmem, -, hcreate⟩
  · cases hnone
  · obtain ⟨kind, -, rfl⟩ := Option.map_eq_some_iff.mp hcreate
    exact h pc hmem

namespace Handler

variable {P : Platform} {cfg : GatewayConfig} {req : ChatRequest} {decision : RouteDecision}
  {startTime : Time} {http : HttpRequest}

/-- The provider calls do not end the process. -/
abbrev Returns (finish : CallEnd) : Prop := finish ≠ .crashed

/-- A fallback is looked up, called and reported on: three calls for each. -/
theorem tryFallbacks_ends (hretries : Retries cfg) (chain : List Str) :
    Ends cfg Returns (3 * chain.length) (tryFallbacks req chain) := by
  induction chain with
  | nil => exact CallEnd.noConfusion
  | cons fbName chain ih =>
      have hskip : Ends cfg Returns (3 * chain.length + 2) (tryFallbacks req chain) :=
        ih.mono (fun _ => id) (Nat.le_add_right _ 2)
      simp only [tryFallbacks, perform_bind, List.length_cons, Nat.mul_succ]
      refine Within.call_succ trivial fun (found : Option Provider) hfound => ?_
      cases found with
      | none => exact hskip
      | some fb =>
          have hget : (registryOf cfg).get fbName = some fb := Eq.symm hfound
          have hregistered : ((registryOf cfg).get fbName).isSome := by
            rw [hget]
            rfl
          simp only
          split
          · exact hskip
          · refine Within.call_succ trivial fun (outcome : ChatOutcome) houtcome => ?_
            cases outcome with
            | answered resp =>
                exact Within.call_succ hregistered fun _ _ => CallEnd.noConfusion
            | threw e => exact Within.call_succ hregistered fun _ _ => ih
            | nullException => exact absurd rfl (houtcome (hretries.registered hget))

theorem callProviders_ends (hretries : Retries cfg) {provider : Provider}
    (hget : (registryOf cfg).get decision.provider = some provider) :
    Ends cfg Returns (3 * decision.fallbackChain.length + 2)
      (callProviders req decision provider) := by
  have hregistered : ((registryOf cfg).get decision.provider).isSome := by
    rw [hget]
    rfl
  refine Within.call_succ trivial fun (outcome : ChatOutcome) houtcome => ?_
  cases outcome with
  | answered resp =>
      exact Within.call_succ hregistered fun _ _ => CallEnd.noConfusion
  | threw e => exact Within.call_succ hregistered fun _ _ => tryFallbacks_ends hretries _
  | nullException => exact absurd rfl (houtcome (hretries.registered hget))

/-- The request is answered after at most so many calls. -/
abbrev Answers (cfg : GatewayConfig) (n : Nat) (p : Program Reply) : Prop :=
  Ends cfg (fun reply => reply.goesOn = true) n p

theorem refuse_ends (resp : Response) : Answers cfg 1 (refuse resp) :=
  Within.call_succ trivial fun _ _ => rfl

/-- At most one call, for a request with a key. -/
theorem recordUsage_ends (resp : ChatResponse) :
    Ends cfg (fun _ => True) 1 (recordUsage req resp) := by
  unfold recordUsage
  split
  · trivial
  · exact Within.call_succ trivial fun _ _ => trivial

/-- Price, clock, ledger, usage, two counters and the cache. -/
theorem settle_ends (resp : ChatResponse) : Answers cfg 7 (settle req decision resp) := by
  simp only [settle, perform_bind]
  refine Within.call_succ trivial fun (cost : Double) _ => ?_
  refine Within.call_succ trivial fun (now : Time) _ => ?_
  refine Within.call_succ trivial fun _ _ => ?_
  refine Within.bind (m := 3) (recordUsage_ends _) fun _ _ => ?_
  refine Within.call_succ trivial fun _ _ => Within.call_succ trivial fun _ _ => ?_
  refine Within.call_succ trivial fun (stored : Bool) hstored => ?_
  cases (hstored : stored = true)
  rfl

theorem callStep_ends (hretries : Retries cfg) {provider : Provider}
    (hget : (registryOf cfg).get decision.provider = some provider) :
    Answers cfg (3 * decision.fallbackChain.length + 9) (callStep req decision provider) := by
  refine Within.bind (m := 7) (callProviders_ends hretries hget) fun finish hfinish => ?_
  cases finish with
  | answered resp => exact settle_ends resp
  | failed => exact (refuse_ends _).mono (fun _ => id) (by decide)
  | crashed => exact absurd rfl hfinish

/-- One call for the decision, one for the primary, and the call step. -/
theorem routeStep_ends (hretries : Retries cfg) :
    Answers cfg (3 * chainBound cfg + 11) (routeStep req) := by
  simp only [routeStep, perform_bind]
  refine Within.call_succ trivial fun (decision : RouteDecision) hchain => ?_
  have hlength : decision.fallbackChain.length ≤ chainBound cfg := hchain
  split
  · exact (refuse_ends _).mono (fun _ => id) (by omega)
  · refine Within.call_succ trivial fun (found : Option Provider) hfound => ?_
    cases found with
    | none => exact (refuse_ends _).mono (fun _ => id) (by omega)
    | some provider =>
        exact (callStep_ends hretries (Eq.symm hfound)).mono (fun _ => id) (by omega)

theorem cacheStep_ends (hretries : Retries cfg) :
    Answers cfg (3 * chainBound cfg + 13) (cacheStep req) := by
  simp only [cacheStep, perform_bind]
  refine Within.call_succ trivial fun (found : Option ChatResponse) _ => ?_
  cases found with
  | some resp => exact Within.call_succ trivial fun _ _ => rfl
  | none => exact Within.call_succ trivial fun _ _ => routeStep_ends hretries

theorem limitStep_ends (hretries : Retries cfg) :
    Answers cfg (3 * chainBound cfg + 15) (limitStep P req) := by
  unfold limitStep
  split
  · exact (cacheStep_ends hretries).mono (fun _ => id) (by omega)
  · simp only [perform_bind]
    refine Within.call_succ trivial fun (_ : Option VirtualKey) _ => ?_
    refine Within.call_succ trivial fun (checked : RateLimitResult) _ => ?_
    split
    · rfl
    · exact cacheStep_ends hretries

/-- The bound that `turnBound` is made for. -/
theorem chatCompletions_ends (hretries : Retries cfg) (draw : UInt64) (http : HttpRequest) :
    Answers cfg (turnBound cfg) (chatCompletions P draw http) := by
  simp only [chatCompletions, perform_bind]
  refine Within.call_succ trivial fun _ _ => ?_
  split
  · rfl
  · split
    · rfl
    · rfl
    · exact limitStep_ends hretries

/-- `/chat` looks up, routes, finds the provider, calls it and stores. -/
theorem chat_ends (hretries : Retries cfg) (draw : UInt64) (http : HttpRequest) :
    Answers cfg 5 (chat draw http) := by
  unfold chat
  split
  · rfl
  · split
    · rfl
    · split
      · rfl
      · refine Within.call_succ trivial fun (found : Option ChatResponse) _ => ?_
        cases found with
        | some resp => rfl
        | none =>
            refine Within.call_succ trivial fun (decision : RouteDecision) _ => ?_
            refine Within.call_succ trivial fun (provider : Option Provider) hfound => ?_
            cases provider with
            | none => rfl
            | some provider =>
                refine Within.call_succ trivial fun (outcome : ChatOutcome) houtcome => ?_
                cases outcome with
                | threw e => rfl
                | nullException => exact absurd rfl (houtcome (hretries.registered (Eq.symm hfound)))
                | answered resp =>
                    refine Within.call_succ trivial fun (stored : Bool) hstored => ?_
                    cases (hstored : stored = true)
                    rfl

theorem asAdmin_ends {p : Program Reply} {n : Nat} (h : Answers cfg n p) :
    Answers cfg (n + 1) (asAdmin http p) := by
  refine Within.call_succ trivial fun (admin : Bool) _ => ?_
  cases admin with
  | false => rfl
  | true => exact h

theorem withBody_ends {p : Json → Program Reply} {n : Nat} (h : ∀ body, Answers cfg n (p body)) :
    Answers cfg n (withBody http p) := by
  unfold withBody
  split
  · rfl
  · exact h _

/-- One call for each name. -/
theorem providersHealth_ends (fields : ProviderHealth → List (Str × Json)) (names : List Str) :
    Ends cfg (fun _ => True) names.length (providersHealth fields names) := by
  induction names with
  | nil => trivial
  | cons name names ih =>
      rw [List.length_cons]
      exact Within.call_succ trivial fun _ _ => ih.map fun _ _ => trivial

/-- One call for each name. -/
theorem listModels_ends (names : List Str) :
    Ends cfg (fun _ => True) names.length (listModels names) := by
  induction names with
  | nil => trivial
  | cons name names ih =>
      simp only [listModels, perform_bind, List.length_cons]
      refine Within.call_succ trivial fun (provider : Option Provider) _ => ?_
      refine Within.bind (m := 0) ih fun rest _ => ?_
      cases provider <;> trivial

/-- The five counters, the clock and the latencies. -/
theorem snapshot_ends (startTime : Time) :
    Ends cfg (fun _ => True) 7 (snapshot startTime) :=
  Within.call_succ trivial fun _ _ => Within.call_succ trivial fun _ _ =>
    Within.call_succ trivial fun _ _ => Within.call_succ trivial fun _ _ =>
      Within.call_succ trivial fun _ _ => Within.call_succ trivial fun _ _ =>
        Within.call_succ trivial fun _ _ => trivial

end Handler

/-- **A handler makes a bounded number of calls and answers.** -/
theorem Request.handler_ends (P : Platform) (startTime : Time) {cfg : GatewayConfig}
    (hretries : Retries cfg) (request : Request) :
    Ends cfg (fun answer => answer.goesOn = true) (turnBound cfg)
      (request.handler P startTime) := by
  have hanswer : ∀ {p : Program Reply} {n : Nat}, Handler.Answers cfg n p → n ≤ turnBound cfg →
      Ends cfg (fun answer => answer.goesOn = true) (turnBound cfg) (Answer.of <$> p) :=
    fun h hle => (Within.map h fun _ hgoes => hgoes).mono (fun _ => id) hle
  have hbound : 16 ≤ turnBound cfg := Nat.le_add_left _ _
  have hnames : chainBound cfg + 9 ≤ turnBound cfg := by
    unfold turnBound
    omega
  cases request with
  | completions draw http =>
      exact hanswer (Handler.chatCompletions_ends hretries draw http) (Nat.le_refl _)
  | chat draw http => exact hanswer (Handler.chat_ends hretries draw http) (by omega)
  | createKey http =>
      refine hanswer (n := 2) (Handler.asAdmin_ends (Handler.withBody_ends fun body => ?_)) (by omega)
      split
      · rfl
      · exact Within.call_succ trivial fun _ _ => rfl
  | listKeys http =>
      exact hanswer (n := 2) (Handler.asAdmin_ends
        (Within.call_succ trivial fun _ _ => rfl)) (by omega)
  | revokeKey http keyId =>
      exact hanswer (n := 2) (Handler.asAdmin_ends
        (Within.call_succ trivial fun _ _ => rfl)) (by omega)
  | setRouting http =>
      refine hanswer (n := 2) (Handler.asAdmin_ends (Handler.withBody_ends fun body => ?_)) (by omega)
      split
      · rfl
      · exact Within.call_succ trivial fun _ _ => rfl
  | clearCache http =>
      exact hanswer (n := 2) (Handler.asAdmin_ends
        (Within.call_succ trivial fun _ _ => rfl)) (by omega)
  | costs http =>
      exact hanswer (n := 2) (Handler.asAdmin_ends
        (Within.call_succ trivial fun _ _ => rfl)) (by omega)
  | health =>
      refine hanswer (n := chainBound cfg + 1) ?_ (by omega)
      refine Within.call_succ trivial fun (names : List Str) hlength => ?_
      refine Within.mono (n := names.length) ?_ (fun _ => id) hlength
      exact Within.map (Handler.providersHealth_ends _ names) fun _ _ => rfl
  | metrics =>
      refine Within.mono (n := 7) ?_ (fun _ => id) (by omega)
      exact Within.map (Handler.snapshot_ends startTime) fun _ _ => rfl
  | stats =>
      refine hanswer (n := chainBound cfg + 9) ?_ hnames
      simp only [Handler.stats, perform_bind]
      refine Within.call_succ trivial fun (stats : CacheStats) _ => ?_
      rw [show chainBound cfg + 8 = 7 + (chainBound cfg + 1) by omega]
      refine Within.bind (Handler.snapshot_ends startTime) fun _ _ => ?_
      refine Within.call_succ trivial fun (names : List Str) hlength => ?_
      refine Within.mono (n := names.length) ?_ (fun _ => id) hlength
      exact Within.map (Handler.providersHealth_ends _ names) fun _ _ => rfl
  | models =>
      refine hanswer (n := chainBound cfg + 1) ?_ (by omega)
      refine Within.call_succ trivial fun (names : List Str) hlength => ?_
      refine Within.mono (n := names.length) ?_ (fun _ => id) hlength
      exact Within.map (Handler.listModels_ends names) fun _ _ => rfl

/-- **Every request is answered.**  On a server whose cache is off or has room and
whose providers have no negative number of retries, a request is answered after
`turnBound` turns of its own, whatever turns the other requests take and whatever
the providers answer. -/
theorem answered_after_turns {ι : Type} [DecidableEq ι] (P : Platform) (startTime : Time)
    (cfg : GatewayConfig) (hretries : Retries cfg)
    (hroom : cfg.cache.enabled = false ∨ 0 < toSizeT cfg.cache.maxEntries)
    (requests : ι → Request) (sched : List (ι × Moment)) (i : ι)
    (hturns : turnBound cfg ≤ Pool.turnsOf i sched) :
    ∃ answer, (Service.after P startTime (.init cfg) requests sched).threads i = ret answer ∧
      answer.goesOn = true :=
  Pool.answered_of_turns (F := fun _ answer => Answer.goesOn answer = true)
    (lawful_serving P hroom) (fun j => (requests j).handler_ends P startTime hretries)
    (Serving.init cfg) sched hturns

/-- So many rounds in which both clients take a turn. -/
def rounds (n : Nat) : List (Fin 2 × Moment) :=
  (List.replicate n (List.finRange 2)).flatten.map fun i => (i, offline)

/-- With one provider and two requests twenty-five rounds are enough. -/
theorem answered_after_rounds :
    ∃ answer, (Service.after (cLocale fnv1a) 0 (.init (oneProvider 10).config) twoGreetings
        (rounds 25)).threads 1 = ret answer ∧ answer.goesOn = true :=
  answered_after_turns (cLocale fnv1a) 0 (oneProvider 10).config
    (by simp [Retries, oneProvider, Server.init]) (.inr (by decide)) twoGreetings (rounds 25) 1
    (by decide)

end Gateway
