import LlmGateway.Fallback
import LlmGateway.HandlerCalls
import LlmGateway.Lib.Ranking

/-!
# Fallback chains

Each routing path builds its chain from something else: the direct path from the
health map, `failover` from the configuration, `smart` from the next three of its
candidates.  A chain is sound when it names usable providers, each once, and not
the primary; a request then calls no provider twice.

The candidates of `smart` are pairs of a provider and a model, and the chain
keeps the providers of the pairs.  `chain_iff` says when no provider is met twice
among the four best.
-/

namespace Gateway

/-- A sort that arranges one list in a given order. -/
def Descending.arranging {α : Type} [DecidableEq α] {key : α → ℚ} {xs l : List α}
    (h : Ranking.Ranks key xs l) : Descending α key where
  sort ys := if ys = xs then l else (stable α key).sort ys
  perm ys := by
    split
    · next heq => exact heq ▸ h.perm
    · exact (stable α key).perm ys
  sorted ys := by
    split
    · exact h.sorted
    · exact (stable α key).sorted ys

/-! ## The calls of a chain -/

section Calls

variable {w : World} {registry : ProviderRegistry} {req : ChatRequest}

/-- The fallbacks are called under the names of their members. -/
theorem plannedFallbacks_names (k : Nat) (members : List (Str × Provider)) :
    (plannedFallbacks w req k members).map ProviderCall.provider = members.map Prod.fst := by
  induction members generalizing k with
  | nil => rfl
  | cons member members ih =>
      rw [plannedFallbacks, List.map_cons, List.map_cons, ih (k + 1)]

/-- Leaving out the members that are not registered keeps the order of a chain. -/
theorem members_names (registry : ProviderRegistry) (chain : List Str) :
    ((registry.members chain).map Prod.fst).Sublist chain := by
  induction chain with
  | nil => exact List.Sublist.refl _
  | cons fbName chain ih =>
      cases hget : registry.get fbName with
      | none =>
          rw [members_skip hget]
          exact ih.cons fbName
      | some fb =>
          rw [members_cons hget, List.map_cons]
          exact ih.cons_cons fbName

theorem members_registered {chain : List Str} {name : Str}
    (h : name ∈ (registry.members chain).map Prod.fst) : (registry.get name).isSome := by
  obtain ⟨member, hmember, rfl⟩ := List.mem_map.mp h
  obtain ⟨fbName, -, hfound⟩ := List.mem_filterMap.mp hmember
  obtain ⟨fb, hget, rfl⟩ := Option.map_eq_some_iff.mp hfound
  rw [hget]
  rfl

theorem plannedCalls_names (decision : RouteDecision) (provider : Provider) :
    (plannedCalls w req registry decision provider).map ProviderCall.provider =
      decision.provider :: (registry.members decision.fallbackChain).map Prod.fst := by
  rw [plannedCalls, List.map_cons, plannedFallbacks_names]

/-- The calls go to the primary and then along the chain. -/
theorem callProviders_names (decision : RouteDecision) (provider : Provider) (router : Router) :
    ((callProviders w registry decision provider req router).calls.map
        ProviderCall.provider).Sublist (decision.provider :: decision.fallbackChain) := by
  have hcalls : ((callProviders w registry decision provider req router).calls.map
      ProviderCall.provider).Sublist
        ((plannedCalls w req registry decision provider).map ProviderCall.provider) :=
    (callProviders_initial decision provider router).sublist.map _
  rw [plannedCalls_names] at hcalls
  exact hcalls.trans ((members_names registry decision.fallbackChain).cons_cons _)

/-- Only registered providers are called. -/
theorem callProviders_registered {decision : RouteDecision} {provider : Provider}
    (hget : registry.get decision.provider = some provider) (router : Router) :
    ∀ call ∈ (callProviders w registry decision provider req router).calls,
      (registry.get call.provider).isSome := by
  intro call hcall
  have hplanned := (callProviders_initial decision provider router).subset hcall
  have hname : call.provider ∈ _ := List.mem_map_of_mem hplanned
  rw [plannedCalls_names] at hname
  rcases List.mem_cons.mp hname with hprimary | hmember
  · rw [hprimary, hget]
    rfl
  · exact members_registered hmember

end Calls

/-! ## Reachable health maps -/

/-- The health map is what reports on registered providers lead to. -/
def Router.ReportsOf (cfg : GatewayConfig) (r : Router) : Prop :=
  ∃ reports : List Report,
    (∀ report ∈ reports,
      ((ProviderRegistry.initializeFrom cfg.providers {}).get report.provider).isSome) ∧
    r.health = ((Router.init cfg).afterReports reports).health

/-- Every name with a health record is that of a registered provider. -/
def Router.RecordsRegistered (cfg : GatewayConfig) (r : Router) : Prop :=
  ∀ name, (r.health.lookup name).isSome →
    ((ProviderRegistry.initializeFrom cfg.providers {}).get name).isSome

/-- Reports leave records of the providers they are on. -/
theorem Router.ReportsOf.registered {cfg : GatewayConfig} {r : Router} (h : r.ReportsOf cfg) :
    r.RecordsRegistered cfg := by
  obtain ⟨reports, hregistered, hhealth⟩ := h
  intro name hname
  rw [hhealth] at hname
  rcases lookup_afterReports hname with hbefore | ⟨report, hreport, rfl⟩
  · cases hbefore
  · exact hregistered report hreport

theorem report_provider {now : Time} {call : ProviderCall} {report : Report}
    (h : call.report now = some report) : report.provider = call.provider := by
  unfold ProviderCall.report at h
  cases houtcome : call.outcome with
  | answered resp =>
      rw [houtcome] at h
      cases h
      rfl
  | threw e =>
      rw [houtcome] at h
      cases h
      rfl
  | nullException =>
      rw [houtcome] at h
      cases h

/-- Handling a request adds reports on the providers it called. -/
theorem serve_reportsOf {cfg : GatewayConfig} (P : Platform) {s : Server} (i : Incoming)
    (hregistry : s.registry = ProviderRegistry.initializeFrom cfg.providers {})
    (h : s.router.ReportsOf cfg) : (serve P s i).server.router.ReportsOf cfg := by
  obtain ⟨reports, hregistered, hhealth⟩ := h
  rcases serve_cases P s i with hnone | ⟨req, s', provider, -, hrouting, -, hget, hrun⟩ |
    ⟨req, s', provider, -, hrouting, -, hrun⟩
  · exact ⟨reports, hregistered, hnone.core.health.trans hhealth⟩
  · have hcore := (toRouting_core hrouting).2.1
    have hroute := hcore.trans (afterRoute_core i.world req s')
    obtain ⟨-, hrouter, -, -⟩ := callStep_frame P i.world req (decisionFor i.world req s') provider
      (afterRoute i.world req s')
    have hget' : (afterRoute i.world req s').registry.get (decisionFor i.world req s').provider =
        some provider := hget
    have hcalled : ∀ call ∈ (callProviders i.world (afterRoute i.world req s').registry
        (decisionFor i.world req s') provider req (afterRoute i.world req s').router).calls,
        ((afterRoute i.world req s').registry.get call.provider).isSome :=
      callProviders_registered hget' (afterRoute i.world req s').router
    refine ⟨reports ++ (callProviders i.world (afterRoute i.world req s').registry
      (decisionFor i.world req s') provider req (afterRoute i.world req s').router).calls.filterMap
        (ProviderCall.report i.world.later), ?_, ?_⟩
    · intro report hreport
      rcases List.mem_append.mp hreport with hold | hnew
      · exact hregistered report hold
      · obtain ⟨call, hcall, hreported⟩ := List.mem_filterMap.mp hnew
        have hsome := hcalled call hcall
        rw [hroute.registry, hregistry] at hsome
        rw [report_provider hreported]
        exact hsome
    · rw [hrun, hrouter, callProviders_reports, Router.afterReports_append]
      exact Router.afterReports_congr (hroute.health.trans hhealth) _
  · have hcore := (toLegacyRouting_core hrouting).1
    obtain ⟨-, -, hkept⟩ := legacyCall_frame P i.world req (decisionFor i.world req s') provider
      (afterRoute i.world req s')
    have hall := (hcore.trans (afterRoute_core i.world req s')).trans hkept
    rw [hrun]
    exact ⟨reports, hregistered, hall.health.trans hhealth⟩

/-- **Reachable health maps.**  After every run of requests the health map is
what reports on registered providers lead to. -/
theorem finalState_reportsOf (P : Platform) (cfg : GatewayConfig) (incoming : List Incoming) :
    (finalState P (Server.init cfg) incoming).router.ReportsOf cfg := by
  have hinv : (finalState P (Server.init cfg) incoming).registry =
        ProviderRegistry.initializeFrom cfg.providers {} ∧
      (finalState P (Server.init cfg) incoming).router.ReportsOf cfg := by
    refine finalState_induction (P := P) (s := Server.init cfg)
      (I := fun s => s.registry = ProviderRegistry.initializeFrom cfg.providers {} ∧
        s.router.ReportsOf cfg) (G := fun _ => True) ?_ ⟨rfl, [], by simp, rfl⟩ fun _ _ => trivial
    intro s i hs _
    exact ⟨(serve_frame P s i).2.trans hs.1, serve_reportsOf P i hs.1 hs.2⟩
  exact hinv.2

namespace Router

/-! ## Soundness of a chain -/

/-- The chain names enabled and available providers, each once, and not the
primary. -/
structure ChainSound (cfg : GatewayConfig) (r : Router) (decision : RouteDecision) : Prop where
  nodup : decision.fallbackChain.Nodup
  primary : decision.provider ∉ decision.fallbackChain
  usable : ∀ name ∈ decision.fallbackChain,
    (∃ pc ∈ cfg.providers, pc.name = name ∧ pc.enabled = true) ∧ r.isAvailable name = true

variable {cfg : GatewayConfig} {r : Router}

/-- A sound chain leads to distinct calls. -/
theorem ChainSound.calls_nodup {decision : RouteDecision} (h : ChainSound cfg r decision)
    (w : World) (registry : ProviderRegistry) (provider : Provider) (req : ChatRequest)
    (router : Router) :
    ((callProviders w registry decision provider req router).calls.map
      ProviderCall.provider).Nodup :=
  (callProviders_names decision provider router).nodup (List.nodup_cons.mpr ⟨h.primary, h.nodup⟩)

theorem ChainSound.of_nil {decision : RouteDecision} (h : decision.fallbackChain = []) :
    ChainSound cfg r decision where
  nodup := by rw [h]; exact List.nodup_nil
  primary := by rw [h]; exact List.not_mem_nil
  usable := by
    rw [h]
    exact fun name hname => absurd hname List.not_mem_nil

/-- The direct path takes the other names of the health map, where every name is
registered. -/
theorem direct_chainSound [Rounding] (hregistered : r.RecordsRegistered cfg) {req : ChatRequest}
    {provider model : Str}
    (hsplit : splitAtColon (resolveModelAlias cfg req.model) = some (provider, model))
    (walk : Traversal (Σ _ : Str, ProviderHealth)) (sort : Descending Candidate Candidate.score) :
    ChainSound cfg r (r.route walk sort cfg req).1 := by
  have hprovider : (r.route walk sort cfg req).1.provider = provider := by
    simp only [route, hsplit]
  have hchain : (r.route walk sort cfg req).1.fallbackChain =
      ((walk.order r.health.entries).filter fun e => e.1 ≠ provider ∧ e.2.available).map
        Sigma.fst := by
    rw [route_fallbackChain, backups, hsplit]
  refine ⟨?_, ?_, ?_⟩
  · have hkeys : ((walk.order r.health.entries).map Sigma.fst).Nodup :=
      ((walk.perm r.health.entries).map Sigma.fst).nodup_iff.mpr r.health.nodupKeys
    rw [hchain]
    exact (List.filter_sublist.map Sigma.fst).nodup hkeys
  · rw [hchain, hprovider, mem_directBackups]
    exact fun h => h.1 rfl
  · intro name hname
    rw [hchain, mem_directBackups] at hname
    obtain ⟨-, record, hlookup, havailable⟩ := hname
    have hrecord : r.health.lookup name = some record := hlookup
    refine ⟨?_, by simp only [isAvailable, hrecord, havailable]⟩
    obtain ⟨pc, hpc, hpcname, hkeyed⟩ :=
      keyedName_iff.mp (hregistered name (by rw [hrecord]; rfl))
    exact ⟨pc, hpc, hpcname, hkeyed.1⟩

/-- `failover` takes the usable entries behind the first. -/
theorem failover_chainSound (hnodup : (cfg.providers.map ProviderConfig.name).Nodup) :
    ChainSound cfg r (routeFailover cfg r) := by
  have hnames : ((r.usable cfg).map ProviderConfig.name).Nodup :=
    (List.filter_sublist.map _).nodup hnodup
  unfold routeFailover
  cases husable : r.usable cfg with
  | nil => exact .of_nil rfl
  | cons pc rest =>
      rw [husable, List.map_cons, List.nodup_cons] at hnames
      refine ⟨hnames.2, hnames.1, ?_⟩
      intro name hname
      obtain ⟨other, hother, rfl⟩ := List.mem_map.mp hname
      obtain ⟨hpc, henabled, -, havailable⟩ :=
        mem_usable.mp (husable ▸ List.mem_cons_of_mem pc hother)
      exact ⟨⟨other, hpc, rfl, henabled⟩, havailable⟩

/-- `smart` takes the next three candidates, whatever their providers. -/
theorem smart_chainSound_iff [Rounding] {sort : Descending Candidate Candidate.score} :
    ChainSound cfg r (routeSmart sort cfg r) ↔
      (((sort.sort (r.candidates cfg)).take 4).map Candidate.provider).Nodup := by
  have hperm := sort.perm (r.candidates cfg)
  unfold routeSmart
  cases hsort : sort.sort (r.candidates cfg) with
  | nil => exact iff_of_true (.of_nil rfl) List.nodup_nil
  | cons best others =>
      rw [List.take_succ_cons, List.map_cons, List.nodup_cons]
      constructor
      · intro h
        exact ⟨h.primary, h.nodup⟩
      · intro h
        refine ⟨h.2, h.1, ?_⟩
        intro name hname
        obtain ⟨c, hc, rfl⟩ := List.mem_map.mp hname
        have hin : c ∈ r.candidates cfg := by
          rw [← hperm.mem_iff, hsort]
          exact List.mem_cons_of_mem best (List.mem_of_mem_take hc)
        obtain ⟨pc, hpc, henabled, havailable, model, -, rfl⟩ := mem_candidates.mp hin
        exact ⟨⟨pc, hpc, rfl, henabled⟩, havailable⟩

/-- In every order that ties allow, the four best candidates have distinct
providers exactly when no two open pairs of one provider get that far. -/
theorem smart_chainSound_all_iff [Rounding] :
    (∀ sort, ChainSound cfg r (routeSmart sort cfg r)) ↔
      Ranking.Outranked (pointsOf cfg r) (fun pair => pair.1.name) 3 (openPairs cfg r) := by
  have hpairs : Ranking.Outranked Candidate.score Candidate.provider 3 (r.candidates cfg) ↔
      Ranking.Outranked (pointsOf cfg r) (fun pair => pair.1.name) 3 (openPairs cfg r) := by
    rw [candidates_eq_openPairs, Ranking.outranked_map]
  rw [← hpairs, ← Ranking.take_nodup_iff]
  constructor
  · intro h l hl
    have hsound := smart_chainSound_iff.mp (h (.arranging hl))
    unfold Descending.arranging at hsound
    simp only [if_true] at hsound
    exact hsound
  · intro h sort
    exact smart_chainSound_iff.mpr (h _ ⟨sort.perm _, sort.sorted _⟩)

/-- The world in which no provider can be reached. -/
def unreachable (walk : Traversal (Σ _ : Str, ProviderHealth))
    (sort : Descending Candidate Candidate.score) : World :=
  { ordered := noDelay, walk := walk, sort := sort,
    upstream := fun _ _ _ _ => ⟨.failed [], 0⟩ }

/-- Along a sound chain a request calls no provider twice. -/
theorem ChainSound.callStep_nodup [Rounding] {decision : RouteDecision}
    (h : ChainSound cfg r decision)
    (P : Platform) (w : World) (req : ChatRequest) (provider : Provider) (s : Server) :
    ((callStep P w req decision provider s).calls.map ProviderCall.provider).Nodup := by
  rw [(callStep_frame P w req _ provider s).1]
  exact h.calls_nodup w s.registry provider req s.router

/-- Every strategy but `smart` answers with a sound chain, most with none. -/
theorem plain_chainSound [Rounding] (hnodup : (cfg.providers.map ProviderConfig.name).Nodup)
    {req : ChatRequest} (hplain : splitAtColon (resolveModelAlias cfg req.model) = none)
    (hstrategy : r.strategy ≠ .smart) (walk : Traversal (Σ _ : Str, ProviderHealth))
    (sort : Descending Candidate Candidate.score) :
    ChainSound cfg r (r.route walk sort cfg req).1 := by
  cases hcase : r.strategy with
  | costOptimized =>
      apply ChainSound.of_nil
      rw [route_fallbackChain, backups, hplain, hcase]
  | latencyOptimized =>
      apply ChainSound.of_nil
      rw [route_fallbackChain, backups, hplain, hcase]
  | roundRobin =>
      apply ChainSound.of_nil
      rw [route_fallbackChain, backups, hplain, hcase]
  | failover =>
      rw [route_of_plain hplain, hcase]
      exact failover_chainSound hnodup
  | smart => exact absurd hcase hstrategy

/-- **Fallback chains.**  For distinct provider names, a health map with records of
registered providers only, every strategy and every request: however the health map is
walked and ties are sorted, the chain is sound and the request calls no provider twice,
exactly when the request names its provider, or the strategy is not `smart`, or of any two
open pairs of one provider the one with fewer points is outdone by at least three
others. -/
theorem chain_iff [Rounding] (cfg : GatewayConfig)
    (hnodup : (cfg.providers.map ProviderConfig.name).Nodup) (r : Router)
    (hregistered : r.RecordsRegistered cfg) (req : ChatRequest) :
    (∀ w : World, ChainSound cfg r (r.route w.walk w.sort cfg req).1 ∧
        ∀ P provider s, ((callStep P w req (r.route w.walk w.sort cfg req).1 provider s).calls.map
          ProviderCall.provider).Nodup) ↔
      (splitAtColon (resolveModelAlias cfg req.model)).isSome ∨ r.strategy ≠ .smart ∨
        Ranking.Outranked (pointsOf cfg r) (fun pair => pair.1.name) 3 (openPairs cfg r) := by
  cases hsplit : splitAtColon (resolveModelAlias cfg req.model) with
  | some direct =>
      obtain ⟨provider, model⟩ := direct
      refine iff_of_true (fun w => ?_) (.inl rfl)
      have hsound := direct_chainSound hregistered hsplit w.walk w.sort
      exact ⟨hsound, fun P provider s => hsound.callStep_nodup P w req provider s⟩
  | none =>
      by_cases hsmart : r.strategy = .smart
      · have hroute : ∀ walk sort, (r.route walk sort cfg req).1 = routeSmart sort cfg r := by
          intro walk sort
          rw [route_of_plain hsplit, hsmart]
        constructor
        · intro h
          refine .inr (.inr (smart_chainSound_all_iff.mp fun sort => ?_))
          have hsound := (h (unreachable (.listed _) sort)).1
          rw [hroute] at hsound
          exact hsound
        · intro hcond w
          rcases hcond with hnamed | hnot | hspread
          · cases hnamed
          · exact absurd hsmart hnot
          · rw [hroute]
            have hsound := smart_chainSound_all_iff.mpr hspread w.sort
            exact ⟨hsound, fun P provider s => hsound.callStep_nodup P w req provider s⟩
      · refine iff_of_true (fun w => ?_) (.inr (.inl hsmart))
        have hsound := plain_chainSound hnodup hsplit hsmart w.walk w.sort
        exact ⟨hsound, fun P provider s => hsound.callStep_nodup P w req provider s⟩

/-- Before any report. -/
theorem reportsOf_init (cfg : GatewayConfig) : (init cfg).ReportsOf cfg := ⟨[], by simp, rfl⟩

/-- A provider with two models behind three heavier ones. -/
def spreadConfig : GatewayConfig where
  providers :=
    [{ name := str "openai", apiKey := str "k", models := [str "gpt-4o", str "gpt-4o-mini"] },
     { name := str "anthropic", apiKey := str "k", weight := 2, models := [str "claude-opus-4"] },
     { name := str "together", apiKey := str "k", weight := 2, models := [str "Qwen2.5-72B"] },
     { name := str "groq", apiKey := str "k", weight := 3, models := [str "gemma2-9b-it"] }]

/-- The one with two models comes in once. -/
theorem chain_iff_spread :
    ChainSound spreadConfig (init spreadConfig)
        ((init spreadConfig).route default default spreadConfig {}).1 ∧
      ∀ P provider s, ((callStep P (unreachable default default) {}
        ((init spreadConfig).route default default spreadConfig {}).1 provider s).calls.map
          ProviderCall.provider).Nodup :=
  (chain_iff spreadConfig (by decide) (init spreadConfig) (reportsOf_init _).registered {}).mpr
    (.inr (.inr (by with_unfolding_all decide))) (unreachable default default)

/-- One provider with two models, under `smart`. -/
def twoModelConfig : GatewayConfig :=
  setDefaultPricing
    { providers :=
        [{ name := str "openai", apiKey := str "k",
           models := [str "gpt-4o", str "gpt-4o-mini"] }] }

/-- The fallback of the one provider is itself. -/
theorem smart_falls_back_on_primary :
    ¬ ∀ (cfg : GatewayConfig) (r : Router) (req : ChatRequest) (w : World),
      (cfg.providers.map ProviderConfig.name).Nodup → r.ReportsOf cfg →
        ChainSound cfg r (r.route w.walk w.sort cfg req).1 ∧
          ∀ P provider s, ((callStep P w req (r.route w.walk w.sort cfg req).1 provider s).calls.map
            ProviderCall.provider).Nodup := by
  intro h
  have hsound := (h twoModelConfig (init twoModelConfig) {} (unreachable default default)
    (by decide) (reportsOf_init _)).1
  have hchain : ((init twoModelConfig).route default default twoModelConfig {}).1.provider ∈
      ((init twoModelConfig).route default default twoModelConfig {}).1.fallbackChain := by
    with_unfolding_all decide
  exact hsound.primary hchain

end Router

end Gateway
