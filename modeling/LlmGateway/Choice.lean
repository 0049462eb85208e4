import LlmGateway.HealthReports
import LlmGateway.Routing

/-!
# The provider that a strategy chooses

Five loops read the same configuration and the same health map, and each filters
it again.  A choice is right when it names a usable entry that lists the model,
and names nothing only when there is no usable entry.

Four of the loops always choose right.  The second loop of the cost strategy is
meant to find the first available provider and does not ask whether it is
available; `choice_iff` says when that shows.
-/

namespace Gateway

namespace Router

/-- A usable entry that lists the model, or no provider because no entry is
usable. -/
def ChoosesRight (cfg : GatewayConfig) (r : Router) (provider model : Str) : Prop :=
  (provider ≠ [] → Lists cfg r provider model) ∧
    (provider = [] ↔ ¬ ∃ pc ∈ cfg.providers,
      pc.enabled = true ∧ r.isAvailable pc.name = true ∧ pc.models ≠ [])

variable {cfg : GatewayConfig} {r : Router} {provider model : Str}

theorem usable_eq_nil_iff :
    r.usable cfg = [] ↔ ¬ ∃ pc ∈ cfg.providers,
      pc.enabled = true ∧ r.isAvailable pc.name = true ∧ pc.models ≠ [] := by
  rw [List.eq_nil_iff_forall_not_mem]
  constructor
  · intro hnone hsome
    obtain ⟨pc, hpc, henabled, havailable, hmodels⟩ := hsome
    exact hnone pc (mem_usable.mpr ⟨hpc, henabled, hmodels, havailable⟩)
  · intro hnone pc hpc
    obtain ⟨hmem, henabled, hmodels, havailable⟩ := mem_usable.mp hpc
    exact hnone ⟨pc, hmem, henabled, havailable, hmodels⟩

/-- A listed pair is a right choice. -/
theorem ChoosesRight.of_lists (hnames : ∀ pc ∈ cfg.providers, pc.name ≠ [])
    (h : Lists cfg r provider model) : ChoosesRight cfg r provider model := by
  obtain ⟨pc, hmem, rfl, henabled, havailable, hmodel⟩ := h
  refine ⟨fun _ => ⟨pc, hmem, rfl, henabled, havailable, hmodel⟩, ?_⟩
  refine iff_of_false (hnames pc hmem) ?_
  exact not_not.mpr ⟨pc, hmem, henabled, havailable, List.ne_nil_of_mem hmodel⟩

/-- Without a usable entry, no provider is a right choice. -/
theorem ChoosesRight.of_usable_nil (h : r.usable cfg = []) : ChoosesRight cfg r [] model :=
  ⟨fun hne => absurd rfl hne, iff_of_true rfl (usable_eq_nil_iff.mp h)⟩

/-- A latency that is compared is one from the map or the default. -/
theorem latencyOf_lt {bound : Double} (hdefault : 500 < bound)
    (h : LatenciesBelow bound r.health) (name : Str) : r.latencyOf name < bound := by
  unfold latencyOf
  cases hl : r.health.lookup name with
  | none => exact hdefault
  | some record => exact h name record hl

theorem LatencyPick.choosesRight (hnames : ∀ pc ∈ cfg.providers, pc.name ≠ [])
    (hlatency : LatenciesBelow 1000000000 r.health) (h : LatencyPick cfg r provider model) :
    ChoosesRight cfg r provider model := by
  rcases h with ⟨ms, hfound⟩ | ⟨hall, rfl, rfl⟩
  · exact .of_lists hnames (lists_of_timed hfound.mem)
  · apply ChoosesRight.of_usable_nil
    rw [List.eq_nil_iff_forall_not_mem]
    intro pc hpc
    have hslow := hall _ (List.mem_map_of_mem hpc)
    exact absurd (latencyOf_lt (by norm_num) hlatency pc.name) (not_lt.mpr hslow)

theorem RoundRobinPick.choosesRight (hnames : ∀ pc ∈ cfg.providers, pc.name ≠ [])
    (h : RoundRobinPick cfg r provider model) : ChoosesRight cfg r provider model := by
  rcases h with ⟨pc, hpc, rfl, rfl⟩ | ⟨hnil, rfl, rfl⟩
  · exact .of_lists hnames (lists_of_usable (List.mem_of_getElem? hpc))
  · exact .of_usable_nil hnil

/-- With distinct names, the first entry of the primary's name is the primary. -/
theorem FailoverPick.choosesRight (hnodup : (cfg.providers.map ProviderConfig.name).Nodup)
    (hnames : ∀ pc ∈ cfg.providers, pc.name ≠ []) (h : FailoverPick cfg r provider model) :
    ChoosesRight cfg r provider model := by
  rcases h with ⟨pc, chain, named, husable, hnamed, rfl, rfl⟩ | ⟨hnil, rfl, rfl⟩
  · have hpc : pc ∈ r.usable cfg := husable ▸ List.mem_cons_self
    have hname : named.name = pc.name := by
      have hfound := List.find?_some hnamed
      simp only [decide_eq_true_eq] at hfound
      exact hfound.1
    obtain rfl := List.inj_on_of_nodup_map hnodup (List.mem_of_find?_eq_some hnamed)
      (mem_usable.mp hpc).1 hname
    exact .of_lists hnames (lists_of_usable hpc)
  · exact .of_usable_nil hnil

theorem SmartPick.choosesRight (hnames : ∀ pc ∈ cfg.providers, pc.name ≠ [])
    (h : SmartPick cfg r provider model) : ChoosesRight cfg r provider model := by
  rcases h with ⟨score, hc, -⟩ | ⟨hnil, rfl, rfl⟩
  · exact .of_lists hnames (lists_of_candidate hc)
  · apply ChoosesRight.of_usable_nil
    rw [List.eq_nil_iff_forall_not_mem]
    intro pc hpc
    obtain ⟨hmem, henabled, hmodels, havailable⟩ := mem_usable.mp hpc
    have hc := mem_candidates.mpr
      ⟨pc, hmem, henabled, havailable, pc.models.headD [], headD_mem hmodels, rfl⟩
    rw [hnil] at hc
    cases hc

/-- The cost strategy chooses right when a usable entry has a priced model, or
else when its second loop comes upon an available entry. -/
theorem CostPick.choosesRight (hnames : ∀ pc ∈ cfg.providers, pc.name ≠ [])
    (hcond : (∃ b ∈ pricedPairs cfg r, b.value < 1000000000) ∨
      ∀ pc, firstEntry cfg = some pc → r.isAvailable pc.name = true)
    (h : CostPick cfg r provider model) : ChoosesRight cfg r provider model := by
  rcases h with hcheapest | ⟨hnone, hsecond⟩
  · exact .of_lists hnames hcheapest.lists
  · have hfirst : ∀ pc, firstEntry cfg = some pc → r.isAvailable pc.name = true := by
      rcases hcond with hpriced | hfirst
      · -- the first loop would have found something
        obtain ⟨b, hb, hlt⟩ := hpriced
        exact absurd (le_of_no_cheapest hnames hnone b hb) (not_le.mpr hlt)
      · exact hfirst
    rcases hsecond with ⟨pc, hpc, rfl, rfl⟩ | ⟨hempty, rfl, rfl⟩
    · obtain ⟨hmem, henabled, hmodels⟩ := mem_of_firstEntry hpc
      exact .of_lists hnames
        (lists_of_usable (mem_usable.mpr ⟨hmem, henabled, hmodels, hfirst pc hpc⟩))
    · apply ChoosesRight.of_usable_nil
      rw [List.eq_nil_iff_forall_not_mem]
      intro pc hpc
      obtain ⟨first, hsome⟩ := firstEntry_of_usable hpc
      cases hempty.symm.trans hsome

/-- The second loop of the cost strategy may come upon an entry that is marked
unavailable. -/
theorem costPick_of_unpriced (hpriced : ¬ ∃ b ∈ pricedPairs cfg r, b.value < 1000000000)
    {pc : ProviderConfig} (hfirst : firstEntry cfg = some pc) :
    CostPick cfg r pc.name (pc.models.headD []) := by
  refine .inr ⟨no_cheapest_of_le fun b hb => ?_, .inl ⟨pc, hfirst, rfl, rfl⟩⟩
  exact not_lt.mp fun hlt => hpriced ⟨b, hb, hlt⟩

/-- **The choice of a provider.**  For distinct names, a health map that reports
of latencies below `1e9` lead to, and a request whose model names no provider,
every decision of the router is a right choice exactly when the strategy is not
the cost strategy, or a usable entry has a model priced below `1e9`, or the first
enabled entry with models is available. -/
theorem choice_iff (cfg : GatewayConfig) (hnodup : (cfg.providers.map ProviderConfig.name).Nodup)
    (hnames : ∀ pc ∈ cfg.providers, pc.name ≠ []) (r : Router) (reports : List Report)
    (hms : ∀ report ∈ reports, ∀ ms ∈ report.latencyMs, ms < 1000000000)
    (hhealth : r.health = ((init cfg).afterReports reports).health) (req : ChatRequest)
    (hplain : byte ':' ∉ resolveModelAlias cfg req.model) :
    (∀ walk sort, ChoosesRight cfg r (r.route walk sort cfg req).1.provider
        (r.route walk sort cfg req).1.model) ↔
      (r.strategy = .costOptimized →
        (∃ b ∈ pricedPairs cfg r, b.value < 1000000000) ∨
          ∀ pc, firstEntry cfg = some pc → r.isAvailable pc.name = true) := by
  have hlatency : LatenciesBelow 1000000000 r.health := by
    rw [hhealth]
    exact (latenciesBelow_empty _).afterReports (r := init cfg) (by norm_num) hms
  have hsplit : splitAtColon (resolveModelAlias cfg req.model) = none := if_neg hplain
  rw [route_all_iff (Q := ChoosesRight cfg r) hsplit]
  constructor
  · intro hright hcost
    by_contra hcond
    rw [not_or, not_forall] at hcond
    obtain ⟨hpriced, pc, hpc⟩ := hcond
    rw [Classical.not_imp] at hpc
    obtain ⟨hfirst, hdown⟩ := hpc
    have hpick : Picks cfg r pc.name (pc.models.headD []) := by
      rw [Picks, hcost]
      exact costPick_of_unpriced hpriced hfirst
    obtain ⟨pc', -, hname, -, havailable, -⟩ :=
      (hright _ _ hpick).1 (hnames pc (List.mem_of_find?_eq_some hfirst))
    rw [hname] at havailable
    exact hdown havailable
  · intro hcond provider model hpick
    unfold Picks at hpick
    cases hstrategy : r.strategy with
    | costOptimized =>
        rw [hstrategy] at hpick
        exact CostPick.choosesRight hnames (hcond hstrategy) hpick
    | latencyOptimized =>
        rw [hstrategy] at hpick
        exact LatencyPick.choosesRight hnames hlatency hpick
    | roundRobin =>
        rw [hstrategy] at hpick
        exact RoundRobinPick.choosesRight hnames hpick
    | failover =>
        rw [hstrategy] at hpick
        exact FailoverPick.choosesRight hnodup hnames hpick
    | smart =>
        rw [hstrategy] at hpick
        exact SmartPick.choosesRight hnames hpick

/-- Two entries whose models have no price, under the cost strategy. -/
def unpricedConfig : GatewayConfig :=
  setDefaultPricing
    { defaultStrategy := .costOptimized
      providers :=
        [{ name := str "groq", models := [str "gemma2-9b-it"] },
         { name := str "together", models := [str "Qwen/Qwen2.5-72B-Instruct"] }] }

/-- Six failed calls mark the first of them unavailable. -/
def groqFailures : List Report := List.replicate 6 (.failure 0 (str "groq"))

/-- A call of the first that succeeds after one that failed, and six failed calls of
the second. -/
def togetherFailures : List Report :=
  [.failure 0 (str "groq"), .success 1 (str "groq") 50] ++
    List.replicate 6 (.failure 2 (str "together"))

/-- With the second entry marked unavailable every decision is right. -/
theorem choice_iff_first_up :
    ((init unpricedConfig).afterReports togetherFailures).isAvailable (str "together") = false ∧
      ∀ walk sort, ChoosesRight unpricedConfig ((init unpricedConfig).afterReports togetherFailures)
        (((init unpricedConfig).afterReports togetherFailures).route walk sort
          unpricedConfig {}).1.provider
        (((init unpricedConfig).afterReports togetherFailures).route walk sort
          unpricedConfig {}).1.model := by
  have hlaw := choice_iff unpricedConfig (by decide) (by decide)
    ((init unpricedConfig).afterReports togetherFailures) togetherFailures
    (by with_unfolding_all decide) rfl {} (by decide)
  refine ⟨by with_unfolding_all decide, hlaw.mpr fun _ => .inr ?_⟩
  intro pc hpc
  cases hpc
  with_unfolding_all decide

/-- The cost strategy chooses the entry that is marked unavailable although the
other one could be chosen. -/
theorem cost_chooses_unavailable :
    ¬ ∀ (cfg : GatewayConfig) (r : Router) (reports : List Report) (req : ChatRequest),
      (cfg.providers.map ProviderConfig.name).Nodup → (∀ pc ∈ cfg.providers, pc.name ≠ []) →
      (∀ report ∈ reports, ∀ ms ∈ report.latencyMs, ms < 1000000000) →
      r.health = ((init cfg).afterReports reports).health →
      byte ':' ∉ resolveModelAlias cfg req.model →
        ∀ walk sort, ChoosesRight cfg r (r.route walk sort cfg req).1.provider
          (r.route walk sort cfg req).1.model := by
  intro h
  have hright := h unpricedConfig ((init unpricedConfig).afterReports groqFailures) groqFailures {}
    (by decide) (by decide) (by decide) rfl (by decide) default default
  have hgroq : (((init unpricedConfig).afterReports groqFailures).route default default
      unpricedConfig {}).1.provider = str "groq" := by with_unfolding_all decide
  have hdown : ((init unpricedConfig).afterReports groqFailures).isAvailable (str "groq") =
      false := by
    with_unfolding_all decide
  obtain ⟨pc, -, hname, -, havailable, -⟩ := hright.1 (by rw [hgroq]; decide)
  rw [hname, hgroq, hdown] at havailable
  cases havailable

end Router

end Gateway
