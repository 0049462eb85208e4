import LlmGateway.Choice
import LlmGateway.Criteria
import LlmGateway.HealthRecords
import LlmGateway.Lib.Ranking

/-!
# What the smart and the latency strategy optimise

The score of a candidate is put together from the health record of a name, the
first entry of that name and the price of a pair.  With distinct names it is a
function of the pair (`pairScore`), so a sort of the candidates is a ranking of
the pairs, and the decision of `route_smart` is read off its front.  The weight
is multiplied by ten as an `int`: up to `214748364` the score is the one of the
design (`designScore`), beyond that the product wraps.  The latency strategy takes
a provider of least latency as long as the latencies are below the start value of
its loop.
-/

namespace Gateway

namespace Router

/-- The score of a model at an entry with so many points for its weight. -/
def scoreWith (cfg : GatewayConfig) (r : Router) (bonus : ℤ) (pair : ProviderConfig × Str) :
    Double :=
  100 - 50 * (r.healthRecord pair.1.name).errorRate -
      min ((r.healthRecord pair.1.name).avgLatencyMs / 100) 30 + bonus -
    100 * ((cfg.pricing.lookup (pricingKey pair.1.name pair.2)).map ModelPricing.rate).getD 0

/-- The formula of the design. -/
def designScore (cfg : GatewayConfig) (r : Router) (pair : ProviderConfig × Str) : Double :=
  scoreWith cfg r (10 * pair.1.weight) pair

/-- The formula as the code evaluates it, with an `int` product. -/
def pairScore (cfg : GatewayConfig) (r : Router) (pair : ProviderConfig × Str) : Double :=
  scoreWith cfg r (wrap32 (pair.1.weight * 10)) pair

/-- The decision is read off a ranking of the pairs by score: the first pair, and
the providers of the next three. -/
def ReadOff (cfg : GatewayConfig) (r : Router) (decision : RouteDecision) : Prop :=
  ∃ best others, (best :: others).Perm (openPairs cfg r) ∧
    (best :: others).Pairwise (fun a b => pairScore cfg r b ≤ pairScore cfg r a) ∧
    decision.provider = best.1.name ∧ decision.model = best.2 ∧
    decision.fallbackChain = (others.take 3).map fun pair => pair.1.name

variable {cfg : GatewayConfig} {r : Router}

/-- A weight whose product fits scores by the design. -/
theorem pairScore_eq_designScore {pair : ProviderConfig × Str}
    (hweight : |pair.1.weight| ≤ 214748364) : pairScore cfg r pair = designScore cfg r pair := by
  have hrange := abs_le.mp hweight
  have hfits : wrap32 (pair.1.weight * 10) = 10 * pair.1.weight := by
    rw [mul_comm]
    exact Int.bmod_eq_of_le (by omega) (by omega)
  rw [pairScore, designScore, hfits]

/-- Without a health record and a price only the weight counts. -/
theorem scoreWith_fresh {bonus : ℤ} {pair : ProviderConfig × Str}
    (hrecord : r.health.lookup pair.1.name = none)
    (hprice : cfg.pricing.lookup (pricingKey pair.1.name pair.2) = none) :
    scoreWith cfg r bonus pair = 100 + bonus := by
  unfold scoreWith healthRecord
  rw [hrecord, hprice]
  simp

/-- With distinct names the weight of the first entry of a name is that of the entry. -/
theorem weightOf_eq (hnodup : (cfg.providers.map ProviderConfig.name).Nodup)
    {pc : ProviderConfig} (hpc : pc ∈ cfg.providers) : weightOf cfg pc.name = pc.weight := by
  have hfirst : cfg.providers.find? (fun e => e.name = pc.name) = some pc := by
    cases hfind : cfg.providers.find? fun e => e.name = pc.name with
    | none => exact absurd (decide_eq_true rfl) (List.find?_eq_none.mp hfind pc hpc)
    | some e =>
        have hname : e.name = pc.name := by simpa using List.find?_some hfind
        rw [List.inj_on_of_nodup_map hnodup (List.mem_of_find?_eq_some hfind) hpc hname]
  rw [weightOf, hfirst, Option.map_some, Option.getD_some]

/-- In exact arithmetic the points of a pair are its score. -/
theorem pointsOf_eq_pairScore (hnodup : (cfg.providers.map ProviderConfig.name).Nodup)
    {pair : ProviderConfig × Str} (hpc : pair.1 ∈ cfg.providers) :
    pointsOf cfg r pair = pairScore cfg r pair := by
  have hhealth : (r.health.lookup pair.1.name).elim 100 (fun h : ProviderHealth =>
      100 - h.errorRate * 50 - min (h.avgLatencyMs / 100) 30) =
        100 - 50 * (r.healthRecord pair.1.name).errorRate -
          min ((r.healthRecord pair.1.name).avgLatencyMs / 100) 30 := by
    unfold healthRecord
    cases r.health.lookup pair.1.name with
    | none => norm_num
    | some h => simp only [Option.elim_some, Option.getD_some, mul_comm]
  unfold pointsOf points pairScore scoreWith priceOf
  simp only [fl_exactly, hhealth, weightOf_eq hnodup hpc]
  cases cfg.pricing.lookup (pricingKey pair.1.name pair.2) with
  | none => simp
  | some price =>
      simp only [Option.elim_some, Option.map_some, Option.getD_some, ModelPricing.rate, fl_exactly]
      ring

/-- The candidates are the open pairs with their scores. -/
theorem candidates_eq (hnodup : (cfg.providers.map ProviderConfig.name).Nodup) :
    r.candidates cfg = (openPairs cfg r).map fun pair =>
      ⟨pair.1.name, pair.2, pairScore cfg r pair⟩ := by
  rw [candidates_eq_openPairs]
  refine List.map_congr_left fun pair hpair => ?_
  rw [pointsOf_eq_pairScore hnodup (mem_openPairs.mp hpair).1]

/-- Any sort of the candidates reads the decision off a ranking of the pairs. -/
theorem routeSmart_readOff (hnodup : (cfg.providers.map ProviderConfig.name).Nodup)
    (hsome : openPairs cfg r ≠ []) (sort : Descending Candidate Candidate.score) :
    ReadOff cfg r (routeSmart sort cfg r) := by
  have hperm := sort.perm (r.candidates cfg)
  have hsorted := sort.sorted (r.candidates cfg)
  unfold routeSmart
  generalize sort.sort (r.candidates cfg) = sorted at hperm hsorted ⊢
  rw [candidates_eq hnodup] at hperm
  obtain ⟨ranked, rfl, hranked⟩ := Ranking.exists_perm_map hperm
  cases ranked with
  | nil => exact absurd hranked.nil_eq.symm hsome
  | cons best others =>
      refine ⟨best, others, hranked, ?_, rfl, rfl, ?_⟩
      · rw [List.pairwise_map] at hsorted
        exact hsorted
      · simp only [List.map_cons, ← List.map_take, List.map_map]
        rfl

/-- The first pair of a ranking is a best one. -/
theorem ReadOff.optimal {decision : RouteDecision} (h : ReadOff cfg r decision) :
    ∃ best ∈ openPairs cfg r, decision.provider = best.1.name ∧ decision.model = best.2 ∧
      ∀ pair ∈ openPairs cfg r, pairScore cfg r pair ≤ pairScore cfg r best := by
  obtain ⟨best, others, hperm, hsorted, hprovider, hmodel, -⟩ := h
  refine ⟨best, hperm.mem_iff.mp List.mem_cons_self, hprovider, hmodel, fun pair hpair => ?_⟩
  rcases List.mem_cons.mp (hperm.mem_iff.mpr hpair) with rfl | hother
  · exact le_rfl
  · exact (List.pairwise_cons.mp hsorted).1 pair hother

/-- Below the start value of its loop, the latency strategy takes a provider of
least latency. -/
theorem routeLatencyOptimized_least (hbelow : LatenciesBelow 1000000000 r.health)
    (hsome : r.usable cfg ≠ []) :
    ∃ pc ∈ r.usable cfg, (routeLatencyOptimized cfg r).provider = pc.name ∧
      ∀ pc' ∈ r.usable cfg, r.latencyOf pc.name ≤ r.latencyOf pc'.name := by
  obtain ⟨first, hfirst⟩ := List.exists_mem_of_ne_nil _ hsome
  have hpick : LatencyPick cfg r (routeLatencyOptimized cfg r).provider
      (routeLatencyOptimized cfg r).model := latencyPick_iff.mpr ⟨rfl, rfl⟩
  rcases hpick with ⟨ms, hfound⟩ | ⟨hall, -⟩
  · obtain ⟨pc, hpc, heq⟩ := List.mem_map.mp hfound.mem
    obtain ⟨hprovider, -, rfl⟩ := Best.mk.inj heq
    refine ⟨pc, hpc, hprovider.symm, fun pc' hpc' => ?_⟩
    exact hfound.le _ (List.mem_map_of_mem hpc')
  · have hslow := hall _ (List.mem_map_of_mem hfirst)
    exact absurd (latencyOf_lt (by norm_num) hbelow first.name) (not_lt.mpr hslow)

/-- **Optimal routing.**  For distinct names, a health map that reports of
non-negative latencies below `1e9` lead to, and some enabled, available entry with
a model: however the candidates are sorted, `route_smart` returns a pair of
maximal score among the enabled, available ones, with the providers of the next
three pairs in the order of their scores as its fallback chain, and the score is
that of the design for every weight whose product with ten is an `int`; and
`route_latency_optimized` returns an enabled, available provider with models of
least latency. -/
theorem smart_and_latency_optimal (cfg : GatewayConfig)
    (hnodup : (cfg.providers.map ProviderConfig.name).Nodup) (r : Router) (reports : List Report)
    (hms : ∀ report ∈ reports, ∀ ms ∈ report.latencyMs, 0 ≤ ms ∧ ms < 1000000000)
    (hhealth : r.health = ((init cfg).afterReports reports).health)
    (hsome : ∃ pc ∈ cfg.providers,
      pc.enabled = true ∧ r.isAvailable pc.name = true ∧ pc.models ≠ []) :
    (∀ sort, ReadOff cfg r (routeSmart sort cfg r) ∧
      ∃ best ∈ openPairs cfg r, (routeSmart sort cfg r).provider = best.1.name ∧
        (routeSmart sort cfg r).model = best.2 ∧
        ∀ pair ∈ openPairs cfg r, pairScore cfg r pair ≤ pairScore cfg r best) ∧
      (∀ pair : ProviderConfig × Str, |pair.1.weight| ≤ 214748364 →
        pairScore cfg r pair = designScore cfg r pair) ∧
      ∃ pc ∈ cfg.providers, (pc.enabled = true ∧ r.isAvailable pc.name = true ∧ pc.models ≠ []) ∧
        (routeLatencyOptimized cfg r).provider = pc.name ∧
        ∀ pc' ∈ cfg.providers,
          pc'.enabled = true ∧ r.isAvailable pc'.name = true ∧ pc'.models ≠ [] →
            r.latencyOf pc.name ≤ r.latencyOf pc'.name := by
  have hbelow : LatenciesBelow 1000000000 r.health := by
    rw [hhealth]
    exact (latenciesBelow_empty _).afterReports (r := init cfg) (by norm_num)
      fun report hreport ms hlatency => (hms report hreport ms hlatency).2
  refine ⟨?_, fun _ hweight => pairScore_eq_designScore hweight, ?_⟩
  · obtain ⟨pc, hpc, henabled, havailable, hmodels⟩ := hsome
    have hpair : (pc, pc.models.headD []) ∈ openPairs cfg r :=
      mem_openPairs.mpr ⟨hpc, headD_mem hmodels, open_iff.mpr ⟨henabled, havailable⟩⟩
    intro sort
    have hranked := routeSmart_readOff hnodup (List.ne_nil_of_mem hpair) sort
    exact ⟨hranked, hranked.optimal⟩
  · have husable : r.usable cfg ≠ [] := fun hnil => usable_eq_nil_iff.mp hnil hsome
    obtain ⟨pc, hpc, hprovider, hleast⟩ := routeLatencyOptimized_least hbelow husable
    obtain ⟨hmem, henabled, hmodels, havailable⟩ := mem_usable.mp hpc
    refine ⟨pc, hmem, ⟨henabled, havailable, hmodels⟩, hprovider, fun pc' hpc' huse => ?_⟩
    obtain ⟨henabled', havailable', hmodels'⟩ := huse
    exact hleast pc' (mem_usable.mpr ⟨hpc', henabled', hmodels', havailable'⟩)

/-- The router after a slow answer of the first of two entries. -/
def afterSlowAnswer : Router := (init unpricedConfig).afterReports [.success 0 (str "groq") 900]

/-- The latency strategy then takes the other one, which has no record. -/
theorem smart_and_latency_optimal_slow :
    (routeLatencyOptimized unpricedConfig afterSlowAnswer).provider = str "together" := by
  have hlaw := smart_and_latency_optimal unpricedConfig (by decide) afterSlowAnswer
    [.success 0 (str "groq") 900]
    (by
      intro report hreport ms hlatency
      rw [List.mem_singleton.mp hreport] at hlatency
      cases hlatency
      norm_num)
    rfl
    ⟨{ name := str "groq", models := [str "gemma2-9b-it"] }, by decide, by decide⟩
  obtain ⟨-, -, pc, hpc, -, hprovider, hleast⟩ := hlaw
  have htwo : pc ∈ [{ name := str "groq", models := [str "gemma2-9b-it"] },
      ({ name := str "together", models := [str "Qwen/Qwen2.5-72B-Instruct"] } :
        ProviderConfig)] := hpc
  rcases List.mem_cons.mp htwo with rfl | hother
  · have hslow := hleast { name := str "together", models := [str "Qwen/Qwen2.5-72B-Instruct"] }
      (by decide) (by decide)
    exact absurd hslow (by decide)
  · rw [List.mem_singleton.mp hother] at hprovider
    exact hprovider

/-- Two entries, of which the weight of the first does not fit ten times. -/
def heavyConfig : GatewayConfig where
  providers :=
    [{ name := str "groq", weight := 214748365, models := [str "a"] },
     { name := str "together", models := [str "b"] }]

/-- The product of the greater weight is negative, so its entry is ranked last. -/
theorem heavy_weight_ranks_last :
    ¬ ∀ (cfg : GatewayConfig) (r : Router) (reports : List Report),
      (cfg.providers.map ProviderConfig.name).Nodup →
      (∀ report ∈ reports, ∀ ms ∈ report.latencyMs, 0 ≤ ms ∧ ms < 1000000000) →
      r.health = ((init cfg).afterReports reports).health →
      (∃ pc ∈ cfg.providers,
        pc.enabled = true ∧ r.isAvailable pc.name = true ∧ pc.models ≠ []) →
        ∀ sort, ∃ best ∈ openPairs cfg r, (routeSmart sort cfg r).provider = best.1.name ∧
          (routeSmart sort cfg r).model = best.2 ∧
          ∀ pair ∈ openPairs cfg r, designScore cfg r pair ≤ designScore cfg r best := by
  intro h
  have hnodup : (heavyConfig.providers.map ProviderConfig.name).Nodup := by decide
  obtain ⟨best, hbest, hprovider, -, hmax⟩ := h heavyConfig (init heavyConfig) [] hnodup
    (by simp) rfl ⟨heavyConfig.providers.head (by decide), by decide, by decide⟩ default
  have hranked := routeSmart_readOff (r := init heavyConfig) hnodup (by decide) default
  obtain ⟨ranked, hin, hname, -, hhighest⟩ := hranked.optimal
  have hscore : ∀ bonus pair, scoreWith heavyConfig (init heavyConfig) bonus pair = 100 + bonus :=
    fun bonus pair => scoreWith_fresh (AList.lookup_empty _) (AList.lookup_empty _)
  have hheavy := hmax (heavyConfig.providers.head (by decide), str "a") (by decide)
  have hlight := hhighest (heavyConfig.providers.getLast (by decide), str "b") (by decide)
  simp only [designScore, pairScore, hscore, add_le_add_iff_left, Int.cast_le] at hheavy hlight
  have hdiffer : ∀ pair ∈ openPairs heavyConfig (init heavyConfig),
      ∀ pair' ∈ openPairs heavyConfig (init heavyConfig),
        10 * 214748365 ≤ 10 * pair.1.weight → wrap32 (1 * 10) ≤ wrap32 (pair'.1.weight * 10) →
          pair.1.name ≠ pair'.1.name := by decide
  exact hdiffer best hbest ranked hin hheavy hlight (hprovider.symm.trans hname)

end Router

end Gateway
