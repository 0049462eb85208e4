import LlmGateway.Criteria
import LlmGateway.Serving

/-!
# The registry and the router

The router filters the configuration by enabled and available; the registry
keeps an entry only if it is enabled, has an API key and has a known name.
Neither asks the other.  `routed_provider_registered_iff` says, for each strategy, when
the entry that the router ends on is one that the registry keeps.
-/

namespace Gateway

/-- `initialize` registers the entry. -/
def Keyed (pc : ProviderConfig) : Prop :=
  pc.enabled = true ∧ pc.apiKey ≠ [] ∧ (ProviderRegistry.kindOf pc.name).isSome

instance : DecidablePred Keyed := fun _ => inferInstanceAs (Decidable (_ ∧ _ ∧ _))

namespace ProviderRegistry

theorem createProvider_isSome (pc : ProviderConfig) :
    (createProvider pc).isSome ↔ (kindOf pc.name).isSome := by
  simp [createProvider]

/-- What one turn of the loop does to the registry. -/
theorem register_cases (reg : ProviderRegistry) (pc : ProviderConfig) :
    (¬ Keyed pc ∧ reg.register pc = reg) ∨
      ∃ provider, Keyed pc ∧ createProvider pc = some provider ∧
        reg.register pc = { providers := reg.providers.insert pc.name provider } := by
  unfold register Keyed
  by_cases henabled : pc.enabled = true
  · by_cases hkey : pc.apiKey = []
    · simp [hkey]
    · have hsome := createProvider_isSome pc
      cases hcreate : createProvider pc with
      | none =>
          rw [hcreate] at hsome
          refine .inl ⟨fun h => ?_, by simp [henabled, hkey]⟩
          exact absurd (hsome.mpr h.2.2) (by simp)
      | some provider =>
          rw [hcreate] at hsome
          exact .inr ⟨provider, ⟨henabled, hkey, hsome.mp rfl⟩, rfl, by simp [henabled, hkey]⟩
  · simp [henabled]

theorem get_register_of_ne {reg : ProviderRegistry} {pc : ProviderConfig} {name : Str}
    (h : name ≠ pc.name) : (reg.register pc).get name = reg.get name := by
  rcases register_cases reg pc with ⟨-, hrun⟩ | ⟨provider, -, -, hrun⟩
  · rw [hrun]
  · rw [hrun]
    exact AList.lookup_insert_ne h

/-- The registered names are those of the keyed entries. -/
theorem get_initializeFrom_isSome (configs : List ProviderConfig) (reg : ProviderRegistry)
    (name : Str) :
    ((initializeFrom configs reg).get name).isSome ↔
      (reg.get name).isSome ∨ ∃ pc ∈ configs, pc.name = name ∧ Keyed pc := by
  induction configs generalizing reg with
  | nil => simp [initializeFrom]
  | cons pc configs ih =>
      have hfold : initializeFrom (pc :: configs) reg = initializeFrom configs (reg.register pc) :=
        rfl
      have hstep : ((reg.register pc).get name).isSome ↔
          (reg.get name).isSome ∨ pc.name = name ∧ Keyed pc := by
        by_cases hname : name = pc.name
        · subst hname
          rcases register_cases reg pc with ⟨hnot, hrun⟩ | ⟨provider, hkeyed, -, hrun⟩
          · simp [hrun, hnot]
          · simp [hrun, hkeyed, get]
        · rw [get_register_of_ne hname]
          simp [Ne.symm hname]
      rw [hfold, ih, hstep]
      simp only [List.mem_cons, exists_eq_or_imp, or_assoc]

/-- Every provider is registered under the name of its own class. -/
theorem kind_of_get_initializeFrom {configs : List ProviderConfig} {reg : ProviderRegistry}
    (hreg : ∀ name provider, reg.get name = some provider → provider.kind.name = name)
    {name : Str} {provider : Provider} (h : (initializeFrom configs reg).get name = some provider) :
    provider.kind.name = name := by
  induction configs generalizing reg with
  | nil => exact hreg name provider h
  | cons pc configs ih =>
      have hrest : (initializeFrom configs (reg.register pc)).get name = some provider := h
      refine ih (fun name' provider' hget => ?_) hrest
      rcases register_cases reg pc with ⟨-, hrun⟩ | ⟨made, -, hcreate, hrun⟩
      · exact hreg name' provider' (hrun ▸ hget)
      · by_cases hname : name' = pc.name
        · subst hname
          rw [hrun] at hget
          cases (AList.lookup_insert _).symm.trans hget
          obtain ⟨kind, hkind, rfl⟩ := Option.map_eq_some_iff.mp hcreate
          exact (kindOf_eq_some.mp hkind).symm
        · rw [get_register_of_ne hname] at hget
          exact hreg name' provider' hget

/-- Every provider is made from an entry of its name. -/
theorem mem_of_get_initializeFrom {configs : List ProviderConfig} {reg : ProviderRegistry}
    {name : Str} {provider : Provider} (h : (initializeFrom configs reg).get name = some provider) :
    reg.get name = some provider ∨
      ∃ pc ∈ configs, pc.name = name ∧ createProvider pc = some provider := by
  induction configs generalizing reg with
  | nil => exact .inl h
  | cons pc configs ih =>
      have hrest : (initializeFrom configs (reg.register pc)).get name = some provider := h
      rcases ih hrest with hget | ⟨pc', hmem, hname, hcreate⟩
      · rcases register_cases reg pc with ⟨-, hrun⟩ | ⟨made, -, hcreate, hrun⟩
        · exact .inl (hrun ▸ hget)
        · by_cases hname : name = pc.name
          · rw [hrun, hname] at hget
            cases (AList.lookup_insert _).symm.trans hget
            exact .inr ⟨pc, List.mem_cons_self, hname.symm, hcreate⟩
          · rw [get_register_of_ne hname] at hget
            exact .inl hget
      · exact .inr ⟨pc', List.mem_cons_of_mem _ hmem, hname, hcreate⟩

end ProviderRegistry

theorem Keyed.name_ne_nil {pc : ProviderConfig} (h : Keyed pc) : pc.name ≠ [] := by
  intro hnil
  have hkind := h.2.2
  rw [hnil] at hkind
  exact absurd hkind (by decide)

namespace Router

/-- The entry that the strategy ends on is registered: the one of the cheapest pair, or
else the first enabled one; the fastest one; the one in turn; the first eligible one; the
one of every pair of most points. -/
def EndsKeyed [Rounding] (cfg : GatewayConfig) (r : Router) : Prop :=
  match r.strategy with
  | .costOptimized =>
      (∃ pair, CheapestPair cfg r pair ∧ Keyed pair.1) ∨
        (∀ pair, ¬ CheapestPair cfg r pair) ∧ ∃ pc, FirstEnabled cfg pc ∧ Keyed pc
  | .latencyOptimized => ∃ pc, FastestEntry cfg r pc ∧ Keyed pc
  | .roundRobin => ∃ pc, InTurn cfg r pc ∧ Keyed pc
  | .failover => ∃ pc, FirstEligible cfg r pc ∧ Keyed pc
  | .smart => ∀ pair, BestPair cfg r pair → Keyed pair.1

/-- The provider name belongs to a keyed entry. -/
def KeyedName (cfg : GatewayConfig) (name : Str) : Prop :=
  ∃ pc ∈ cfg.providers, pc.name = name ∧ Keyed pc

variable {cfg : GatewayConfig} {r : Router}

/-- With distinct names a keyed name is that of a keyed entry. -/
theorem keyedName_of_mem (hnodup : (cfg.providers.map ProviderConfig.name).Nodup)
    {pc : ProviderConfig} (hpc : pc ∈ cfg.providers) : KeyedName cfg pc.name ↔ Keyed pc := by
  constructor
  · intro h
    obtain ⟨pc', hpc', hname, hkeyed⟩ := h
    rwa [← List.inj_on_of_nodup_map hnodup hpc' hpc hname]
  · exact fun h => ⟨pc, hpc, rfl, h⟩

theorem keyedName_iff {name : Str} :
    ((ProviderRegistry.initializeFrom cfg.providers {}).get name).isSome ↔ KeyedName cfg name := by
  rw [ProviderRegistry.get_initializeFrom_isSome]
  simp [ProviderRegistry.get, KeyedName]

/-- Under the cost strategy, where names are not empty. -/
theorem costPick_keyed_iff [Rounding] (hnodup : (cfg.providers.map ProviderConfig.name).Nodup)
    (hnonempty : ∀ pc ∈ cfg.providers, pc.name ≠ []) (hsome : ∃ pc, pc ∈ r.usable cfg) :
    (∀ p m, CostPick cfg r p m → KeyedName cfg p) ↔
      (∃ pair, CheapestPair cfg r pair ∧ Keyed pair.1) ∨
        (∀ pair, ¬ CheapestPair cfg r pair) ∧ ∃ pc, FirstEnabled cfg pc ∧ Keyed pc := by
  obtain ⟨known, hknown⟩ := hsome
  obtain ⟨first, hfirst⟩ := firstEntry_of_usable hknown
  have hentry := (mem_of_firstEntry hfirst).1
  have hname : ∀ {pair}, CheapestPair cfg r pair → pair.1.name ≠ [] := fun hpair =>
    hnonempty _ (mem_openPairs.mp hpair.mem).1
  constructor
  · intro h
    by_cases hfound : ∃ pair, CheapestPair cfg r pair
    · obtain ⟨pair, hpair⟩ := hfound
      have hkeyed := h _ _ (.inl (cheapestNamed_iff_pair.mpr ⟨hname hpair, pair, hpair, rfl, rfl⟩))
      exact .inl ⟨pair, hpair, (keyedName_of_mem hnodup (mem_openPairs.mp hpair.mem).1).mp hkeyed⟩
    · have hnone : ∀ pair, ¬ CheapestPair cfg r pair := fun pair hpair => hfound ⟨pair, hpair⟩
      have hkeyed := h _ _ (.inr ⟨no_cheapestNamed_iff.mpr fun pair hpair => absurd hpair (hnone _),
        .inl ⟨first, hfirst, rfl, rfl⟩⟩)
      exact .inr ⟨hnone, first, firstEnabled_iff.mp hfirst,
        (keyedName_of_mem hnodup hentry).mp hkeyed⟩
  · intro h p m hpick
    rcases h with ⟨pair, hpair, hkeyed⟩ | ⟨hnone, pc, hpc, hkeyed⟩
    · rcases hpick with hp | ⟨hno, -⟩
      · obtain ⟨-, pair', hpair', rfl, -⟩ := cheapestNamed_iff_pair.mp hp
        rw [(hpair'.unique hpair).1]
        exact (keyedName_of_mem hnodup (mem_openPairs.mp hpair.mem).1).mpr hkeyed
      · exact absurd (no_cheapestNamed_iff.mp hno pair hpair) (hname hpair)
    · have hsame := firstEnabled_iff.mpr hpc
      rcases hpick with hp | ⟨-, ⟨pc', hpc', rfl, -⟩ | ⟨hpc', -⟩⟩
      · obtain ⟨-, pair', hpair', -⟩ := cheapestNamed_iff_pair.mp hp
        exact absurd hpair' (hnone pair')
      · cases hsame.symm.trans hpc'
        exact (keyedName_of_mem hnodup (mem_of_firstEntry hsame).1).mpr hkeyed
      · cases hsame.symm.trans hpc'

/-- Under the latency strategy; an answer without a provider is no keyed name. -/
theorem latencyPick_keyed_iff (hnodup : (cfg.providers.map ProviderConfig.name).Nodup)
    (hnonempty : ∀ pc ∈ cfg.providers, pc.name ≠ []) :
    (∀ p m, LatencyPick cfg r p m → KeyedName cfg p) ↔
      ∃ pc, FastestEntry cfg r pc ∧ Keyed pc := by
  simp only [latencyPick_iff_entry]
  constructor
  · intro h
    by_cases hfound : ∃ pc, FastestEntry cfg r pc
    · obtain ⟨pc, hpc⟩ := hfound
      exact ⟨pc, hpc, (keyedName_of_mem hnodup hpc.eligible.1).mp
        (h _ _ (.inl ⟨pc, hpc, rfl, rfl⟩))⟩
    · obtain ⟨pc, hpc, hname, -⟩ := h [] [] (.inr ⟨fun pc hpc => hfound ⟨pc, hpc⟩, rfl, rfl⟩)
      exact absurd hname (hnonempty pc hpc)
  · intro h p m hpick
    obtain ⟨pc, hpc, hkeyed⟩ := h
    rcases hpick with ⟨pc', hpc', rfl, -⟩ | ⟨hnone, -⟩
    · rw [(hpc'.unique hpc).1]
      exact (keyedName_of_mem hnodup hpc.eligible.1).mpr hkeyed
    · exact absurd hpc (hnone pc)

/-- Under round robin. -/
theorem roundRobinPick_keyed_iff (hnodup : (cfg.providers.map ProviderConfig.name).Nodup)
    (hsome : ∃ pc, pc ∈ r.usable cfg) :
    (∀ p m, RoundRobinPick cfg r p m → KeyedName cfg p) ↔ ∃ pc, InTurn cfg r pc ∧ Keyed pc := by
  obtain ⟨known, hknown⟩ := hsome
  constructor
  · intro h
    obtain ⟨pc, hturn⟩ := exists_inTurn hknown
    have hkeyed := h _ _ (.inl ⟨pc, inTurn_iff.mpr hturn, rfl, rfl⟩)
    exact ⟨pc, hturn, (keyedName_of_mem hnodup hturn.eligible.1).mp hkeyed⟩
  · intro h p m hpick
    obtain ⟨pc, hturn, hkeyed⟩ := h
    rcases hpick with ⟨pc', hpc', rfl, -⟩ | ⟨hnil, -⟩
    · cases (inTurn_iff.mpr hturn).symm.trans hpc'
      exact (keyedName_of_mem hnodup hturn.eligible.1).mpr hkeyed
    · rw [hnil] at hknown
      cases hknown

/-- Under failover. -/
theorem failoverPick_keyed_iff (hnodup : (cfg.providers.map ProviderConfig.name).Nodup)
    (hsome : ∃ pc, pc ∈ r.usable cfg) :
    (∀ p m, FailoverPick cfg r p m → KeyedName cfg p) ↔
      ∃ pc, FirstEligible cfg r pc ∧ Keyed pc := by
  obtain ⟨known, hknown⟩ := hsome
  simp only [failoverPick_iff_entry]
  constructor
  · intro h
    obtain ⟨pc, named, hfirst, hnamed⟩ := exists_firstEligible hknown
    have hkeyed := h _ _ (.inl ⟨pc, named, hfirst, hnamed, rfl, rfl⟩)
    exact ⟨pc, hfirst, (keyedName_of_mem hnodup hfirst.eligible.1).mp hkeyed⟩
  · intro h p m hpick
    obtain ⟨pc, hfirst, hkeyed⟩ := h
    rcases hpick with ⟨pc', named, hfirst', -, rfl, -⟩ | ⟨hnil, -⟩
    · cases hfirst.symm.trans hfirst'
      exact (keyedName_of_mem hnodup hfirst.eligible.1).mpr hkeyed
    · rw [hnil] at hknown
      cases hknown

/-- Under smart. -/
theorem smartPick_keyed_iff [Rounding] (hnodup : (cfg.providers.map ProviderConfig.name).Nodup)
    (hsome : ∃ pc, pc ∈ r.usable cfg) :
    (∀ p m, SmartPick cfg r p m → KeyedName cfg p) ↔
      ∀ pair, BestPair cfg r pair → Keyed pair.1 := by
  obtain ⟨known, hknown⟩ := hsome
  obtain ⟨offered, hopen, -⟩ := lists_iff.mp (lists_of_usable hknown)
  simp only [smartPick_iff_pair]
  constructor
  · intro h pair hbest
    exact (keyedName_of_mem hnodup (mem_openPairs.mp hbest.1).1).mp
      (h _ _ (.inl ⟨pair, hbest, rfl, rfl⟩))
  · intro h p m hpick
    rcases hpick with ⟨pair, hbest, rfl, -⟩ | ⟨hnil, -⟩
    · exact (keyedName_of_mem hnodup (mem_openPairs.mp hbest.1).1).mpr (h pair hbest)
    · rw [hnil] at hopen
      cases hopen

/-- Every pick of the strategy is a keyed name when the strategy ends on a keyed entry. -/
theorem picks_keyed_iff [Rounding] (hnodup : (cfg.providers.map ProviderConfig.name).Nodup)
    (hnonempty : ∀ pc ∈ cfg.providers, pc.name ≠ []) (hsome : ∃ pc, pc ∈ r.usable cfg) :
    (∀ p m, Picks cfg r p m → KeyedName cfg p) ↔ EndsKeyed cfg r := by
  unfold Picks EndsKeyed
  cases r.strategy with
  | costOptimized => exact costPick_keyed_iff hnodup hnonempty hsome
  | latencyOptimized => exact latencyPick_keyed_iff hnodup hnonempty
  | roundRobin => exact roundRobinPick_keyed_iff hnodup hsome
  | failover => exact failoverPick_keyed_iff hnodup hsome
  | smart => exact smartPick_keyed_iff hnodup hsome

/-- **Router and registry.**  In a state whose registry is the one of its
configuration, with distinct, non-empty provider names and some eligible entry
registered, and for a request that names no provider: however the health map is walked
and ties are sorted, the provider `route` answers with is registered and the handler
does not answer 503, exactly when the strategy ends on a registered entry. -/
theorem routed_provider_registered_iff [Rounding] (P : Platform) (s : Server) (req : ChatRequest)
    (hregistry : s.registry = ProviderRegistry.initializeFrom s.config.providers {})
    (hnodup : (s.config.providers.map ProviderConfig.name).Nodup)
    (hnonempty : ∀ pc ∈ s.config.providers, pc.name ≠ [])
    (hplain : splitAtColon (resolveModelAlias s.config req.model) = none)
    (hsome : ∃ pc ∈ s.config.providers, s.router.Eligible pc ∧ Keyed pc) :
    (∀ w : World,
      (s.registry.get (s.router.route w.walk w.sort s.config req).1.provider).isSome ∧
        ¬ (routeStep P w req s).reply.HasStatus 503) ↔
      EndsKeyed s.config s.router := by
  obtain ⟨known, hmem, heligible, -⟩ := hsome
  rw [← picks_keyed_iff hnodup hnonempty ⟨known, mem_usable_iff.mpr ⟨hmem, heligible⟩⟩,
    ← route_all_iff (Q := fun p _ => KeyedName s.config p) hplain]
  constructor
  · intro h walk sort
    have hget := (h { ordered := noDelay, walk := walk, sort := sort,
                      upstream := fun _ _ _ _ => ⟨.failed [], 0⟩ }).1
    rw [hregistry] at hget
    exact keyedName_iff.mp hget
  · intro h w
    have hname := h w.walk w.sort
    have hget : (s.registry.get
        (s.router.route w.walk w.sort s.config req).1.provider).isSome := by
      rw [hregistry]
      exact keyedName_iff.mpr hname
    obtain ⟨pc, -, hpc, hkeyed⟩ := hname
    obtain ⟨provider, hprovider⟩ := Option.isSome_iff_exists.mp hget
    refine ⟨hget, ?_⟩
    rw [routeStep_of_registered (hpc ▸ hkeyed.name_ne_nil) hprovider]
    exact callStep_not_503 P w req _ provider _

/-- Two providers under the `smart` strategy with the given keys, the one with the greater
weight first. -/
def weightedConfig (heavierKey lighterKey : Str) : GatewayConfig :=
  setDefaultPricing
    { providers :=
        [{ name := str "openai", apiKey := heavierKey, weight := 5,
           models := [str "gpt-4o-mini"] },
         { name := str "together", apiKey := lighterKey, weight := 3,
           models := [str "meta-llama/Llama-3.1-8B-Instruct"] }] }

/-- No provider answers. -/
def everyoneDown : World where
  ordered := noDelay
  upstream _ _ _ _ := ⟨.failed [], 0⟩

/-- With the key of the heavier one set there is no 503, whatever the other lacks. -/
theorem routed_provider_registered_iff_keyed :
    ¬ (routeStep (cLocale fnv1a) everyoneDown { model := str "auto" }
      (Server.init (weightedConfig (str "k") []))).reply.HasStatus 503 := by
  have hbest : ∀ pair ∈
      openPairs (weightedConfig (str "k") []) (init (weightedConfig (str "k") [])),
      BestPair (weightedConfig (str "k") []) (init (weightedConfig (str "k") [])) pair →
        Keyed pair.1 := by with_unfolding_all decide
  have hlaw := routed_provider_registered_iff (cLocale fnv1a)
    (Server.init (weightedConfig (str "k") [])) { model := str "auto" } rfl (by decide)
    (by decide) (by decide) (by decide)
  have hends : EndsKeyed (weightedConfig (str "k") []) (init (weightedConfig (str "k") [])) :=
    fun pair hpair => hbest pair hpair.1 hpair
  exact (hlaw.mpr hends everyoneDown).2

/-- With the other key alone nothing but 503 comes back. -/
theorem unkeyed_provider_routed :
    ¬ ∀ (P : Platform) (cfg : GatewayConfig) (w : World) (req : ChatRequest),
      (cfg.providers.map ProviderConfig.name).Nodup → (∀ pc ∈ cfg.providers, pc.name ≠ []) →
      splitAtColon (resolveModelAlias cfg req.model) = none →
      (∃ pc ∈ cfg.providers, (Router.init cfg).Eligible pc ∧ Keyed pc) →
        ¬ (routeStep P w req (Server.init cfg)).reply.HasStatus 503 := by
  intro h
  refine h (cLocale fnv1a) (weightedConfig [] (str "k")) everyoneDown { model := str "auto" }
    (by decide) (by decide) (by decide) (by decide) ?_
  exact routeStep_503 (by with_unfolding_all decide) (by with_unfolding_all decide)

end Router

end Gateway
