import LlmGateway.Lib.Scan
import LlmGateway.Router

/-!
# What the strategies pick

The declarative counterpart of the routing loops.  For each strategy the pairs
it may answer with are described by its own criterion over the configuration
and the health map: the first cheapest priced pair, the first fastest provider,
the entry at the position of the counter, the first usable entry, a pair of
maximal score.  `picks_iff` says that these are exactly the pairs `route`
returns; the request plays no part in them.
-/

namespace Gateway

/-- A sort that puts a given greatest element first. -/
def Descending.favouring {α : Type} [DecidableEq α] {key : α → ℚ} (a : α) : Descending α key where
  sort l :=
    if a ∈ l ∧ ∀ b ∈ l, key b ≤ key a then a :: (stable α key).sort (l.erase a)
    else (stable α key).sort l
  perm l := by
    split
    · next h => exact (((stable α key).perm _).cons a).trans (List.perm_cons_erase h.1).symm
    · exact (stable α key).perm l
  sorted l := by
    split
    · next h =>
        refine List.pairwise_cons.mpr ⟨fun b hb => ?_, (stable α key).sorted _⟩
        exact h.2 b (List.mem_of_mem_erase (((stable α key).perm _).mem_iff.mp hb))
    · exact (stable α key).sorted l

namespace Router

variable (cfg : GatewayConfig) (r : Router)

/-- An enabled entry of that name that is not marked unavailable lists the
model. -/
def Lists (provider model : Str) : Prop :=
  ∃ pc ∈ cfg.providers, pc.name = provider ∧ pc.enabled = true ∧
    r.isAvailable pc.name = true ∧ model ∈ pc.models

/-- The priced pairs of the usable entries, in the order of the configuration. -/
def pricedPairs [Rounding] : List Best :=
  cfg.providers.flatMap fun pc =>
    if pc.enabled && r.isAvailable pc.name then
      pc.models.filterMap fun model =>
        (cfg.pricing.lookup (pricingKey pc.name model)).map fun price => ⟨pc.name, model, price.rate⟩
    else []

/-- The first models of the usable entries with the latencies compared. -/
def timedPairs : List Best :=
  (r.usable cfg).map fun pc => ⟨pc.name, pc.models.headD [], r.latencyOf pc.name⟩

/-- The pair is the first cheapest priced one, below the initial `1e9`, and its
provider has a name. -/
def CheapestNamed [Rounding] (provider model : Str) : Prop :=
  provider ≠ [] ∧ ∃ rate,
    Scan.FirstBelow Best.value 1000000000 (pricedPairs cfg r) ⟨provider, model, rate⟩

/-- The first cheapest pair, or else the first enabled entry with models. -/
def CostPick [Rounding] (provider model : Str) : Prop :=
  CheapestNamed cfg r provider model ∨
    (∀ p m, ¬ CheapestNamed cfg r p m) ∧
      ((∃ pc, firstEntry cfg = some pc ∧ provider = pc.name ∧ model = pc.models.headD []) ∨
        firstEntry cfg = none ∧ provider = [] ∧ model = [])

/-- The first of the fastest providers, below the initial `1e9`. -/
def LatencyPick (provider model : Str) : Prop :=
  (∃ ms, Scan.FirstBelow Best.value 1000000000 (timedPairs cfg r) ⟨provider, model, ms⟩) ∨
    (∀ b ∈ timedPairs cfg r, 1000000000 ≤ b.value) ∧ provider = [] ∧ model = []

/-- The usable entry at the position of the counter. -/
def RoundRobinPick (provider model : Str) : Prop :=
  (∃ pc, (r.usable cfg)[roundRobinIndex r.roundRobinIdx (r.usable cfg).length]? = some pc ∧
      provider = pc.name ∧ model = pc.models.headD []) ∨
    r.usable cfg = [] ∧ provider = [] ∧ model = []

/-- The first usable entry, with the first model of the first entry of its name
that has models. -/
def FailoverPick (provider model : Str) : Prop :=
  (∃ pc chain named, r.usable cfg = pc :: chain ∧
      cfg.providers.find? (fun e => e.name = pc.name ∧ !e.models.isEmpty) = some named ∧
      provider = pc.name ∧ model = named.models.headD []) ∨
    r.usable cfg = [] ∧ provider = [] ∧ model = []

/-- A pair of maximal score. -/
def SmartPick [Rounding] (provider model : Str) : Prop :=
  (∃ score, ⟨provider, model, score⟩ ∈ r.candidates cfg ∧
      ∀ c ∈ r.candidates cfg, c.score ≤ score) ∨
    r.candidates cfg = [] ∧ provider = [] ∧ model = []

/-- The pairs the configured strategy may answer with. -/
def Picks [Rounding] (provider model : Str) : Prop :=
  match r.strategy with
  | .costOptimized => CostPick cfg r provider model
  | .latencyOptimized => LatencyPick cfg r provider model
  | .roundRobin => RoundRobinPick cfg r provider model
  | .failover => FailoverPick cfg r provider model
  | .smart => SmartPick cfg r provider model

variable {cfg r}

theorem mem_usable {pc : ProviderConfig} :
    pc ∈ r.usable cfg ↔
      pc ∈ cfg.providers ∧ pc.enabled = true ∧ pc.models ≠ [] ∧ r.isAvailable pc.name = true := by
  simp [usable, and_assoc]

/-- The first model of an entry that has one. -/
theorem headD_mem {pc : ProviderConfig} (h : pc.models ≠ []) : pc.models.headD [] ∈ pc.models := by
  cases hm : pc.models with
  | nil => exact absurd hm h
  | cons m ms => exact List.mem_cons_self

theorem mem_of_firstEntry {pc : ProviderConfig} (h : firstEntry cfg = some pc) :
    pc ∈ cfg.providers ∧ pc.enabled = true ∧ pc.models ≠ [] := by
  have hfound := List.find?_some h
  exact ⟨List.mem_of_find?_eq_some h, by simpa using hfound⟩

/-- An enabled entry with models is what the second loop of the cost strategy looks
for. -/
theorem exists_firstEntry {pc : ProviderConfig} (hmem : pc ∈ cfg.providers)
    (henabled : pc.enabled = true) (hmodels : pc.models ≠ []) :
    ∃ first, firstEntry cfg = some first :=
  Option.isSome_iff_exists.mp (List.find?_isSome.mpr ⟨pc, hmem, by simp [henabled, hmodels]⟩)

theorem firstEntry_of_usable {pc : ProviderConfig} (h : pc ∈ r.usable cfg) :
    ∃ first, firstEntry cfg = some first := by
  obtain ⟨hmem, henabled, hmodels, -⟩ := mem_usable.mp h
  exact exists_firstEntry hmem henabled hmodels

theorem lists_of_usable {pc : ProviderConfig} (h : pc ∈ r.usable cfg) :
    Lists cfg r pc.name (pc.models.headD []) := by
  obtain ⟨hmem, henabled, hmodels, havailable⟩ := mem_usable.mp h
  exact ⟨pc, hmem, rfl, henabled, havailable, headD_mem hmodels⟩

theorem usable_of_lists {provider model : Str} (h : Lists cfg r provider model) :
    ∃ pc ∈ r.usable cfg, pc.name = provider := by
  obtain ⟨pc, hmem, hname, henabled, havailable, hmodel⟩ := h
  exact ⟨pc, mem_usable.mpr ⟨hmem, henabled, List.ne_nil_of_mem hmodel, havailable⟩, hname⟩

theorem mem_pricedPairs [Rounding] {b : Best} :
    b ∈ pricedPairs cfg r ↔ ∃ pc ∈ cfg.providers, pc.enabled = true ∧
      r.isAvailable pc.name = true ∧ b.provider = pc.name ∧ b.model ∈ pc.models ∧
      ∃ price, cfg.pricing.lookup (pricingKey pc.name b.model) = some price ∧
        b.value = price.rate := by
  simp only [pricedPairs, List.mem_flatMap]
  constructor
  · intro hpick
    obtain ⟨pc, hpc, hb⟩ := hpick
    split at hb
    · next huse =>
        obtain ⟨henabled, havailable⟩ := Bool.and_eq_true_iff.mp huse
        obtain ⟨model, hmodel, hsome⟩ := List.mem_filterMap.mp hb
        obtain ⟨price, hprice, rfl⟩ := Option.map_eq_some_iff.mp hsome
        exact ⟨pc, hpc, henabled, havailable, rfl, hmodel, price, hprice, rfl⟩
    · simp at hb
  · intro hpick
    obtain ⟨pc, hpc, henabled, havailable, hname, hmodel, price, hprice, hvalue⟩ := hpick
    refine ⟨pc, hpc, ?_⟩
    rw [if_pos (by simp [henabled, havailable])]
    refine List.mem_filterMap.mpr ⟨b.model, hmodel, ?_⟩
    rw [hprice, Option.map_some, ← hname, ← hvalue]

/-- A priced pair comes from an enabled entry with models. -/
theorem firstEntry_of_pricedPairs [Rounding] {b : Best} (h : b ∈ pricedPairs cfg r) :
    ∃ first, firstEntry cfg = some first := by
  obtain ⟨pc, hmem, henabled, -, -, hmodel, -⟩ := mem_pricedPairs.mp h
  exact exists_firstEntry hmem henabled (List.ne_nil_of_mem hmodel)

theorem mem_candidates [Rounding] {c : Candidate} :
    c ∈ r.candidates cfg ↔ ∃ pc ∈ cfg.providers, pc.enabled = true ∧
      r.isAvailable pc.name = true ∧ ∃ model ∈ pc.models,
        c = ⟨pc.name, model, r.candidateScore cfg pc.name model⟩ := by
  simp only [candidates, List.mem_flatMap]
  constructor
  · intro hpick
    obtain ⟨pc, hpc, hc⟩ := hpick
    split_ifs at hc with henabled havailable
    · simp at hc
    · simp at hc
    · obtain ⟨model, hmodel, rfl⟩ := List.mem_map.mp hc
      exact ⟨pc, hpc, by simpa using henabled, by simpa using havailable, model, hmodel, rfl⟩
  · intro hpick
    obtain ⟨pc, hpc, henabled, havailable, model, hmodel, rfl⟩ := hpick
    refine ⟨pc, hpc, ?_⟩
    rw [if_neg (by simp [henabled]), if_neg (by simp [havailable])]
    exact List.mem_map_of_mem hmodel

/-- A cheapest pair is listed by a usable entry. -/
theorem CheapestNamed.lists [Rounding] {provider model : Str}
    (h : CheapestNamed cfg r provider model) :
    Lists cfg r provider model := by
  obtain ⟨-, rate, hfirst⟩ := h
  obtain ⟨pc, hpc, henabled, havailable, hname, hmodel, -⟩ := mem_pricedPairs.mp hfirst.mem
  exact ⟨pc, hpc, hname.symm, henabled, havailable, hmodel⟩

/-- Without a cheapest pair no sum of two rates is below the start value. -/
theorem le_of_no_cheapest [Rounding] (hnames : ∀ pc ∈ cfg.providers, pc.name ≠ [])
    (hnone : ∀ p m, ¬ CheapestNamed cfg r p m) : ∀ b ∈ pricedPairs cfg r, 1000000000 ≤ b.value := by
  intro b hb
  by_contra hlt
  have hfound := Scan.firstBelow_scan Best.value {} ⟨b, hb, not_le.mp hlt⟩
  obtain ⟨pc, hpc, -, -, hname, -⟩ := mem_pricedPairs.mp hfound.mem
  exact hnone _ _ ⟨hname ▸ hnames pc hpc, _, hfound⟩

theorem no_cheapest_of_le [Rounding] (hhigh : ∀ b ∈ pricedPairs cfg r, 1000000000 ≤ b.value)
    (p m : Str) : ¬ CheapestNamed cfg r p m := by
  intro hcheapest
  obtain ⟨-, rate, hfound⟩ := hcheapest
  exact absurd hfound.1 (not_lt.mpr (hhigh _ hfound.mem))

theorem lists_of_timed {b : Best} (h : b ∈ timedPairs cfg r) : Lists cfg r b.provider b.model := by
  obtain ⟨pc, hpc, rfl⟩ := List.mem_map.mp h
  exact lists_of_usable hpc

theorem lists_of_candidate [Rounding] {c : Candidate} (h : c ∈ r.candidates cfg) :
    Lists cfg r c.provider c.model := by
  obtain ⟨pc, hpc, henabled, havailable, model, hmodel, rfl⟩ := mem_candidates.mp h
  exact ⟨pc, hpc, rfl, henabled, havailable, hmodel⟩

/-- The provider of a pick is a usable entry, or the cost strategy falls back on
the first enabled entry, or there is none. -/
theorem Picks.provider_cases [Rounding] {provider model : Str} (h : Picks cfg r provider model) :
    (∃ pc ∈ r.usable cfg, pc.name = provider) ∨
      (r.strategy = .costOptimized ∧ (∀ p m, ¬ CheapestNamed cfg r p m) ∧
        ∃ pc, firstEntry cfg = some pc ∧ pc.name = provider) ∨ provider = [] := by
  unfold Picks at h
  cases hstrategy : r.strategy with
  | costOptimized =>
      rw [hstrategy] at h
      rcases h with hcheapest | ⟨hnone, ⟨pc, hpc, rfl, -⟩ | ⟨-, rfl, -⟩⟩
      · exact .inl (usable_of_lists hcheapest.lists)
      · exact .inr (.inl ⟨rfl, hnone, pc, hpc, rfl⟩)
      · exact .inr (.inr rfl)
  | latencyOptimized =>
      rw [hstrategy] at h
      rcases h with ⟨ms, hfound⟩ | ⟨-, rfl, -⟩
      · exact .inl (usable_of_lists (lists_of_timed hfound.mem))
      · exact .inr (.inr rfl)
  | roundRobin =>
      rw [hstrategy] at h
      rcases h with ⟨pc, hpc, rfl, -⟩ | ⟨-, rfl, -⟩
      · exact .inl ⟨pc, List.mem_of_getElem? hpc, rfl⟩
      · exact .inr (.inr rfl)
  | failover =>
      rw [hstrategy] at h
      rcases h with ⟨pc, chain, named, husable, -, rfl, -⟩ | ⟨-, rfl, -⟩
      · exact .inl ⟨pc, husable ▸ List.mem_cons_self, rfl⟩
      · exact .inr (.inr rfl)
  | smart =>
      rw [hstrategy] at h
      rcases h with ⟨score, hc, -⟩ | ⟨-, rfl, -⟩
      · exact .inl (usable_of_lists (lists_of_candidate hc))
      · exact .inr (.inr rfl)

/-- The nested loops of `route_cost_optimized` scan the priced pairs. -/
theorem cheapest_eq_scan [Rounding] :
    r.cheapest cfg = Scan.scan Best.value {} (pricedPairs cfg r) := by
  unfold cheapest Scan.scan pricedPairs
  rw [List.foldl_flatMap]
  congr 1
  funext best pc
  cases henabled : pc.enabled
  · simp
  · cases havailable : r.isAvailable pc.name
    · simp
    · simp only [Bool.not_true, Bool.false_eq_true, if_false, Bool.and_true, if_true,
        List.foldl_filterMap, cheapestModel]
      congr 1
      funext best model
      cases cfg.pricing.lookup (pricingKey pc.name model) <;> rfl

/-- The loop of `route_latency_optimized` scans the timed pairs. -/
theorem fastest_eq_scan : r.fastest cfg = Scan.scan Best.value {} (timedPairs cfg r) := by
  unfold fastest Scan.scan timedPairs usable
  rw [List.foldl_map, List.foldl_filter]
  congr 1
  funext best pc
  cases henabled : pc.enabled
  · simp
  · cases havailable : r.isAvailable pc.name
    · simp
    · cases hmodels : pc.models.isEmpty <;> simp

theorem cheapestNamed_iff [Rounding] {provider model : Str} :
    CheapestNamed cfg r provider model ↔
      provider ≠ [] ∧ (r.cheapest cfg).provider = provider ∧ (r.cheapest cfg).model = model := by
  rw [cheapest_eq_scan]
  constructor
  · intro hpick
    obtain ⟨hne, rate, h⟩ := hpick
    rw [Scan.scan_eq Best.value {} h]
    exact ⟨hne, rfl, rfl⟩
  · intro hpick
    obtain ⟨hne, rfl, rfl⟩ := hpick
    refine ⟨hne, (Scan.scan Best.value {} (pricedPairs cfg r)).value, ?_⟩
    rcases Scan.scan_cases Best.value {} (pricedPairs cfg r) with ⟨hkept, -⟩ | hfound
    · exact absurd (by rw [hkept]) hne
    · exact hfound

/-- `route_cost_optimized` answers with the cost pick. -/
theorem costPick_iff [Rounding] {provider model : Str} :
    CostPick cfg r provider model ↔
      (routeCostOptimized cfg r).provider = provider ∧
        (routeCostOptimized cfg r).model = model := by
  simp only [CostPick, routeCostOptimized, orFirstEntry, cheapestNamed_iff]
  by_cases hnamed : (r.cheapest cfg).provider = []
  · -- the second loop runs
    have hnone : ∀ p m : Str, ¬ (p ≠ [] ∧ (r.cheapest cfg).provider = p ∧
        (r.cheapest cfg).model = m) := fun p m h => h.1 (h.2.1.symm.trans hnamed)
    rw [if_pos (by simp [hnamed])]
    cases hfirst : firstEntry cfg with
    | none =>
        have hmodel : (r.cheapest cfg).model = [] := by
          rw [cheapest_eq_scan]
          rcases Scan.scan_cases Best.value {} (pricedPairs cfg r) with ⟨hkept, -⟩ | hfound
          · rw [hkept]
          · obtain ⟨first, hsome⟩ := firstEntry_of_pricedPairs hfound.mem
            cases hfirst.symm.trans hsome
        constructor
        · intro hpick
          rcases hpick with h | ⟨-, ⟨pc, hpc, -⟩ | ⟨-, rfl, rfl⟩⟩
          · exact absurd h (hnone _ _)
          · cases hpc
          · exact ⟨hnamed, hmodel⟩
        · intro heq
          obtain ⟨rfl, rfl⟩ := heq
          exact .inr ⟨hnone, .inr ⟨rfl, hnamed, hmodel⟩⟩
    | some pc =>
        constructor
        · intro hpick
          rcases hpick with h | ⟨-, ⟨pc', hpc', rfl, rfl⟩ | ⟨hpc', -⟩⟩
          · exact absurd h (hnone _ _)
          · cases hpc'
            exact ⟨rfl, rfl⟩
          · cases hpc'
        · intro heq
          obtain ⟨rfl, rfl⟩ := heq
          exact .inr ⟨hnone, .inl ⟨pc, rfl, rfl, rfl⟩⟩
  · rw [if_neg (by simp [hnamed])]
    constructor
    · intro hpick
      rcases hpick with ⟨-, h⟩ | ⟨hnone, -⟩
      · exact h
      · exact absurd ⟨hnamed, rfl, rfl⟩ (hnone _ _)
    · intro heq
      obtain ⟨rfl, rfl⟩ := heq
      exact .inl ⟨hnamed, rfl, rfl⟩

/-- `route_latency_optimized` answers with the latency pick. -/
theorem latencyPick_iff {provider model : Str} :
    LatencyPick cfg r provider model ↔
      (routeLatencyOptimized cfg r).provider = provider ∧
        (routeLatencyOptimized cfg r).model = model := by
  simp only [LatencyPick, routeLatencyOptimized, fastest_eq_scan]
  rcases Scan.scan_cases Best.value {} (timedPairs cfg r) with ⟨hkept, hall⟩ | hfound
  · rw [hkept]
    constructor
    · intro hpick
      rcases hpick with ⟨ms, h⟩ | ⟨-, rfl, rfl⟩
      · exact absurd h.1 (not_lt.mpr (hall _ h.mem))
      · exact ⟨rfl, rfl⟩
    · intro heq
      obtain ⟨rfl, rfl⟩ := heq
      exact .inr ⟨hall, rfl, rfl⟩
  · constructor
    · intro hpick
      rcases hpick with ⟨ms, h⟩ | ⟨hall, -⟩
      · rw [hfound.unique h]
        exact ⟨rfl, rfl⟩
      · exact absurd hfound.1 (not_lt.mpr (hall _ hfound.mem))
    · intro heq
      obtain ⟨rfl, rfl⟩ := heq
      exact .inl ⟨_, hfound⟩

/-- `route_round_robin` answers with the entry at the counter's position. -/
theorem roundRobinPick_iff {provider model : Str} :
    RoundRobinPick cfg r provider model ↔
      (routeRoundRobin cfg r).1.provider = provider ∧
        (routeRoundRobin cfg r).1.model = model := by
  unfold RoundRobinPick routeRoundRobin
  by_cases hlen : 0 < (r.usable cfg).length
  · have hne : r.usable cfg ≠ [] := List.ne_nil_of_length_pos hlen
    rw [dif_pos hlen, List.getElem?_eq_getElem (roundRobinIndex_lt r.roundRobinIdx hlen)]
    constructor
    · intro hpick
      rcases hpick with ⟨pc, hpc, rfl, rfl⟩ | ⟨hnil, -⟩
      · cases hpc
        exact ⟨rfl, rfl⟩
      · exact absurd hnil hne
    · intro heq
      obtain ⟨rfl, rfl⟩ := heq
      exact .inl ⟨_, rfl, rfl, rfl⟩
  · have hnil : r.usable cfg = [] := List.length_eq_zero_iff.mp (by omega)
    rw [dif_neg hlen, hnil]
    constructor
    · intro hpick
      rcases hpick with ⟨pc, hpc, -⟩ | ⟨-, rfl, rfl⟩
      · cases hpc
      · exact ⟨rfl, rfl⟩
    · intro heq
      obtain ⟨rfl, rfl⟩ := heq
      exact .inr ⟨rfl, rfl, rfl⟩

/-- `route_failover` answers with the failover pick. -/
theorem failoverPick_iff {provider model : Str} :
    FailoverPick cfg r provider model ↔
      (routeFailover cfg r).provider = provider ∧ (routeFailover cfg r).model = model := by
  unfold FailoverPick routeFailover
  cases husable : r.usable cfg with
  | nil =>
      constructor
      · intro hpick
        rcases hpick with ⟨pc, chain, named, hcons, -⟩ | ⟨-, rfl, rfl⟩
        · cases hcons
        · exact ⟨rfl, rfl⟩
      · intro heq
        obtain ⟨rfl, rfl⟩ := heq
        exact .inr ⟨rfl, rfl, rfl⟩
  | cons pc chain =>
      -- the primary itself has models, so the second loop finds an entry
      have hpc := mem_usable.mp (husable ▸ List.mem_cons_self : pc ∈ r.usable cfg)
      have hsome : (cfg.providers.find? fun e => e.name = pc.name ∧ !e.models.isEmpty).isSome :=
        List.find?_isSome.mpr ⟨pc, hpc.1, by simp [hpc.2.2.1]⟩
      obtain ⟨named, hnamed⟩ := Option.isSome_iff_exists.mp hsome
      simp only [List.map_cons, hnamed]
      constructor
      · intro hpick
        rcases hpick with ⟨pc', chain', named', heq, hfind, rfl, rfl⟩ | ⟨hnil, -⟩
        · obtain ⟨rfl, -⟩ := List.cons.inj heq
          rw [hnamed] at hfind
          cases hfind
          exact ⟨rfl, rfl⟩
        · cases hnil
      · intro heq
        obtain ⟨rfl, rfl⟩ := heq
        exact .inl ⟨pc, chain, named, rfl, hnamed, rfl, rfl⟩

/-- `route_smart` answers with a pair of maximal score, and may answer with any
of them. -/
theorem smartPick_iff [Rounding] {provider model : Str} :
    SmartPick cfg r provider model ↔
      ∃ sort, (routeSmart sort cfg r).provider = provider ∧
        (routeSmart sort cfg r).model = model := by
  unfold SmartPick
  constructor
  · intro hpick
    rcases hpick with ⟨score, hmem, hmax⟩ | ⟨hnil, rfl, rfl⟩
    · refine ⟨.favouring ⟨provider, model, score⟩, ?_⟩
      unfold routeSmart Descending.favouring
      simp only [if_pos (And.intro hmem hmax), and_self]
    · refine ⟨.stable _ _, ?_⟩
      have hsort := (Descending.stable Candidate Candidate.score).perm (r.candidates cfg)
      rw [hnil] at hsort
      unfold routeSmart
      rw [hnil, hsort.eq_nil]
      exact ⟨rfl, rfl⟩
  · intro hpick
    obtain ⟨sort, rfl, rfl⟩ := hpick
    have hperm := sort.perm (r.candidates cfg)
    have hsorted := sort.sorted (r.candidates cfg)
    unfold routeSmart
    cases hs : sort.sort (r.candidates cfg) with
    | nil =>
        rw [hs] at hperm
        exact .inr ⟨hperm.nil_eq.symm, rfl, rfl⟩
    | cons best others =>
        rw [hs] at hperm hsorted
        refine .inl ⟨best.score, hperm.mem_iff.mp List.mem_cons_self, fun c hc => ?_⟩
        rcases List.mem_cons.mp (hperm.mem_iff.mpr hc) with rfl | hc
        · exact le_rfl
        · exact (List.pairwise_cons.mp hsorted).1 c hc

/-- The strategy that a route without a provider runs. -/
theorem route_of_plain [Rounding] {req : ChatRequest}
    (hplain : splitAtColon (resolveModelAlias cfg req.model) = none)
    (walk : Traversal (Σ _ : Str, ProviderHealth)) (sort : Descending Candidate Candidate.score) :
    (r.route walk sort cfg req).1 =
      match r.strategy with
      | .costOptimized => routeCostOptimized cfg r
      | .latencyOptimized => routeLatencyOptimized cfg r
      | .roundRobin => (routeRoundRobin cfg r).1
      | .failover => routeFailover cfg r
      | .smart => routeSmart sort cfg r := by
  unfold route
  rw [hplain]
  cases r.strategy <;> rfl

/-- A request that names no provider is routed by the strategy alone: `route`
answers with the strategy's picks and only with them. -/
theorem picks_iff [Rounding] {req : ChatRequest}
    (hplain : splitAtColon (resolveModelAlias cfg req.model) = none) {provider model : Str} :
    Picks cfg r provider model ↔
      ∃ walk sort, (r.route walk sort cfg req).1.provider = provider ∧
        (r.route walk sort cfg req).1.model = model := by
  unfold Picks route
  simp only [hplain]
  cases r.strategy with
  | costOptimized => simp [costPick_iff]
  | latencyOptimized => simp [latencyPick_iff]
  | roundRobin => simp [roundRobinPick_iff]
  | failover => simp [failoverPick_iff]
  | smart => simp [smartPick_iff]

/-- What holds of every answer of `route` holds of every pick. -/
theorem route_all_iff [Rounding] {req : ChatRequest}
    (hplain : splitAtColon (resolveModelAlias cfg req.model) = none) {Q : Str → Str → Prop} :
    (∀ walk sort, Q (r.route walk sort cfg req).1.provider (r.route walk sort cfg req).1.model) ↔
      ∀ provider model, Picks cfg r provider model → Q provider model := by
  constructor
  · intro h provider model hpick
    obtain ⟨walk, sort, rfl, rfl⟩ := (picks_iff hplain).mp hpick
    exact h walk sort
  · intro h walk sort
    exact h _ _ ((picks_iff hplain).mpr ⟨walk, sort, rfl, rfl⟩)

/-- A model that is no alias and has no colon names no provider. -/
theorem plain_of_no_alias {model : Str} (halias : cfg.modelAliases.lookup model = none)
    (hcolon : byte ':' ∉ model) : splitAtColon (resolveModelAlias cfg model) = none := by
  unfold resolveModelAlias splitAtColon
  rw [halias, Option.getD_none, if_neg hcolon]

/-- Routing changes nothing but the counter. -/
theorem route_router [Rounding] (walk : Traversal (Σ _ : Str, ProviderHealth))
    (sort : Descending Candidate Candidate.score) (req : ChatRequest) :
    (r.route walk sort cfg req).2.health = r.health ∧
      (r.route walk sort cfg req).2.strategy = r.strategy := by
  unfold route routeRoundRobin
  split
  · exact ⟨rfl, rfl⟩
  · split
    · exact ⟨rfl, rfl⟩
    · exact ⟨rfl, rfl⟩
    · split <;> exact ⟨rfl, rfl⟩
    · exact ⟨rfl, rfl⟩
    · exact ⟨rfl, rfl⟩

end Router

end Gateway
