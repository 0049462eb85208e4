import LlmGateway.Routing
import Mathlib.Data.List.MinMax

/-!
# What the strategies decide by

The criteria of the five strategies over the entries of the configuration, their
models, prices and weights, the health records and the counter, and the lemmas that
lead from the lists that the loops go through to these.  Where rates and points are
computed, every operation rounds as it does in the code.
-/

namespace Gateway

namespace Router

/-! ## Entries and pairs -/

/-- An entry that requests may go to: it is enabled, and a health record of its name, if
there is one, says available. -/
def Open (r : Router) (pc : ProviderConfig) : Prop :=
  pc.enabled = true ∧ ∀ record ∈ r.health.lookup pc.name, record.available = true

instance (r : Router) : DecidablePred r.Open := fun _ => inferInstanceAs (Decidable (_ ∧ _))

/-- An open entry with models. -/
def Eligible (r : Router) (pc : ProviderConfig) : Prop := r.Open pc ∧ pc.models ≠ []

instance (r : Router) : DecidablePred r.Eligible := fun _ => inferInstanceAs (Decidable (_ ∧ _))

/-- The entries with one of their models each, in the order of the configuration. -/
def listedPairs (cfg : GatewayConfig) : List (ProviderConfig × Str) :=
  cfg.providers.flatMap fun pc => pc.models.map fun model => (pc, model)

/-- Those of open entries. -/
def openPairs (cfg : GatewayConfig) (r : Router) : List (ProviderConfig × Str) :=
  (listedPairs cfg).filter fun pair => r.Open pair.1

/-- The price of a model at an entry, if there is one. -/
def priceOf (cfg : GatewayConfig) (pair : ProviderConfig × Str) : Option ModelPricing :=
  cfg.pricing.lookup (pricingKey pair.1.name pair.2)

/-! ## Criteria -/

/-- The sum of the rates of a model at an open entry. -/
def openRate [Rounding] (cfg : GatewayConfig) (r : Router) (pair : ProviderConfig × Str) :
    Option Double :=
  if r.Open pair.1 then
    (priceOf cfg pair).map fun price => fl (price.inputCostPer1k + price.outputCostPer1k)
  else none

/-- The first of the open pairs with a price whose sum of rates is least, and below
`1e9`. -/
def CheapestPair [Rounding] (cfg : GatewayConfig) (r : Router) (pair : ProviderConfig × Str) :
    Prop :=
  Scan.FirstLeast (openRate cfg r) 1000000000 (listedPairs cfg) pair

/-- The first enabled entry with models, whatever its health record says. -/
def FirstEnabled (cfg : GatewayConfig) (pc : ProviderConfig) : Prop :=
  cfg.providers.find? (fun pc => pc.enabled = true ∧ pc.models ≠ []) = some pc

/-- The latency of an eligible entry: that of its record, or 500 ms. -/
def openLatency (r : Router) (pc : ProviderConfig) : Option Double :=
  if r.Eligible pc then some ((r.health.lookup pc.name).elim 500 ProviderHealth.avgLatencyMs)
  else none

/-- The first of the eligible entries whose latency is least, and below `1e9`. -/
def FastestEntry (cfg : GatewayConfig) (r : Router) (pc : ProviderConfig) : Prop :=
  Scan.FirstLeast (openLatency r) 1000000000 cfg.providers pc

/-- The eligible entry with as many others in front of it as the counter, converted to
`size_t`, leaves modulo their number. -/
def InTurn (cfg : GatewayConfig) (r : Router) (pc : ProviderConfig) : Prop :=
  ∃ before after, cfg.providers = before ++ pc :: after ∧ r.Eligible pc ∧
    before.countP (fun e => r.Eligible e) =
      (r.roundRobinIdx.signExtend 64).toNat % cfg.providers.countP fun e => r.Eligible e

/-- The first eligible entry. -/
def FirstEligible (cfg : GatewayConfig) (r : Router) (pc : ProviderConfig) : Prop :=
  cfg.providers.find? (fun e => r.Eligible e) = some pc

/-- The first entry of a name that has models. -/
def FirstNamed (cfg : GatewayConfig) (name : Str) (pc : ProviderConfig) : Prop :=
  cfg.providers.find? (fun e => e.name = name ∧ e.models ≠ []) = some pc

/-- The points for a weight, a health record and a price: 100, less 50 for the error rate
and up to 30 for the latency, and ten for each unit of the weight, a product of type
`int`, less 100 for the sum of the rates. -/
def points [Rounding] (weight : ℤ) (record : Option ProviderHealth) (price : Option ModelPricing) :
    Double :=
  let health := record.elim 100 fun h =>
    fl (fl (100 - fl (h.errorRate * 50)) - min (fl (h.avgLatencyMs / 100)) 30)
  let weighted := fl (health + wrap32 (weight * 10))
  price.elim weighted fun p =>
    fl (weighted - fl (fl (p.inputCostPer1k + p.outputCostPer1k) * 100))

/-- The weight of the first entry of a name. -/
def weightOf (cfg : GatewayConfig) (name : Str) : ℤ :=
  ((cfg.providers.find? fun pc => pc.name = name).map ProviderConfig.weight).getD 0

/-- The points of a model at an entry. -/
def pointsOf [Rounding] (cfg : GatewayConfig) (r : Router) (pair : ProviderConfig × Str) :
    Double :=
  points (weightOf cfg pair.1.name) (r.health.lookup pair.1.name) (priceOf cfg pair)

/-- An open pair of most points. -/
def BestPair [Rounding] (cfg : GatewayConfig) (r : Router) (pair : ProviderConfig × Str) : Prop :=
  pair ∈ openPairs cfg r ∧ ∀ other ∈ openPairs cfg r, pointsOf cfg r other ≤ pointsOf cfg r pair

instance [Rounding] (cfg : GatewayConfig) (r : Router) : DecidablePred (BestPair cfg r) :=
  fun _ => inferInstanceAs (Decidable (_ ∧ _))

/-! ## What the loops go through -/

variable {cfg : GatewayConfig} {r : Router}

theorem open_iff {pc : ProviderConfig} :
    r.Open pc ↔ pc.enabled = true ∧ r.isAvailable pc.name = true := by
  unfold Open isAvailable
  cases r.health.lookup pc.name <;> simp

/-- The first model of an entry that has one. -/
theorem head?_eq_some_iff {models : List Str} (hne : models ≠ []) {model : Str} :
    models.head? = some model ↔ models.headD [] = model := by
  cases models with
  | nil => exact absurd rfl hne
  | cons m ms => simp

theorem mem_listedPairs {pair : ProviderConfig × Str} :
    pair ∈ listedPairs cfg ↔ pair.1 ∈ cfg.providers ∧ pair.2 ∈ pair.1.models := by
  obtain ⟨pc, model⟩ := pair
  simp only [listedPairs, List.mem_flatMap, List.mem_map, Prod.mk.injEq]
  constructor
  · rintro ⟨pc', hpc, model', hmodel, rfl, rfl⟩
    exact ⟨hpc, hmodel⟩
  · rintro ⟨hpc, hmodel⟩
    exact ⟨pc, hpc, model, hmodel, rfl, rfl⟩

theorem mem_openPairs {pair : ProviderConfig × Str} :
    pair ∈ openPairs cfg r ↔ pair.1 ∈ cfg.providers ∧ pair.2 ∈ pair.1.models ∧ r.Open pair.1 := by
  rw [openPairs, List.mem_filter, mem_listedPairs, decide_eq_true_eq, and_assoc]

/-- The open pairs depend on who is available. -/
theorem openPairs_congr {r' : Router} (h : ∀ name, r'.isAvailable name = r.isAvailable name) :
    openPairs cfg r' = openPairs cfg r :=
  List.filter_congr fun pair _ => by simp only [open_iff, h]

theorem usable_eq : r.usable cfg = cfg.providers.filter fun pc => r.Eligible pc := by
  refine List.filter_congr fun pc _ => Bool.eq_iff_iff.mpr ?_
  simp only [Bool.and_eq_true, Bool.not_eq_true', List.isEmpty_eq_false_iff, decide_eq_true_eq,
    Eligible, open_iff]
  tauto

theorem mem_usable_iff {pc : ProviderConfig} :
    pc ∈ r.usable cfg ↔ pc ∈ cfg.providers ∧ r.Eligible pc := by
  rw [usable_eq, List.mem_filter, decide_eq_true_eq]

/-- A listed model is that of an open pair. -/
theorem lists_iff {provider model : Str} :
    Lists cfg r provider model ↔ ∃ pair ∈ openPairs cfg r, pair.1.name = provider ∧
      pair.2 = model := by
  simp only [mem_openPairs, open_iff, Lists]
  constructor
  · rintro ⟨pc, hpc, hname, henabled, havailable, hmodel⟩
    exact ⟨(pc, model), ⟨hpc, hmodel, henabled, havailable⟩, hname, rfl⟩
  · rintro ⟨⟨pc, model⟩, ⟨hpc, hmodel, henabled, havailable⟩, hname, rfl⟩
    exact ⟨pc, hpc, hname, henabled, havailable, hmodel⟩

/-- The loop of the cost strategy goes through the open pairs with a price. -/
theorem pricedPairs_eq [Rounding] : pricedPairs cfg r = (listedPairs cfg).filterMap fun pair =>
    (openRate cfg r pair).map fun rate => ⟨pair.1.name, pair.2, rate⟩ := by
  unfold pricedPairs listedPairs
  rw [List.filterMap_flatMap]
  apply List.flatMap_congr
  intro pc _
  rw [List.filterMap_map]
  by_cases hopen : r.Open pc
  · obtain ⟨henabled, havailable⟩ := open_iff.mp hopen
    rw [if_pos (by simp [henabled, havailable])]
    apply List.filterMap_congr
    intro model _
    simp [openRate, hopen, priceOf, ModelPricing.rate, Function.comp_def]
  · have hclosed : (pc.enabled && r.isAvailable pc.name) = false :=
      Bool.eq_false_iff.mpr fun h => hopen (open_iff.mpr (Bool.and_eq_true_iff.mp h))
    rw [hclosed, if_neg Bool.false_ne_true]
    refine (List.filterMap_eq_nil_iff.mpr fun model _ => ?_).symm
    simp [openRate, hopen]

/-- The loop of the latency strategy goes through the eligible entries. -/
theorem timedPairs_eq : timedPairs cfg r = cfg.providers.filterMap fun pc =>
    (openLatency r pc).map fun ms => ⟨pc.name, pc.models.headD [], ms⟩ := by
  unfold timedPairs
  rw [usable_eq, ← List.filterMap_eq_map, List.filterMap_filter]
  apply List.filterMap_congr
  intro pc _
  by_cases heligible : r.Eligible pc
  · simp only [openLatency, heligible, decide_true, if_true, Option.map_some, Function.comp_apply,
      latencyOf]
    cases r.health.lookup pc.name <;> rfl
  · simp [openLatency, heligible]

/-- The points of an open pair are its score. -/
theorem candidateScore_of_open [Rounding] {pc : ProviderConfig} (hpc : pc ∈ cfg.providers)
    (hopen : r.Open pc) (model : Str) :
    r.candidateScore cfg pc.name model = pointsOf cfg r (pc, model) := by
  have hsome : (cfg.providers.find? fun e => e.name = pc.name).isSome :=
    List.find?_isSome.mpr ⟨pc, hpc, decide_eq_true rfl⟩
  obtain ⟨first, hfirst⟩ := Option.isSome_iff_exists.mp hsome
  have hprovider : r.scoreProvider cfg pc.name =
      fl ((r.health.lookup pc.name).elim 100 (fun h =>
        fl (fl (100 - fl (h.errorRate * 50)) - min (fl (h.avgLatencyMs / 100)) 30)) +
          wrap32 (weightOf cfg pc.name * 10)) := by
    unfold scoreProvider weightOf
    rw [hfirst]
    cases hrecord : r.health.lookup pc.name with
    | none => rfl
    | some h => simp [hopen.2 h hrecord]
  unfold candidateScore pointsOf points priceOf
  rw [hprovider]
  cases cfg.pricing.lookup (pricingKey pc.name model) <;> rfl

/-- The candidates are the open pairs with their points. -/
theorem candidates_eq_openPairs [Rounding] : r.candidates cfg = (openPairs cfg r).map fun pair =>
    ⟨pair.1.name, pair.2, pointsOf cfg r pair⟩ := by
  unfold candidates openPairs listedPairs
  rw [List.filter_flatMap, List.map_flatMap]
  apply List.flatMap_congr
  intro pc hpc
  rw [List.filter_map, List.map_map]
  by_cases hopen : r.Open pc
  · obtain ⟨henabled, havailable⟩ := open_iff.mp hopen
    have hall : pc.models.filter ((fun pair : ProviderConfig × Str => decide (r.Open pair.1)) ∘
        fun model => (pc, model)) = pc.models :=
      List.filter_eq_self.mpr fun model _ => decide_eq_true hopen
    rw [if_neg (by simp [henabled]), if_neg (by simp [havailable]), hall]
    apply List.map_congr_left
    intro model _
    simp only [Function.comp_apply, candidateScore_of_open hpc hopen]
  · have hclosed : ¬ (pc.enabled = true ∧ r.isAvailable pc.name = true) := fun h =>
      hopen (open_iff.mpr h)
    rw [List.filter_eq_nil_iff.mpr fun model _ => by simpa using hopen]
    split_ifs with henabled havailable
    · rfl
    · rfl
    · exact absurd ⟨by simpa using henabled, by simpa using havailable⟩ hclosed

/-! ## The picks -/

/-- The first cheapest pair that the loop finds. -/
theorem firstBelow_priced_iff [Rounding] {provider model : Str} {rate : Double} :
    Scan.FirstBelow Best.value 1000000000 (pricedPairs cfg r) ⟨provider, model, rate⟩ ↔
      ∃ pair, CheapestPair cfg r pair ∧ pair.1.name = provider ∧ pair.2 = model ∧
        openRate cfg r pair = some rate := by
  have hkey : ∀ pair : ProviderConfig × Str,
      ((openRate cfg r pair).map fun rate => (⟨pair.1.name, pair.2, rate⟩ : Best)).map Best.value =
        openRate cfg r pair := fun pair => by cases openRate cfg r pair <;> rfl
  simp only [pricedPairs_eq, Scan.firstBelow_filterMap, hkey]
  constructor
  · rintro ⟨pair, hpair, hfirst⟩
    obtain ⟨k, hk, heq⟩ := Option.map_eq_some_iff.mp hpair
    cases heq
    exact ⟨pair, hfirst, rfl, rfl, hk⟩
  · rintro ⟨pair, hfirst, rfl, rfl, hrate⟩
    exact ⟨pair, by rw [hrate, Option.map_some], hfirst⟩

theorem CheapestPair.exists_rate [Rounding] {pair : ProviderConfig × Str}
    (h : CheapestPair cfg r pair) : ∃ rate, openRate cfg r pair = some rate := by
  obtain ⟨rate, hrate, -⟩ := h
  exact ⟨rate, hrate⟩

theorem cheapestNamed_iff_pair [Rounding] {provider model : Str} :
    CheapestNamed cfg r provider model ↔
      provider ≠ [] ∧ ∃ pair, CheapestPair cfg r pair ∧ pair.1.name = provider ∧
        pair.2 = model := by
  refine and_congr_right fun _ => ?_
  simp only [firstBelow_priced_iff]
  constructor
  · rintro ⟨rate, pair, hpair, hname, hmodel, -⟩
    exact ⟨pair, hpair, hname, hmodel⟩
  · rintro ⟨pair, hpair, hname, hmodel⟩
    obtain ⟨rate, hrate⟩ := hpair.exists_rate
    exact ⟨rate, pair, hpair, hname, hmodel, hrate⟩

/-- There is no cheapest named pair when the cheapest pair has no name, or there is
none. -/
theorem no_cheapestNamed_iff [Rounding] : (∀ p m, ¬ CheapestNamed cfg r p m) ↔
    ∀ pair, CheapestPair cfg r pair → pair.1.name = [] := by
  constructor
  · intro h pair hpair
    by_contra hname
    exact h _ _ (cheapestNamed_iff_pair.mpr ⟨hname, pair, hpair, rfl, rfl⟩)
  · intro h p m hcheapest
    obtain ⟨hname, pair, hpair, rfl, -⟩ := cheapestNamed_iff_pair.mp hcheapest
    exact hname (h pair hpair)

/-- Cheapest pairs agree in the name and the model. -/
theorem CheapestPair.unique [Rounding] {pair pair' : ProviderConfig × Str}
    (h : CheapestPair cfg r pair) (h' : CheapestPair cfg r pair') :
    pair.1.name = pair'.1.name ∧ pair.2 = pair'.2 := by
  obtain ⟨rate, hrate⟩ := h.exists_rate
  obtain ⟨rate', hrate'⟩ := h'.exists_rate
  have hfirst := firstBelow_priced_iff.mpr ⟨pair, h, rfl, rfl, hrate⟩
  have hsame := hfirst.unique (firstBelow_priced_iff.mpr ⟨pair', h', rfl, rfl, hrate'⟩)
  exact ⟨congrArg Best.provider hsame, congrArg Best.model hsame⟩

theorem CheapestPair.mem [Rounding] {pair : ProviderConfig × Str} (h : CheapestPair cfg r pair) :
    pair ∈ openPairs cfg r := by
  obtain ⟨rate, hrate, -⟩ := id h
  refine List.mem_filter.mpr ⟨Scan.FirstLeast.mem h, decide_eq_true ?_⟩
  by_contra hclosed
  rw [openRate, if_neg hclosed] at hrate
  cases hrate

theorem firstEnabled_iff {pc : ProviderConfig} :
    firstEntry cfg = some pc ↔ FirstEnabled cfg pc := by
  have hsame : (fun pc : ProviderConfig => pc.enabled && !pc.models.isEmpty) = fun pc =>
      decide (pc.enabled = true ∧ pc.models ≠ []) := by
    funext pc
    cases pc.enabled <;> cases pc.models <;> simp
  rw [firstEntry, hsame, FirstEnabled]

/-- The first fastest entry that the loop finds. -/
theorem exists_firstBelow_timed_iff {provider model : Str} :
    (∃ ms, Scan.FirstBelow Best.value 1000000000 (timedPairs cfg r) ⟨provider, model, ms⟩) ↔
      ∃ pc, FastestEntry cfg r pc ∧ pc.name = provider ∧ pc.models.headD [] = model := by
  have hkey : ∀ pc : ProviderConfig,
      ((openLatency r pc).map fun ms => (⟨pc.name, pc.models.headD [], ms⟩ : Best)).map Best.value =
        openLatency r pc := fun pc => by cases openLatency r pc <;> rfl
  simp only [timedPairs_eq, Scan.firstBelow_filterMap, hkey]
  constructor
  · rintro ⟨ms, pc, hpc, hfirst⟩
    obtain ⟨k, -, heq⟩ := Option.map_eq_some_iff.mp hpc
    cases heq
    exact ⟨pc, hfirst, rfl, rfl⟩
  · rintro ⟨pc, hfirst, rfl, rfl⟩
    obtain ⟨k, hk, -⟩ := id hfirst
    exact ⟨k, pc, by rw [hk, Option.map_some], hfirst⟩

/-- Fastest entries agree in the name and the first model. -/
theorem FastestEntry.unique {pc pc' : ProviderConfig} (h : FastestEntry cfg r pc)
    (h' : FastestEntry cfg r pc') :
    pc.name = pc'.name ∧ pc.models.headD [] = pc'.models.headD [] := by
  obtain ⟨ms, hfirst⟩ := exists_firstBelow_timed_iff.mpr ⟨pc, h, rfl, rfl⟩
  obtain ⟨ms', hfirst'⟩ := exists_firstBelow_timed_iff.mpr ⟨pc', h', rfl, rfl⟩
  have hsame := hfirst.unique hfirst'
  exact ⟨congrArg Best.provider hsame, congrArg Best.model hsame⟩

/-- No entry is fast enough. -/
theorem no_fastestEntry_iff :
    (∀ b ∈ timedPairs cfg r, 1000000000 ≤ b.value) ↔ ∀ pc, ¬ FastestEntry cfg r pc := by
  constructor
  · intro h pc hpc
    obtain ⟨ms, hfirst⟩ := exists_firstBelow_timed_iff.mpr ⟨pc, hpc, rfl, rfl⟩
    exact absurd hfirst.1 (not_lt.mpr (h _ hfirst.mem))
  · intro h b hb
    by_contra hlt
    have hfirst := Scan.firstBelow_scan Best.value {} ⟨b, hb, not_le.mp hlt⟩
    obtain ⟨pc, hpc, -⟩ := exists_firstBelow_timed_iff.mp ⟨_, hfirst⟩
    exact h pc hpc

/-- The pick of the latency strategy. -/
theorem latencyPick_iff_entry {provider model : Str} :
    LatencyPick cfg r provider model ↔
      (∃ pc, FastestEntry cfg r pc ∧ pc.name = provider ∧ pc.models.headD [] = model) ∨
        (∀ pc, ¬ FastestEntry cfg r pc) ∧ provider = [] ∧ model = [] := by
  rw [LatencyPick, exists_firstBelow_timed_iff, no_fastestEntry_iff]

theorem FastestEntry.eligible {pc : ProviderConfig} (h : FastestEntry cfg r pc) :
    pc ∈ cfg.providers ∧ r.Eligible pc := by
  obtain ⟨ms, hms, -⟩ := id h
  refine ⟨Scan.FirstLeast.mem h, ?_⟩
  by_contra hnot
  rw [openLatency, if_neg hnot] at hms
  cases hms

/-- The entry at the position of the counter. -/
theorem inTurn_iff {pc : ProviderConfig} :
    (r.usable cfg)[roundRobinIndex r.roundRobinIdx (r.usable cfg).length]? = some pc ↔
      InTurn cfg r pc := by
  rw [usable_eq, Scan.getElem?_filter_eq_some, ← List.countP_eq_length_filter, InTurn,
    roundRobinIndex]
  simp only [decide_eq_true_eq]

theorem InTurn.eligible {pc : ProviderConfig} (h : InTurn cfg r pc) :
    pc ∈ cfg.providers ∧ r.Eligible pc := by
  obtain ⟨before, after, hsplit, heligible, -⟩ := h
  exact ⟨hsplit ▸ List.mem_append_right before List.mem_cons_self, heligible⟩

/-- An eligible entry makes some entry the one in turn. -/
theorem exists_inTurn {pc : ProviderConfig} (h : pc ∈ r.usable cfg) : ∃ pc, InTurn cfg r pc :=
  ⟨_, inTurn_iff.mp (List.getElem?_eq_getElem
    (roundRobinIndex_lt r.roundRobinIdx (List.length_pos_of_mem h)))⟩

theorem firstEligible_iff {pc : ProviderConfig} :
    (∃ chain, r.usable cfg = pc :: chain) ↔ FirstEligible cfg r pc := by
  rw [FirstEligible, ← List.head?_filter, ← usable_eq, List.head?_eq_some_iff]

theorem FirstEligible.eligible {pc : ProviderConfig} (h : FirstEligible cfg r pc) :
    pc ∈ cfg.providers ∧ r.Eligible pc := by
  have hfound := List.find?_some h
  exact ⟨List.mem_of_find?_eq_some h, of_decide_eq_true hfound⟩

theorem FirstNamed.models {name : Str} {pc : ProviderConfig} (h : FirstNamed cfg name pc) :
    pc.models ≠ [] := by
  have hfound := List.find?_some h
  exact (of_decide_eq_true hfound).2

/-- An eligible entry makes some entry the first. -/
theorem exists_firstEligible {pc : ProviderConfig} (h : pc ∈ r.usable cfg) :
    ∃ pc named, FirstEligible cfg r pc ∧ FirstNamed cfg pc.name named := by
  cases husable : r.usable cfg with
  | nil =>
      rw [husable] at h
      cases h
  | cons first chain =>
      have hfirst := firstEligible_iff.mp ⟨chain, husable⟩
      obtain ⟨hmem, -, hmodels⟩ := hfirst.eligible
      have hsome : (cfg.providers.find? fun e => e.name = first.name ∧ e.models ≠ []).isSome :=
        List.find?_isSome.mpr ⟨first, hmem, decide_eq_true ⟨rfl, hmodels⟩⟩
      obtain ⟨named, hnamed⟩ := Option.isSome_iff_exists.mp hsome
      exact ⟨first, named, hfirst, hnamed⟩

/-- The pick of the failover strategy. -/
theorem failoverPick_iff_entry {provider model : Str} :
    FailoverPick cfg r provider model ↔
      (∃ pc named, FirstEligible cfg r pc ∧ FirstNamed cfg pc.name named ∧ pc.name = provider ∧
        named.models.headD [] = model) ∨
        r.usable cfg = [] ∧ provider = [] ∧ model = [] := by
  have hsame : ∀ name, (fun e : ProviderConfig => decide (e.name = name ∧ !e.models.isEmpty)) =
      fun e => decide (e.name = name ∧ e.models ≠ []) := fun name => by
    funext e
    simp
  refine or_congr_left ⟨?_, ?_⟩
  · rintro ⟨pc, chain, named, husable, hnamed, rfl, rfl⟩
    rw [hsame] at hnamed
    exact ⟨pc, named, firstEligible_iff.mp ⟨chain, husable⟩, hnamed, rfl, rfl⟩
  · rintro ⟨pc, named, hfirst, hnamed, rfl, rfl⟩
    obtain ⟨chain, husable⟩ := firstEligible_iff.mpr hfirst
    refine ⟨pc, chain, named, husable, ?_, rfl, rfl⟩
    rw [hsame]
    exact hnamed

/-- A pair of maximal score. -/
theorem bestPair_iff [Rounding] {provider model : Str} :
    (∃ score, ⟨provider, model, score⟩ ∈ r.candidates cfg ∧
        ∀ c ∈ r.candidates cfg, c.score ≤ score) ↔
      ∃ pair, BestPair cfg r pair ∧ pair.1.name = provider ∧ pair.2 = model := by
  simp only [candidates_eq_openPairs, List.forall_mem_map, BestPair]
  simp only [List.mem_map]
  constructor
  · rintro ⟨score, ⟨pair, hpair, heq⟩, hmax⟩
    cases heq
    exact ⟨pair, ⟨hpair, hmax⟩, rfl, rfl⟩
  · rintro ⟨pair, ⟨hpair, hmax⟩, rfl, rfl⟩
    exact ⟨_, ⟨pair, hpair, rfl⟩, hmax⟩

/-- The pick of the smart strategy. -/
theorem smartPick_iff_pair [Rounding] {provider model : Str} :
    SmartPick cfg r provider model ↔
      (∃ pair, BestPair cfg r pair ∧ pair.1.name = provider ∧ pair.2 = model) ∨
        openPairs cfg r = [] ∧ provider = [] ∧ model = [] := by
  rw [SmartPick, bestPair_iff, candidates_eq_openPairs, List.map_eq_nil_iff]

/-- Some open pair has most points. -/
theorem exists_bestPair [Rounding] (hsome : openPairs cfg r ≠ []) :
    ∃ pair, BestPair cfg r pair := by
  cases hbest : (openPairs cfg r).argmax (pointsOf cfg r) with
  | none => exact absurd (List.argmax_eq_none.mp hbest) hsome
  | some pair =>
      exact ⟨pair, List.argmax_mem hbest, fun other hother => List.le_of_mem_argmax hother hbest⟩

end Router

end Gateway
