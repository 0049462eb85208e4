import LlmGateway.Criteria

/-!
# Asking for a model by name

A client may name the model it wants.  No strategy looks at that name: the pair
it answers with is chosen by price, latency, position, order or score alone.
`named_model_iff` states, for each strategy, when the pair it prefers anyway is
one of the named model, and that otherwise the client gets another model.
-/

namespace Gateway

namespace Router

/-- The strategy, by its own criterion, ends on the given model and on the name of an
entry that lists it: the cost strategy on the cheapest pair, or else on the first enabled
entry; the latency strategy on the first model of the fastest entry, or else on nothing;
round robin on that of the entry in turn; failover on that of the first entry of the first
eligible name; and smart on a pair of most points, whichever the sort puts first. -/
def Favours [Rounding] (cfg : GatewayConfig) (r : Router) (model : Str) : Prop :=
  match r.strategy with
  | .costOptimized =>
      (∃ pair, CheapestPair cfg r pair ∧ pair.1.name ≠ [] ∧ pair.2 = model) ∨
        (∀ pair, CheapestPair cfg r pair → pair.1.name = []) ∧
          ∃ pc, FirstEnabled cfg pc ∧ pc.models.head? = some model ∧ Lists cfg r pc.name model
  | .latencyOptimized =>
      (∃ pc, FastestEntry cfg r pc ∧ pc.models.head? = some model) ∨
        (∀ pc, ¬ FastestEntry cfg r pc) ∧ model = [] ∧ Lists cfg r [] []
  | .roundRobin => ∃ pc, InTurn cfg r pc ∧ pc.models.head? = some model
  | .failover =>
      ∃ pc named, FirstEligible cfg r pc ∧ FirstNamed cfg pc.name named ∧
        named.models.head? = some model ∧ Lists cfg r pc.name model
  | .smart => ∀ pair, BestPair cfg r pair → pair.2 = model

variable {cfg : GatewayConfig} {r : Router}

/-- Under the cost strategy the cheapest pair decides, or else the first enabled entry. -/
theorem costFavours_iff [Rounding] {model : Str}
    (hlisted : ∃ provider, Lists cfg r provider model) :
    (∀ p m, CostPick cfg r p m → m = model ∧ Lists cfg r p model) ↔
      (∃ pair, CheapestPair cfg r pair ∧ pair.1.name ≠ [] ∧ pair.2 = model) ∨
        (∀ pair, CheapestPair cfg r pair → pair.1.name = []) ∧
          ∃ pc, FirstEnabled cfg pc ∧ pc.models.head? = some model ∧
            Lists cfg r pc.name model := by
  obtain ⟨entry, hentry, -, henabled, -, hmodel⟩ := hlisted.choose_spec
  constructor
  · intro h
    by_cases hnamed : ∃ pair, CheapestPair cfg r pair ∧ pair.1.name ≠ []
    · obtain ⟨pair, hcheapest, hname⟩ := hnamed
      obtain ⟨hmodel, -⟩ := h pair.1.name pair.2
        (.inl (cheapestNamed_iff_pair.mpr ⟨hname, pair, hcheapest, rfl, rfl⟩))
      exact .inl ⟨pair, hcheapest, hname, hmodel⟩
    · have hunnamed : ∀ pair, CheapestPair cfg r pair → pair.1.name = [] := fun pair hpair => by
        by_contra hname
        exact hnamed ⟨pair, hpair, hname⟩
      obtain ⟨first, hfirst⟩ := exists_firstEntry hentry henabled (List.ne_nil_of_mem hmodel)
      obtain ⟨hhead, hlists⟩ := h _ _
        (.inr ⟨no_cheapestNamed_iff.mpr hunnamed, .inl ⟨first, hfirst, rfl, rfl⟩⟩)
      exact .inr ⟨hunnamed, first, firstEnabled_iff.mp hfirst,
        (head?_eq_some_iff (mem_of_firstEntry hfirst).2.2).mpr hhead, hlists⟩
  · intro h p m hpick
    rcases h with ⟨pair, hcheapest, hname, rfl⟩ | ⟨hunnamed, first, hfirst, hhead, hlists⟩
    · rcases hpick with hp | ⟨hno, -⟩
      · obtain ⟨-, pair', hcheapest', rfl, rfl⟩ := cheapestNamed_iff_pair.mp hp
        obtain ⟨-, hsame⟩ := hcheapest'.unique hcheapest
        exact ⟨hsame, hsame ▸ hp.lists⟩
      · exact absurd (no_cheapestNamed_iff.mp hno pair hcheapest) hname
    · have hentry := firstEnabled_iff.mpr hfirst
      rcases hpick with hp | ⟨-, ⟨pc', hpc', rfl, rfl⟩ | ⟨hpc', -⟩⟩
      · exact absurd hp (no_cheapestNamed_iff.mpr hunnamed _ _)
      · cases hentry.symm.trans hpc'
        exact ⟨(head?_eq_some_iff (mem_of_firstEntry hentry).2.2).mp hhead, hlists⟩
      · cases hentry.symm.trans hpc'

/-- Under the latency strategy the fastest entry decides; without one the answer is empty. -/
theorem latencyFavours_iff {model : Str} :
    (∀ p m, LatencyPick cfg r p m → m = model ∧ Lists cfg r p model) ↔
      (∃ pc, FastestEntry cfg r pc ∧ pc.models.head? = some model) ∨
        (∀ pc, ¬ FastestEntry cfg r pc) ∧ model = [] ∧ Lists cfg r [] [] := by
  simp only [latencyPick_iff_entry]
  constructor
  · intro h
    by_cases hfound : ∃ pc, FastestEntry cfg r pc
    · obtain ⟨pc, hfastest⟩ := hfound
      obtain ⟨hmodel, -⟩ := h _ _ (.inl ⟨pc, hfastest, rfl, rfl⟩)
      exact .inl ⟨pc, hfastest, (head?_eq_some_iff hfastest.eligible.2.2).mpr hmodel⟩
    · have hnone : ∀ pc, ¬ FastestEntry cfg r pc := fun pc hpc => hfound ⟨pc, hpc⟩
      obtain ⟨rfl, hlists⟩ := h [] [] (.inr ⟨hnone, rfl, rfl⟩)
      exact .inr ⟨hnone, rfl, hlists⟩
  · intro h p m hpick
    rcases h with ⟨pc, hfastest, hhead⟩ | ⟨hnone, rfl, hlists⟩
    · rcases hpick with ⟨pc', hfastest', rfl, rfl⟩ | ⟨hnone, -⟩
      · obtain ⟨-, hsame⟩ := hfastest'.unique hfastest
        have hmodel := (head?_eq_some_iff hfastest.eligible.2.2).mp hhead
        refine ⟨hsame.trans hmodel, ?_⟩
        rw [← hmodel, ← hsame]
        exact lists_of_usable (mem_usable_iff.mpr hfastest'.eligible)
      · exact absurd hfastest (hnone pc)
    · rcases hpick with ⟨pc', hfastest', -⟩ | ⟨-, rfl, rfl⟩
      · exact absurd hfastest' (hnone pc')
      · exact ⟨rfl, hlists⟩

/-- Under round robin there is an entry in turn, since some entry lists the model. -/
theorem roundRobinFavours_iff {model : Str} (hlisted : ∃ provider, Lists cfg r provider model) :
    (∀ p m, RoundRobinPick cfg r p m → m = model ∧ Lists cfg r p model) ↔
      ∃ pc, InTurn cfg r pc ∧ pc.models.head? = some model := by
  obtain ⟨entry, hentry, -⟩ := usable_of_lists hlisted.choose_spec
  have hmodels : ∀ {pc}, InTurn cfg r pc → pc.models ≠ [] := fun {pc} hturn =>
    hturn.eligible.2.2
  constructor
  · intro h
    obtain ⟨pc, hturn⟩ := exists_inTurn hentry
    obtain ⟨hmodel, -⟩ := h _ _ (.inl ⟨pc, inTurn_iff.mpr hturn, rfl, rfl⟩)
    exact ⟨pc, hturn, (head?_eq_some_iff (hmodels hturn)).mpr hmodel⟩
  · intro h p m hpick
    obtain ⟨pc, hturn, hhead⟩ := h
    obtain rfl := (head?_eq_some_iff (hmodels hturn)).mp hhead
    rcases hpick with ⟨pc', hpc', rfl, rfl⟩ | ⟨hnil, -⟩
    · cases (inTurn_iff.mpr hturn).symm.trans hpc'
      exact ⟨rfl, lists_of_usable (mem_usable_iff.mpr hturn.eligible)⟩
    · rw [hnil] at hentry
      cases hentry

/-- Under failover the model is that of the first entry of the name, open or not. -/
theorem failoverFavours_iff {model : Str} (hlisted : ∃ provider, Lists cfg r provider model) :
    (∀ p m, FailoverPick cfg r p m → m = model ∧ Lists cfg r p model) ↔
      ∃ pc named, FirstEligible cfg r pc ∧ FirstNamed cfg pc.name named ∧
        named.models.head? = some model ∧ Lists cfg r pc.name model := by
  obtain ⟨entry, hentry, -⟩ := usable_of_lists hlisted.choose_spec
  simp only [failoverPick_iff_entry]
  constructor
  · intro h
    obtain ⟨pc, named, hfirst, hnamed⟩ := exists_firstEligible hentry
    obtain ⟨hmodel, hlists⟩ := h _ _ (.inl ⟨pc, named, hfirst, hnamed, rfl, rfl⟩)
    exact ⟨pc, named, hfirst, hnamed, (head?_eq_some_iff hnamed.models).mpr hmodel, hlists⟩
  · intro h p m hpick
    obtain ⟨pc, named, hfirst, hnamed, hhead, hlists⟩ := h
    rcases hpick with ⟨pc', named', hfirst', hnamed', rfl, rfl⟩ | ⟨hnil, -⟩
    · cases hfirst.symm.trans hfirst'
      cases hnamed.symm.trans hnamed'
      exact ⟨(head?_eq_some_iff hnamed.models).mp hhead, hlists⟩
    · rw [hnil] at hentry
      cases hentry

/-- Under smart every pair of most points may be the pick. -/
theorem smartFavours_iff [Rounding] {model : Str}
    (hlisted : ∃ provider, Lists cfg r provider model) :
    (∀ p m, SmartPick cfg r p m → m = model ∧ Lists cfg r p model) ↔
      ∀ pair, BestPair cfg r pair → pair.2 = model := by
  obtain ⟨offered, hopen, -⟩ := lists_iff.mp hlisted.choose_spec
  simp only [smartPick_iff_pair]
  constructor
  · intro h pair hbest
    exact (h _ _ (.inl ⟨pair, hbest, rfl, rfl⟩)).1
  · intro h p m hpick
    rcases hpick with ⟨pair, hbest, rfl, rfl⟩ | ⟨hnil, -⟩
    · obtain rfl := h pair hbest
      exact ⟨rfl, lists_iff.mpr ⟨pair, hbest.1, rfl, rfl⟩⟩
    · rw [hnil] at hopen
      cases hopen

/-- **A named model.**  A request for a model that is no alias, has no colon and
is listed by an enabled, available entry is always answered with that model,
from such an entry, exactly when the strategy ends on that model by its own
criterion. -/
theorem named_model_iff [Rounding] (cfg : GatewayConfig) (r : Router) (req : ChatRequest)
    (halias : cfg.modelAliases.lookup req.model = none) (hcolon : byte ':' ∉ req.model)
    (hlisted : ∃ provider, Lists cfg r provider req.model) :
    (∀ walk sort, (r.route walk sort cfg req).1.model = req.model ∧
        Lists cfg r (r.route walk sort cfg req).1.provider req.model) ↔
      Favours cfg r req.model := by
  rw [route_all_iff (plain_of_no_alias halias hcolon)
    (Q := fun p m => m = req.model ∧ Lists cfg r p req.model)]
  unfold Picks Favours
  cases r.strategy with
  | costOptimized => exact costFavours_iff hlisted
  | latencyOptimized => exact latencyFavours_iff
  | roundRobin => exact roundRobinFavours_iff hlisted
  | failover => exact failoverFavours_iff hlisted
  | smart => exact smartFavours_iff hlisted

/-- Two providers with the built-in prices, the dearer one first. -/
def pricedConfig : GatewayConfig :=
  setDefaultPricing
    { defaultStrategy := .costOptimized
      providers :=
        [{ name := str "openai", apiKey := str "k", models := [str "gpt-4o-mini"] },
         { name := str "groq", apiKey := str "k", models := [str "llama-3.1-8b-instant"] }] }

/-- The cheapest model is answered when it is asked for. -/
theorem named_model_iff_cheapest :
    ((Router.init pricedConfig).route (.listed _) (.stable _ _) pricedConfig
      { model := str "llama-3.1-8b-instant" }).1.model = str "llama-3.1-8b-instant" := by
  have hfavours : Favours pricedConfig (Router.init pricedConfig)
      (str "llama-3.1-8b-instant") := by
    have hcheapest : CheapestNamed pricedConfig (Router.init pricedConfig) (str "groq")
        (str "llama-3.1-8b-instant") :=
      cheapestNamed_iff.mpr ⟨by decide, by with_unfolding_all decide, by with_unfolding_all decide⟩
    obtain ⟨hname, pair, hpair, hprovider, hmodel⟩ := cheapestNamed_iff_pair.mp hcheapest
    exact .inl ⟨pair, hpair, hprovider ▸ hname, hmodel⟩
  have hlaw := named_model_iff pricedConfig (Router.init pricedConfig)
    { model := str "llama-3.1-8b-instant" } (by decide) (by decide)
    ⟨str "groq", (pricedConfig.providers.get ⟨1, by decide⟩), by decide, rfl, rfl, rfl, by decide⟩
  exact (hlaw.mpr hfavours (.listed _) (.stable _ _)).1

/-- Any other model is not. -/
theorem dearer_model_not_served :
    ¬ ∀ (cfg : GatewayConfig) (req : ChatRequest), cfg.modelAliases.lookup req.model = none →
      byte ':' ∉ req.model → (∃ provider, Lists cfg (Router.init cfg) provider req.model) →
        ∀ walk sort, ((Router.init cfg).route walk sort cfg req).1.model = req.model := by
  intro h
  have hserved := h pricedConfig { model := str "gpt-4o-mini" } (by decide) (by decide)
    ⟨str "openai", (pricedConfig.providers.get ⟨0, by decide⟩), by decide, rfl, rfl, rfl, by decide⟩
    (.listed _) (.stable _ _)
  have hother : ((Router.init pricedConfig).route (.listed _) (.stable _ _) pricedConfig
      { model := str "gpt-4o-mini" }).1.model = str "llama-3.1-8b-instant" := by
    with_unfolding_all decide
  rw [hother] at hserved
  exact absurd hserved (by decide)

end Router

end Gateway
