import LlmGateway.Optimality
import LlmGateway.Recovery
import LlmGateway.RouterRuns

/-!
# Routes before and after a failed call

A failure can only cost its provider: it raises the error rate, and with it the
score falls and the provider may become unavailable.  There is one exception.
The first failure of a provider creates its record, whose average latency is the
default zero, where the latency strategy took 500 ms before.  So the provider
that has never answered is the fastest from then on; `attracts_iff` says when
this draws a route to it that went elsewhere before.
-/

namespace Gateway

namespace Router

/-- With a latency of zero `p` is the fastest usable provider, and with the
default latency it is not. -/
def Overtakes (cfg : GatewayConfig) (r : Router) (p : Str) : Prop :=
  ∃ before pc behind, r.usable cfg = before ++ pc :: behind ∧ pc.name = p ∧
    (∀ e ∈ before, 0 < r.latencyOf e.name) ∧ (∀ e ∈ behind, 0 ≤ r.latencyOf e.name) ∧
    ((∃ e ∈ before, r.latencyOf e.name ≤ 500) ∨ ∃ e ∈ behind, r.latencyOf e.name < 500)

/-- The latency strategy is asked for a route, `p` has no record, and a latency
of zero makes it the fastest. -/
structure Attracts (cfg : GatewayConfig) (r : Router) (req : ChatRequest) (p : Str) : Prop where
  plain : splitAtColon (resolveModelAlias cfg req.model) = none
  strategy : r.strategy = .latencyOptimized
  unseen : r.health.lookup p = none
  overtakes : Overtakes cfg r p

variable {cfg : GatewayConfig} {r : Router} {now : Time} {p : Str} {req : ChatRequest}

/-! ### What a failure changes -/

theorem isAvailable_reportFailure_of_ne {q : Str} (h : q ≠ p) :
    (r.reportFailure now p).isAvailable q = r.isAvailable q := by
  rw [isAvailable_eq, isAvailable_eq]
  exact congrArg ProviderHealth.available (healthRecord_apply_of_ne (.failure now p) h.symm r)

/-- The provider stays available while its rate is at most one half. -/
theorem isAvailable_reportFailure_self :
    (r.reportFailure now p).isAvailable p = true ↔
      r.isAvailable p = true ∧ (r.healthRecord p).errorRate + 0.1 ≤ 0.5 := by
  have hself : (r.reportFailure now p).healthRecord p =
      (Report.failure now p).update (r.healthRecord p) :=
    healthRecord_apply_self (.failure now p) r
  have hone : ¬ (1 : Double) ≤ 0.5 := by norm_num
  rw [isAvailable_eq, isAvailable_eq, hself]
  simp [Report.update, hone]

/-- While the provider stays available, nothing changes in who is. -/
theorem isAvailable_of_up (hup : (r.reportFailure now p).isAvailable p = true) (q : Str) :
    (r.reportFailure now p).isAvailable q = r.isAvailable q := by
  by_cases hq : q = p
  · subst hq
    rw [hup, (isAvailable_reportFailure_self.mp hup).1]
  · exact isAvailable_reportFailure_of_ne hq

theorem isAvailable_of_reportFailure {q : Str}
    (h : (r.reportFailure now p).isAvailable q = true) : r.isAvailable q = true := by
  by_cases hq : q = p
  · subst hq
    exact (isAvailable_reportFailure_self.mp h).1
  · exact (isAvailable_reportFailure_of_ne hq).symm.trans h

theorem latencyOf_reportFailure_of_ne {q : Str} (h : q ≠ p) :
    (r.reportFailure now p).latencyOf q = r.latencyOf q := by
  unfold latencyOf reportFailure
  rw [AList.lookup_insert_ne h]

/-- The latency compared is the recorded one, which starts from zero. -/
theorem latencyOf_reportFailure_self :
    (r.reportFailure now p).latencyOf p = (r.healthRecord p).avgLatencyMs := by
  unfold latencyOf reportFailure
  rw [AList.lookup_insert]

theorem latencyOf_of_seen (h : r.health.lookup p ≠ none) :
    (r.healthRecord p).avgLatencyMs = r.latencyOf p := by
  unfold latencyOf healthRecord
  cases hl : r.health.lookup p with
  | none => exact absurd hl h
  | some record => rfl

/-- The pairs of the provider lose five points, the others none. -/
theorem pairScore_reportFailure (hup : (r.reportFailure now p).isAvailable p = true)
    (pair : ProviderConfig × Str) :
    pairScore cfg (r.reportFailure now p) pair =
      pairScore cfg r pair - if pair.1.name = p then 5 else 0 := by
  unfold pairScore scoreWith
  by_cases hname : pair.1.name = p
  · have hself : (r.reportFailure now p).healthRecord p =
        (Report.failure now p).update (r.healthRecord p) :=
      healthRecord_apply_self (.failure now p) r
    have hrate := (isAvailable_reportFailure_self.mp hup).2
    have hmin : min 1 ((r.healthRecord p).errorRate + 0.1) = (r.healthRecord p).errorRate + 0.1 :=
      min_eq_right (hrate.trans (by norm_num))
    rw [if_pos hname, hname, hself]
    simp only [Report.update, hmin]
    ring
  · have hother : (r.reportFailure now p).healthRecord pair.1.name =
        r.healthRecord pair.1.name :=
      healthRecord_apply_of_ne (.failure now p) (Ne.symm hname) r
    rw [if_neg hname, hother, sub_zero]

theorem usable_congr {r' : Router} (h : ∀ q, r'.isAvailable q = r.isAvailable q) :
    r'.usable cfg = r.usable cfg := by
  unfold usable
  simp only [h]

theorem pricedPairs_congr {r' : Router} (h : ∀ q, r'.isAvailable q = r.isAvailable q) :
    pricedPairs cfg r' = pricedPairs cfg r := by
  unfold pricedPairs
  simp only [h]

/-! ### The provider goes down -/

/-- A cheapest pair of another provider stays the cheapest. -/
theorem CheapestNamed.after_failure {q m : Str} (h : CheapestNamed cfg r q m) (hq : q ≠ p) :
    CheapestNamed cfg (r.reportFailure now p) q m := by
  obtain ⟨hname, rate, hfirst⟩ := h
  refine ⟨hname, rate, ?_⟩
  rw [pricedPairs_filter fun _ => isAvailable_of_reportFailure]
  refine hfirst.filter ?_
  obtain ⟨pc, -, -, havailable, hsame, -⟩ := mem_pricedPairs.mp hfirst.mem
  have hsame : q = pc.name := hsame
  show (r.reportFailure now p).isAvailable q = true
  rw [isAvailable_reportFailure_of_ne hq, hsame]
  exact havailable

/-- A provider that is down is chosen only by the second loop of the cost
strategy, which chose it before. -/
theorem chosen_of_down (hp : p ≠ []) (hdown : ¬ (r.reportFailure now p).isAvailable p = true)
    {m : Str} (h : Picks cfg (r.reportFailure now p) p m) :
    r.strategy = .costOptimized ∧ (routeCostOptimized cfg r).provider = p := by
  rcases h.provider_cases with ⟨pc, hpc, rfl⟩ | ⟨hstrategy, hnone, pc, hfirst, hname⟩ | hnil
  · exact absurd (mem_usable.mp hpc).2.2.2 hdown
  · refine ⟨hstrategy, ?_⟩
    have hbefore : CostPick cfg r (routeCostOptimized cfg r).provider
        (routeCostOptimized cfg r).model := costPick_iff.mpr ⟨rfl, rfl⟩
    rcases hbefore with hcheapest | ⟨-, ⟨pc', hfirst', hpc', -⟩ | ⟨hfirst', -⟩⟩
    · by_contra hother
      exact hnone _ _ (hcheapest.after_failure hother)
    · rw [hfirst] at hfirst'
      cases hfirst'
      exact hpc'.trans hname
    · rw [hfirst] at hfirst'
      cases hfirst'
  · exact absurd hnil hp

/-! ### The provider stays up -/

theorem routeCostOptimized_of_up (hup : (r.reportFailure now p).isAvailable p = true) :
    routeCostOptimized cfg (r.reportFailure now p) = routeCostOptimized cfg r := by
  unfold routeCostOptimized
  rw [cheapest_eq_scan, cheapest_eq_scan, pricedPairs_congr (isAvailable_of_up hup)]

theorem routeFailover_of_up (hup : (r.reportFailure now p).isAvailable p = true) :
    routeFailover cfg (r.reportFailure now p) = routeFailover cfg r := by
  unfold routeFailover
  rw [usable_congr (isAvailable_of_up hup)]

theorem roundRobinPick_of_up (hup : (r.reportFailure now p).isAvailable p = true) {m : Str} :
    RoundRobinPick cfg (r.reportFailure now p) p m ↔ RoundRobinPick cfg r p m := by
  unfold RoundRobinPick
  rw [usable_congr (isAvailable_of_up hup)]
  rfl

/-- A pair of the provider that has the highest score after the failure had a
higher one than any other before. -/
theorem smart_chosen_of_up (hnodup : (cfg.providers.map ProviderConfig.name).Nodup)
    (hp : p ≠ []) (hup : (r.reportFailure now p).isAvailable p = true)
    {sort sort' : Descending Candidate Candidate.score}
    (h : (routeSmart sort' cfg (r.reportFailure now p)).provider = p) :
    (routeSmart sort cfg r).provider = p := by
  have hpairs : openPairs cfg (r.reportFailure now p) = openPairs cfg r :=
    openPairs_congr (isAvailable_of_up hup)
  by_cases hsome : openPairs cfg r = []
  · -- no candidate, no provider
    have hnone : (r.reportFailure now p).candidates cfg = [] := by
      rw [candidates_eq hnodup, hpairs, hsome]
      rfl
    have hsorted := sort'.perm ((r.reportFailure now p).candidates cfg)
    rw [hnone] at hsorted
    unfold routeSmart at h
    rw [hnone, hsorted.eq_nil] at h
    exact absurd h.symm hp
  · obtain ⟨best, hbest, hprovider, -, hmax⟩ := (routeSmart_readOff hnodup hsome sort).optimal
    obtain ⟨best', hbest', hprovider', -, hmax'⟩ :=
      (routeSmart_readOff hnodup (hpairs ▸ hsome) sort').optimal
    by_contra hother
    have hne : best.1.name ≠ p := fun heq => hother (hprovider.trans heq)
    have hp' : best'.1.name = p := hprovider'.symm.trans h
    have hold := hmax best' (hpairs ▸ hbest')
    have hnew := hmax' best (hpairs.symm ▸ hbest)
    rw [pairScore_reportFailure hup, pairScore_reportFailure hup, if_neg hne, if_pos hp'] at hnew
    linarith

/-! ### The latency strategy -/

/-- The names in a split of the usable entries are distinct. -/
theorem names_of_split (hnodup : (cfg.providers.map ProviderConfig.name).Nodup)
    {before behind : List ProviderConfig} {pc : ProviderConfig}
    (hsplit : r.usable cfg = before ++ pc :: behind) :
    ∀ e ∈ before ++ behind, e.name ≠ pc.name := by
  have hsub : ((r.usable cfg).map ProviderConfig.name).Nodup :=
    (List.filter_sublist.map _).nodup hnodup
  rw [hsplit, List.map_append, List.map_cons, List.nodup_middle, List.nodup_cons,
    ← List.map_append] at hsub
  exact fun e he hname => hsub.1 (hname ▸ List.mem_map_of_mem he)

/-- The pair of a usable entry is the first least one when it is faster than the
entries in front and no slower than those behind. -/
theorem firstBelow_timed_iff (hnodup : (cfg.providers.map ProviderConfig.name).Nodup)
    {before behind : List ProviderConfig} {pc : ProviderConfig}
    (hsplit : r.usable cfg = before ++ pc :: behind) :
    Scan.FirstBelow Best.value 1000000000 (timedPairs cfg r)
        ⟨pc.name, pc.models.headD [], r.latencyOf pc.name⟩ ↔
      r.latencyOf pc.name < 1000000000 ∧
        (∀ e ∈ before, r.latencyOf pc.name < r.latencyOf e.name) ∧
        ∀ e ∈ behind, r.latencyOf pc.name ≤ r.latencyOf e.name := by
  have hothers := names_of_split hnodup hsplit
  have htimed : timedPairs cfg r =
      before.map (fun e => (⟨e.name, e.models.headD [], r.latencyOf e.name⟩ : Best)) ++
        ⟨pc.name, pc.models.headD [], r.latencyOf pc.name⟩ ::
        behind.map fun e => ⟨e.name, e.models.headD [], r.latencyOf e.name⟩ := by
    unfold timedPairs
    rw [hsplit, List.map_append, List.map_cons]
  rw [Scan.firstBelow_iff_of_split htimed]
  · simp only [List.forall_mem_map]
  · intro hmem
    obtain ⟨e, he, heq⟩ := List.mem_map.mp hmem
    exact hothers e (List.mem_append_left _ he) (congrArg Best.provider heq)
  · intro hmem
    obtain ⟨e, he, heq⟩ := List.mem_map.mp hmem
    exact hothers e (List.mem_append_right _ he) (congrArg Best.provider heq)

/-- The latency strategy chooses the provider of a usable entry when its pair is
the first least one. -/
theorem fastest_iff (hnodup : (cfg.providers.map ProviderConfig.name).Nodup)
    {before behind : List ProviderConfig} {pc : ProviderConfig} (hname : pc.name ≠ [])
    (hsplit : r.usable cfg = before ++ pc :: behind) :
    (routeLatencyOptimized cfg r).provider = pc.name ↔
      r.latencyOf pc.name < 1000000000 ∧
        (∀ e ∈ before, r.latencyOf pc.name < r.latencyOf e.name) ∧
        ∀ e ∈ behind, r.latencyOf pc.name ≤ r.latencyOf e.name := by
  rw [← firstBelow_timed_iff hnodup hsplit]
  constructor
  · intro hchosen
    have hpick : LatencyPick cfg r pc.name (routeLatencyOptimized cfg r).model :=
      latencyPick_iff.mpr ⟨hchosen, rfl⟩
    rcases hpick with ⟨ms, hfound⟩ | ⟨-, hnil, -⟩
    · obtain ⟨e, he, heq⟩ := List.mem_map.mp hfound.mem
      obtain ⟨hsame, hmodel, hms⟩ := Best.mk.inj heq
      have hin : pc ∈ r.usable cfg := by
        rw [hsplit]
        exact List.mem_append_right _ List.mem_cons_self
      -- names are distinct, so the pair found is that of the entry
      obtain rfl := List.inj_on_of_nodup_map hnodup (mem_usable.mp he).1 (mem_usable.mp hin).1 hsame
      rw [hmodel, hms]
      exact hfound
    · exact absurd hnil hname
  · intro hfound
    exact (latencyPick_iff.mp (.inl ⟨_, hfound⟩)).1

/-- After a failure the recorded latency is compared with the old ones. -/
theorem fastest_after_failure_iff (hnodup : (cfg.providers.map ProviderConfig.name).Nodup)
    {before behind : List ProviderConfig} {pc : ProviderConfig} (hname : pc.name ≠ [])
    (hsplit : r.usable cfg = before ++ pc :: behind)
    (hup : (r.reportFailure now pc.name).isAvailable pc.name = true) :
    (routeLatencyOptimized cfg (r.reportFailure now pc.name)).provider = pc.name ↔
      (r.healthRecord pc.name).avgLatencyMs < 1000000000 ∧
        (∀ e ∈ before, (r.healthRecord pc.name).avgLatencyMs < r.latencyOf e.name) ∧
        ∀ e ∈ behind, (r.healthRecord pc.name).avgLatencyMs ≤ r.latencyOf e.name := by
  have husable : (r.reportFailure now pc.name).usable cfg = before ++ pc :: behind :=
    (usable_congr (isAvailable_of_up hup)).trans hsplit
  have hothers := names_of_split hnodup hsplit
  have hsame : ∀ e ∈ before ++ behind, (r.reportFailure now pc.name).latencyOf e.name =
      r.latencyOf e.name := fun e he => latencyOf_reportFailure_of_ne (hothers e he)
  rw [fastest_iff hnodup hname husable, latencyOf_reportFailure_self]
  refine and_congr_right fun _ => and_congr ?_ ?_
  · refine forall₂_congr fun e he => ?_
    rw [hsame e (List.mem_append_left _ he)]
  · refine forall₂_congr fun e he => ?_
    rw [hsame e (List.mem_append_right _ he)]

/-- The latency strategy goes over to a provider that fails only if it had no
record and overtakes the others. -/
theorem routeLatencyOptimized_failure (hnodup : (cfg.providers.map ProviderConfig.name).Nodup)
    (hp : p ≠ []) (hup : (r.reportFailure now p).isAvailable p = true) :
    ((routeLatencyOptimized cfg r).provider ≠ p ∧
        (routeLatencyOptimized cfg (r.reportFailure now p)).provider = p) ↔
      r.health.lookup p = none ∧ Overtakes cfg r p := by
  have hfresh : r.health.lookup p = none →
      r.latencyOf p = 500 ∧ (r.healthRecord p).avgLatencyMs = 0 := by
    intro hunseen
    unfold latencyOf healthRecord
    rw [hunseen]
    exact ⟨rfl, rfl⟩
  constructor
  · intro h
    obtain ⟨hother, hchosen⟩ := h
    have hpick : LatencyPick cfg (r.reportFailure now p) p _ := latencyPick_iff.mpr ⟨hchosen, rfl⟩
    rcases hpick with ⟨ms, hfound⟩ | ⟨-, hnil, -⟩
    · obtain ⟨pc, hpc, heq⟩ := List.mem_map.mp hfound.mem
      obtain rfl : pc.name = p := congrArg Best.provider heq
      rw [usable_congr (isAvailable_of_up hup)] at hpc
      obtain ⟨before, behind, hsplit⟩ := List.append_of_mem hpc
      have hfastest := (fastest_after_failure_iff hnodup hp hsplit hup).mp hchosen
      have hslower := mt (fastest_iff hnodup hp hsplit).mpr hother
      by_cases hunseen : r.health.lookup pc.name = none
      · obtain ⟨hdefault, hzero⟩ := hfresh hunseen
        rw [hzero] at hfastest
        rw [hdefault] at hslower
        refine ⟨hunseen, before, pc, behind, hsplit, rfl, hfastest.2.1, hfastest.2.2, ?_⟩
        by_contra! hnone
        exact hslower ⟨by norm_num, hnone⟩
      · rw [latencyOf_of_seen hunseen] at hfastest
        exact absurd hfastest hslower
    · exact absurd hnil hp
  · intro h
    obtain ⟨hunseen, before, pc, behind, hsplit, rfl, hbefore, hbehind, hslower⟩ := h
    obtain ⟨hdefault, hzero⟩ := hfresh hunseen
    rw [Ne, fastest_iff hnodup hp hsplit, fastest_after_failure_iff hnodup hp hsplit hup, hdefault,
      hzero]
    refine ⟨fun hfastest => ?_, by norm_num, hbefore, hbehind⟩
    rcases hslower with ⟨e, he, hle⟩ | ⟨e, he, hlt⟩
    · exact absurd (hfastest.2.1 e he) (not_lt.mpr hle)
    · exact absurd (hfastest.2.2 e he) (not_le.mpr hlt)

/-! ### Every strategy -/

theorem isAvailable_of_unseen (h : r.health.lookup p = none) :
    (r.reportFailure now p).isAvailable p = true := by
  refine isAvailable_reportFailure_self.mpr ⟨?_, ?_⟩
  · unfold isAvailable
    rw [h]
  · unfold healthRecord
    rw [h]
    show (0 : Double) + 0.1 ≤ 0.5
    norm_num

/-- Only the latency strategy draws a route to a provider that fails. -/
theorem not_chosen_after_failure (hnodup : (cfg.providers.map ProviderConfig.name).Nodup)
    (hp : p ≠ []) (hup : (r.reportFailure now p).isAvailable p = true)
    (hplain : splitAtColon (resolveModelAlias cfg req.model) = none)
    (hstrategy : r.strategy ≠ .latencyOptimized) (walk : Traversal (Σ _ : Str, ProviderHealth))
    (sort : Descending Candidate Candidate.score)
    (h : ((r.reportFailure now p).route walk sort cfg req).1.provider = p) :
    (r.route walk sort cfg req).1.provider = p := by
  have hsame : (r.reportFailure now p).strategy = r.strategy := rfl
  rw [route_of_plain hplain, hsame] at h
  rw [route_of_plain hplain]
  cases hs : r.strategy with
  | costOptimized =>
      rw [hs] at h
      simp only [routeCostOptimized_of_up hup] at h
      exact h
  | latencyOptimized => exact absurd hs hstrategy
  | roundRobin =>
      rw [hs] at h
      have hpick : RoundRobinPick cfg (r.reportFailure now p) p _ :=
        roundRobinPick_iff.mpr ⟨h, rfl⟩
      exact (roundRobinPick_iff.mp ((roundRobinPick_of_up hup).mp hpick)).1
  | failover =>
      rw [hs] at h
      simp only [routeFailover_of_up hup] at h
      exact h
  | smart =>
      rw [hs] at h
      exact smart_chosen_of_up hnodup hp hup h

/-- When a failure draws a route to its provider. -/
theorem attracts_iff (hnodup : (cfg.providers.map ProviderConfig.name).Nodup) (hp : p ≠ [])
    (walk : Traversal (Σ _ : Str, ProviderHealth)) (sort : Descending Candidate Candidate.score) :
    ((r.route walk sort cfg req).1.provider ≠ p ∧
        ((r.reportFailure now p).route walk sort cfg req).1.provider = p) ↔
      Attracts cfg r req p := by
  cases hnamed : splitAtColon (resolveModelAlias cfg req.model) with
  | some named =>
      -- both routes go to the provider that the request names
      have hdirect : ∀ r' : Router, (r'.route walk sort cfg req).1.provider = named.1 := by
        intro r'
        unfold route
        rw [hnamed]
      rw [hdirect, hdirect]
      constructor
      · intro h
        exact absurd h.2 h.1
      · intro h
        cases hnamed.symm.trans h.plain
  | none =>
      by_cases hup : (r.reportFailure now p).isAvailable p = true
      · by_cases hstrategy : r.strategy = .latencyOptimized
        · have hlatency : ∀ r' : Router, r'.strategy = .latencyOptimized →
              (r'.route walk sort cfg req).1 = routeLatencyOptimized cfg r' := by
            intro r' h'
            rw [route_of_plain hnamed, h']
          rw [hlatency r hstrategy, hlatency (r.reportFailure now p) hstrategy,
            routeLatencyOptimized_failure hnodup hp hup]
          constructor
          · intro h
            exact ⟨hnamed, hstrategy, h.1, h.2⟩
          · intro h
            exact ⟨h.unseen, h.overtakes⟩
        · constructor
          · intro h
            exact absurd (not_chosen_after_failure hnodup hp hup hnamed hstrategy walk sort h.2) h.1
          · intro h
            exact absurd h.strategy hstrategy
      · constructor
        · intro h
          have hpick : Picks cfg (r.reportFailure now p) p _ :=
            (picks_iff hnamed).mpr ⟨walk, sort, h.2, rfl⟩
          obtain ⟨hcost, hchosen⟩ := chosen_of_down hp hup hpick
          rw [route_of_plain hnamed, hcost] at h
          exact absurd hchosen h.1
        · intro h
          exact absurd (isAvailable_of_unseen h.unseen) hup

/-- **Failures and traffic.**  For every configuration with distinct, non-empty
names, every router state, request and provider: a route that would not choose
the provider does not choose it after a failure of it either, unless the latency
strategy is asked, the provider has no record yet, and a latency of zero makes it
the fastest. -/
theorem failure_never_attracts_iff (cfg : GatewayConfig)
    (hnodup : (cfg.providers.map ProviderConfig.name).Nodup)
    (hnames : ∀ pc ∈ cfg.providers, pc.name ≠ []) (r : Router) (req : ChatRequest) (now : Time)
    (p : Str) (hp : ∃ pc ∈ cfg.providers, pc.name = p)
    (walk : Traversal (Σ _ : Str, ProviderHealth)) (sort : Descending Candidate Candidate.score) :
    ((r.route walk sort cfg req).1.provider ≠ p →
        ((r.reportFailure now p).route walk sort cfg req).1.provider ≠ p) ↔
      ¬ Attracts cfg r req p := by
  obtain ⟨pc, hpc, rfl⟩ := hp
  rw [← attracts_iff hnodup (hnames pc hpc) walk sort]
  constructor
  · intro hlaw hdrawn
    exact hlaw hdrawn.1 hdrawn.2
  · intro hnever hbefore hafter
    exact hnever ⟨hbefore, hafter⟩

/-- Two entries under the latency strategy. -/
def timedConfig : GatewayConfig where
  defaultStrategy := .latencyOptimized
  providers :=
    [{ name := str "groq", models := [str "gemma2-9b-it"] },
     { name := str "together", models := [str "Qwen/Qwen2.5-72B-Instruct"] }]

/-- The router after an answer of the first entry in 120 ms. -/
def afterAnswer : Router := (init timedConfig).afterReports [.success 0 (str "groq") 120]

/-- The law for the first failure of the second entry. -/
theorem failure_never_attracts_iff_unseen :
    ((afterAnswer.route default default timedConfig { model := str "auto" }).1.provider ≠
          str "together" →
        ((afterAnswer.reportFailure 1 (str "together")).route default default timedConfig
          { model := str "auto" }).1.provider ≠ str "together") ↔
      ¬ Attracts timedConfig afterAnswer { model := str "auto" } (str "together") :=
  failure_never_attracts_iff timedConfig (by decide) (by decide) afterAnswer
    { model := str "auto" } 1 (str "together")
    ⟨{ name := str "together", models := [str "Qwen/Qwen2.5-72B-Instruct"] }, by decide, rfl⟩
    default default

/-- The route that went to the first entry goes to the second once that has
failed. -/
theorem first_failure_attracts :
    ¬ ∀ (cfg : GatewayConfig) (r : Router) (req : ChatRequest) (now : Time) (p : Str),
      (cfg.providers.map ProviderConfig.name).Nodup → (∀ pc ∈ cfg.providers, pc.name ≠ []) →
      Reachable cfg r → (∃ pc ∈ cfg.providers, pc.name = p) → ∀ walk sort,
        (r.route walk sort cfg req).1.provider ≠ p →
          ((r.reportFailure now p).route walk sort cfg req).1.provider ≠ p := by
  intro h
  have hreachable : Reachable timedConfig afterAnswer :=
    ⟨[.report (.success 0 (str "groq") 120)], rfl⟩
  have hsecond : ∃ pc ∈ timedConfig.providers, pc.name = str "together" :=
    ⟨{ name := str "together", models := [str "Qwen/Qwen2.5-72B-Instruct"] }, by decide, rfl⟩
  have hlaw := h timedConfig afterAnswer { model := str "auto" } 1 (str "together") (by decide)
    (by decide) hreachable hsecond default default
  exact absurd (by with_unfolding_all decide) (hlaw (by with_unfolding_all decide))

end Router

end Gateway
