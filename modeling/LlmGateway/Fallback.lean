import LlmGateway.Registration

/-!
# Falling back

Each routing path brings its own fallback chain: the direct path the names with
an available health record, `failover` the later usable entries, `smart` the
providers of the next three candidates, and the other strategies none.  `TurnsTo`
says so of the health records and the configuration, by what a chain has in which
order, and `turnsTo_iff` that it is the chain of `route`.

`fallback_answers_iff` says exactly when a request whose primary fails is still
answered with 200.
-/

namespace Gateway

/-- The names that a request turns to when its primary fails.  With a provider in its
model: the other names whose health record says available, in the order in which the map
is walked.  Otherwise the strategy decides: for failover the names of the eligible entries
behind the first, in the order of the configuration; for smart those of the second to the
fourth of the sorted open pairs; for the others none. -/
def TurnsTo [Rounding] (w : World) (cfg : GatewayConfig) (r : Router) (req : ChatRequest)
    (chain : List Str) : Prop :=
  match splitAtColon (resolveModelAlias cfg req.model) with
  | some (provider, _) =>
      chain.Sublist ((w.walk.order r.health.entries).map Sigma.fst) ∧
        ∀ name, name ∈ chain ↔
          name ≠ provider ∧ ∃ record ∈ r.health.lookup name, record.available = true
  | none =>
      match r.strategy with
      | .failover =>
          chain.Sublist (cfg.providers.map ProviderConfig.name) ∧
            ∀ name, name ∈ chain ↔ ∃ pc ∈ cfg.providers,
              pc.name = name ∧ r.Eligible pc ∧ ¬ Router.FirstEligible cfg r pc
      | .smart =>
          chain = ((w.sort.sort ((Router.openPairs cfg r).map fun pair =>
            ⟨pair.1.name, pair.2, Router.pointsOf cfg r pair⟩)).tail.take 3).map Candidate.provider
      | .costOptimized | .latencyOptimized | .roundRobin => chain = []

/-- The backups of the routing path a request takes. -/
def Router.backups [Rounding] (walk : Traversal (Σ _ : Str, ProviderHealth))
    (sort : Descending Candidate Candidate.score) (cfg : GatewayConfig) (req : ChatRequest)
    (r : Router) : List Str :=
  match splitAtColon (resolveModelAlias cfg req.model) with
  | some (provider, _) =>
      ((walk.order r.health.entries).filter fun e => e.1 ≠ provider ∧ e.2.available).map Sigma.fst
  | none =>
      match r.strategy with
      | .failover => (r.usable cfg).tail.map ProviderConfig.name
      | .smart => ((sort.sort (r.candidates cfg)).tail.take 3).map Candidate.provider
      | .costOptimized | .latencyOptimized | .roundRobin => []

/-- The chain of a decision is the list of backups. -/
theorem Router.route_fallbackChain [Rounding] {walk : Traversal (Σ _ : Str, ProviderHealth)}
    {sort : Descending Candidate Candidate.score} {cfg : GatewayConfig} {req : ChatRequest}
    {r : Router} :
    (r.route walk sort cfg req).1.fallbackChain = r.backups walk sort cfg req := by
  unfold route backups
  cases splitAtColon (resolveModelAlias cfg req.model) with
  | some direct =>
      obtain ⟨provider, model⟩ := direct
      simp only
      induction walk.order r.health.entries with
      | nil => rfl
      | cons e entries ih =>
          by_cases h : e.1 ≠ provider ∧ e.2.available = true
          · simp only [List.filterMap_cons, if_pos h, ih, List.filter_cons, decide_eq_true h,
              if_true, List.map_cons]
          · simp only [List.filterMap_cons, if_neg h, ih, List.filter_cons, decide_eq_false h,
              Bool.false_eq_true, if_false]
  | none =>
      cases r.strategy with
      | costOptimized => rfl
      | latencyOptimized => rfl
      | roundRobin =>
          simp only [routeRoundRobin]
          split <;> rfl
      | failover =>
          simp only [routeFailover]
          cases r.usable cfg <;> rfl
      | smart =>
          simp only [routeSmart]
          cases sort.sort (r.candidates cfg) <;> rfl

/-- Of the elements of a list without repetition a sublist is known by its elements. -/
theorem eq_of_sublist_of_mem_iff {α : Type} {l front back : List α} (hnodup : l.Nodup)
    (hfront : front.Sublist l) (hback : back.Sublist l) (h : ∀ a, a ∈ front ↔ a ∈ back) :
    front = back := by
  induction hfront generalizing back with
  | slnil => exact (List.sublist_nil.mp hback).symm
  | @cons kept l a hkept ih =>
      obtain ⟨hnew, hnodup⟩ := List.nodup_cons.mp hnodup
      cases hback with
      | cons _ hback => exact ih hnodup hback h
      | cons_cons _ hback => exact absurd (hkept.subset ((h a).mpr List.mem_cons_self)) hnew
  | @cons_cons kept l a hkept ih =>
      obtain ⟨hnew, hnodup⟩ := List.nodup_cons.mp hnodup
      cases hback with
      | cons _ hback => exact absurd (hback.subset ((h a).mp List.mem_cons_self)) hnew
      | @cons_cons other _ _ hback =>
          refine congrArg (a :: ·) (ih hnodup hback fun b => ?_)
          have hb := h b
          simp only [List.mem_cons] at hb
          constructor
          · intro hin
            exact (hb.mp (.inr hin)).resolve_left fun heq => hnew (heq ▸ hkept.subset hin)
          · intro hin
            exact (hb.mpr (.inr hin)).resolve_left fun heq => hnew (heq ▸ hback.subset hin)

namespace Router

variable {cfg : GatewayConfig} {r : Router}

/-- The names that the direct path turns to. -/
theorem mem_directBackups {walk : Traversal (Σ _ : Str, ProviderHealth)} {provider name : Str} :
    name ∈ ((walk.order r.health.entries).filter fun e => e.1 ≠ provider ∧ e.2.available).map
        Sigma.fst ↔
      name ≠ provider ∧ ∃ record ∈ r.health.lookup name, record.available = true := by
  simp only [List.mem_map, List.mem_filter, decide_eq_true_eq, (walk.perm _).mem_iff]
  constructor
  · rintro ⟨⟨key, record⟩, ⟨hin, hne, havailable⟩, rfl⟩
    exact ⟨hne, record, AList.mem_lookup_iff.mpr hin, havailable⟩
  · rintro ⟨hne, record, hrecord, havailable⟩
    exact ⟨⟨name, record⟩, ⟨AList.mem_lookup_iff.mp hrecord, hne, havailable⟩, rfl⟩

/-- The names of the eligible entries behind the first. -/
theorem mem_laterUsable (hnodup : (cfg.providers.map ProviderConfig.name).Nodup) {name : Str} :
    name ∈ (r.usable cfg).tail.map ProviderConfig.name ↔ ∃ pc ∈ cfg.providers,
      pc.name = name ∧ r.Eligible pc ∧ ¬ FirstEligible cfg r pc := by
  have hnames : (r.usable cfg).Nodup :=
    (List.filter_sublist.nodup (List.Nodup.of_map _ hnodup) : (r.usable cfg).Nodup)
  rw [List.mem_map]
  cases husable : r.usable cfg with
  | nil =>
      simp only [List.tail_nil, List.not_mem_nil, false_and, exists_false, false_iff]
      rintro ⟨pc, hpc, -, heligible, -⟩
      have hin := mem_usable_iff.mpr ⟨hpc, heligible⟩
      rw [husable] at hin
      cases hin
  | cons first later =>
      rw [husable, List.nodup_cons] at hnames
      have hfirst : ∀ {pc}, FirstEligible cfg r pc ↔ pc = first := fun {pc} => by
        rw [← firstEligible_iff, husable]
        simp [eq_comm]
      have hmem : ∀ {pc}, pc ∈ cfg.providers ∧ r.Eligible pc ↔ pc = first ∨ pc ∈ later :=
        fun {pc} => by rw [← mem_usable_iff, husable, List.mem_cons]
      constructor
      · rintro ⟨pc, hpc, rfl⟩
        obtain ⟨hin, heligible⟩ := hmem.mpr (.inr hpc)
        refine ⟨pc, hin, rfl, heligible, fun h => hnames.1 ?_⟩
        exact hfirst.mp h ▸ hpc
      · rintro ⟨pc, hin, rfl, heligible, hlater⟩
        exact ⟨pc, (hmem.mp ⟨hin, heligible⟩).resolve_left fun h => hlater (hfirst.mpr h), rfl⟩

end Router

/-- What a request turns to is the chain of its routing path. -/
theorem turnsTo_iff [Rounding] {w : World} {cfg : GatewayConfig} {r : Router} {req : ChatRequest}
    {chain : List Str} (hnodup : (cfg.providers.map ProviderConfig.name).Nodup) :
    TurnsTo w cfg r req chain ↔ chain = r.backups w.walk w.sort cfg req := by
  unfold TurnsTo Router.backups
  cases splitAtColon (resolveModelAlias cfg req.model) with
  | some direct =>
      obtain ⟨provider, model⟩ := direct
      simp only
      have hkeys : ((w.walk.order r.health.entries).map Sigma.fst).Nodup :=
        ((w.walk.perm r.health.entries).map Sigma.fst).nodup_iff.mpr r.health.nodupKeys
      constructor
      · rintro ⟨hsub, hmem⟩
        exact eq_of_sublist_of_mem_iff hkeys hsub (List.filter_sublist.map _)
          fun name => (hmem name).trans Router.mem_directBackups.symm
      · rintro rfl
        exact ⟨List.filter_sublist.map _, fun name => Router.mem_directBackups⟩
  | none =>
      cases r.strategy with
      | costOptimized => exact Iff.rfl
      | latencyOptimized => exact Iff.rfl
      | roundRobin => exact Iff.rfl
      | failover =>
          have hsub : ((r.usable cfg).tail.map ProviderConfig.name).Sublist
              (cfg.providers.map ProviderConfig.name) :=
            ((List.tail_sublist _).trans List.filter_sublist).map _
          constructor
          · rintro ⟨hchain, hmem⟩
            exact eq_of_sublist_of_mem_iff hnodup hchain hsub
              fun name => (hmem name).trans (Router.mem_laterUsable hnodup).symm
          · rintro rfl
            exact ⟨hsub, fun name => Router.mem_laterUsable hnodup⟩
      | smart =>
          simp only
          rw [Router.candidates_eq_openPairs]

/-- Of these providers, called one after another from call `k` on, one answers
and the earlier ones end in an exception the handler catches. -/
def AnswersFrom (w : World) (req : ChatRequest) (k : Nat) (members : List Provider) : Prop :=
  ∃ i fb, members[i]? = some fb ∧ (fallbackOutcome w req (k + i) fb).Answered ∧
    ∀ j < i, ∀ other, members[j]? = some other → (fallbackOutcome w req (k + j) other).Threw

variable {w : World} {req : ChatRequest}

theorem answersFrom_nil {k : Nat} : ¬ AnswersFrom w req k [] := by
  intro h
  obtain ⟨i, fb, hget, -⟩ := h
  cases hget

/-- The first member answers, or it throws and one of the rest does. -/
theorem answersFrom_cons {k : Nat} {fb : Provider} {members : List Provider} :
    AnswersFrom w req k (fb :: members) ↔
      (fallbackOutcome w req k fb).Answered ∨
        (fallbackOutcome w req k fb).Threw ∧ AnswersFrom w req (k + 1) members := by
  constructor
  · intro h
    obtain ⟨i, other, hget, hanswered, hthrew⟩ := h
    cases i with
    | zero =>
        cases hget
        exact .inl hanswered
    | succ i =>
        refine .inr ⟨hthrew 0 (by omega) fb rfl, i, other, hget, ?_, ?_⟩
        · rwa [Nat.add_right_comm, Nat.add_assoc]
        · intro j hj other' hget'
          have := hthrew (j + 1) (by omega) other' hget'
          rwa [Nat.add_right_comm, Nat.add_assoc]
  · intro h
    rcases h with hanswered | ⟨hthrew, i, other, hget, hanswered, hrest⟩
    · exact ⟨0, fb, rfl, hanswered, fun j hj => absurd hj (by omega)⟩
    · refine ⟨i + 1, other, hget, ?_, ?_⟩
      · rwa [Nat.add_right_comm, Nat.add_assoc] at hanswered
      · intro j hj other' hget'
        cases j with
        | zero =>
            cases hget'
            exact hthrew
        | succ j =>
            have := hrest j (by omega) other' hget'
            rwa [Nat.add_right_comm, Nat.add_assoc] at this

/-- Along a chain of names, from call `k` on, a registered provider answers when it is its
turn, and the registered ones in front of it are tried at least once. -/
def AnswersAlong (w : World) (registry : ProviderRegistry) (req : ChatRequest) (k : Nat)
    (chain : List Str) : Prop :=
  ∃ before name after fb, chain = before ++ name :: after ∧ registry.get name = some fb ∧
    (fallbackOutcome w req (k + before.countP fun n => (registry.get n).isSome) fb).Answered ∧
    ∀ n ∈ before, ∀ other, registry.get n = some other → 0 ≤ other.maxRetries

/-- A provider that does not answer throws if it is tried. -/
theorem fallbackOutcome_cases (w : World) (req : ChatRequest) (k : Nat) (fb : Provider) :
    (fallbackOutcome w req k fb).Answered ∨
      ((fallbackOutcome w req k fb).Threw ↔ 0 ≤ fb.maxRetries) := by
  have hnull : fallbackOutcome w req k fb = .nullException ↔ fb.maxRetries < 0 :=
    Provider.chat_null_iff
  cases houtcome : fallbackOutcome w req k fb with
  | answered resp => exact .inl trivial
  | threw e =>
      rw [houtcome] at hnull
      refine .inr (iff_of_true trivial ?_)
      by_contra hneg
      cases hnull.mpr (by omega)
  | nullException =>
      exact .inr (iff_of_false id (by have := hnull.mp houtcome; omega))

/-- A name that is not registered is passed over. -/
theorem answersAlong_skip {registry : ProviderRegistry} {name : Str}
    (h : registry.get name = none) {k : Nat} {chain : List Str} :
    AnswersAlong w registry req k (name :: chain) ↔ AnswersAlong w registry req k chain := by
  constructor
  · rintro ⟨before, name', after, fb, hsplit, hget, hanswered, hfront⟩
    cases before with
    | nil =>
        obtain ⟨rfl, -⟩ := List.cons.inj hsplit
        cases h.symm.trans hget
    | cons n before =>
        obtain ⟨rfl, rfl⟩ := List.cons.inj hsplit
        rw [List.countP_cons_of_neg (by simp [h])] at hanswered
        exact ⟨before, name', after, fb, rfl, hget, hanswered, fun n hn =>
          hfront n (List.mem_cons_of_mem _ hn)⟩
  · rintro ⟨before, name', after, fb, rfl, hget, hanswered, hfront⟩
    refine ⟨name :: before, name', after, fb, rfl, hget, ?_, ?_⟩
    · rwa [List.countP_cons_of_neg (by simp [h])]
    · refine List.forall_mem_cons.mpr ⟨fun other hother => ?_, hfront⟩
      cases h.symm.trans hother

/-- A registered provider answers, or it is tried and the rest of the chain has an
answer. -/
theorem answersAlong_call {registry : ProviderRegistry} {name : Str} {fb : Provider}
    (h : registry.get name = some fb) {k : Nat} {chain : List Str} :
    AnswersAlong w registry req k (name :: chain) ↔
      (fallbackOutcome w req k fb).Answered ∨
        0 ≤ fb.maxRetries ∧ AnswersAlong w registry req (k + 1) chain := by
  constructor
  · rintro ⟨before, name', after, fb', hsplit, hget, hanswered, hfront⟩
    cases before with
    | nil =>
        obtain ⟨rfl, -⟩ := List.cons.inj hsplit
        cases h.symm.trans hget
        exact .inl hanswered
    | cons n before =>
        obtain ⟨rfl, rfl⟩ := List.cons.inj hsplit
        rw [List.countP_cons_of_pos (by simp [h]), Nat.add_comm _ 1, ← Nat.add_assoc] at hanswered
        exact .inr ⟨hfront _ List.mem_cons_self fb h, before, name', after, fb', rfl, hget,
          hanswered, fun n hn => hfront n (List.mem_cons_of_mem _ hn)⟩
  · rintro (hanswered | ⟨htried, before, name', after, fb', rfl, hget, hanswered, hfront⟩)
    · exact ⟨[], name, chain, fb, rfl, h, hanswered, List.forall_mem_nil _⟩
    · refine ⟨name :: before, name', after, fb', rfl, hget, ?_, ?_⟩
      · rwa [List.countP_cons_of_pos (by simp [h]), Nat.add_comm _ 1, ← Nat.add_assoc]
      · refine List.forall_mem_cons.mpr ⟨fun other hother => ?_, hfront⟩
        cases h.symm.trans hother
        exact htried

/-- The registered members of a chain lead to an answer when the chain does. -/
theorem answersFrom_iff_along {registry : ProviderRegistry} (chain : List Str) (k : Nat) :
    AnswersFrom w req k (chain.filterMap registry.get) ↔ AnswersAlong w registry req k chain := by
  induction chain generalizing k with
  | nil =>
      refine iff_of_false answersFrom_nil ?_
      rintro ⟨before, name, after, fb, hsplit, -⟩
      cases before <;> cases hsplit
  | cons name chain ih =>
      cases hget : registry.get name with
      | none => rw [List.filterMap_cons_none hget, answersAlong_skip hget, ih]
      | some fb =>
          rw [List.filterMap_cons_some hget, answersFrom_cons, answersAlong_call hget, ih]
          rcases fallbackOutcome_cases w req k fb with hanswered | hthrew
          · exact iff_of_true (.inl hanswered) (.inl hanswered)
          · rw [hthrew]

/-- The loop ends in an answer exactly when the registered members of the chain
lead to one. -/
theorem tryFallbacks_answered_iff {registry : ProviderRegistry} (chain : List Str) (k : Nat)
    (router : Router) :
    (∃ resp, (tryFallbacks w registry req chain k router).finish = .answered resp) ↔
      AnswersFrom w req k (chain.filterMap registry.get) := by
  induction chain generalizing k router with
  | nil => simp [tryFallbacks, answersFrom_nil]
  | cons fbName chain ih =>
      cases hget : registry.get fbName with
      | none =>
          rw [tryFallbacks_skip hget, List.filterMap_cons_none hget]
          exact ih k router
      | some fb =>
          rw [tryFallbacks_call hget, List.filterMap_cons_some hget, answersFrom_cons,
            ← ih (k + 1) (router.reportFailure w.later fbName)]
          cases fallbackOutcome w req k fb with
          | answered resp => simp [ChatOutcome.Answered]
          | threw e => simp [ChatOutcome.Answered, ChatOutcome.Threw, Called.after]
          | nullException => simp [ChatOutcome.Answered, ChatOutcome.Threw]

/-- After a primary that did not answer, the chain decides. -/
theorem callProviders_answered_iff {registry : ProviderRegistry} {decision : RouteDecision}
    {primary : Provider} {router : Router}
    (hfails : ¬ (primaryOutcome w req decision primary).Answered) :
    (∃ resp, (callProviders w registry decision primary req router).finish = .answered resp) ↔
      0 ≤ primary.maxRetries ∧
        AnswersFrom w req 1 (decision.fallbackChain.filterMap registry.get) := by
  have hnull : primaryOutcome w req decision primary = .nullException ↔ primary.maxRetries < 0 :=
    Provider.chat_null_iff
  rw [callProviders_eq]
  cases houtcome : primaryOutcome w req decision primary with
  | answered resp => exact absurd (houtcome ▸ trivial) hfails
  | threw e =>
      have hretries : 0 ≤ primary.maxRetries := by
        by_contra hneg
        rw [hnull.mpr (by omega)] at houtcome
        cases houtcome
      simp only [Called.after, tryFallbacks_answered_iff, hretries, true_and]
  | nullException =>
      have hneg := hnull.mp houtcome
      simp only [reduceCtorEq, exists_false, false_iff, not_and]
      exact fun h => absurd h (by omega)

/-- **Fallback.**  For distinct provider names, a request of `/v1/chat/completions` that
gets to its routing step, and a registered primary that does not answer: the handler
returns 200 exactly when the primary is tried at least once, the cache takes the response,
and along the names that the request turns to a registered provider answers at its turn,
with those in front of it tried at least once. -/
theorem fallback_answers_iff [Rounding] (P : Platform) (w : World) (http : HttpRequest)
    (s : Server) (req : ChatRequest) (s' : Server)
    (hrouting : toRouting P w http s = some (req, s'))
    (hregistry : s'.registry = ProviderRegistry.initializeFrom s'.config.providers {})
    (hnodup : (s'.config.providers.map ProviderConfig.name).Nodup) (primary : Provider)
    (hprimary : s'.registry.get (s'.router.route w.walk w.sort s'.config req).1.provider =
      some primary)
    (hfails : ¬ (primaryOutcome w req (s'.router.route w.walk w.sort s'.config req).1
      primary).Answered) :
    (chatCompletions P w http s).reply.HasStatus 200 ↔
      0 ≤ primary.maxRetries ∧ CanStore s'.config.cache req ∧
        ∃ chain, TurnsTo w s'.config s'.router req chain ∧
          AnswersAlong w s'.registry req 1 chain := by
  have hnamed := Option.isSome_of_eq_some hprimary
  rw [hregistry] at hnamed
  obtain ⟨pc, -, hpc, hkeyed⟩ := Router.keyedName_iff.mp hnamed
  rw [chatCompletions_of_toRouting hrouting,
    routeStep_of_registered (hpc ▸ hkeyed.name_ne_nil) hprimary, callStep_200_iff,
    callProviders_answered_iff hfails, Router.route_fallbackChain, answersFrom_iff_along]
  simp only [turnsTo_iff hnodup, exists_eq_left]
  tauto

/-- Two providers with keys and the built-in prices. -/
def backupConfig (strategy : RoutingStrategy) : GatewayConfig :=
  setDefaultPricing
    { defaultStrategy := strategy
      providers :=
        [{ name := str "groq", apiKey := str "k", models := [str "llama-3.1-8b-instant"] },
         { name := str "openai", apiKey := str "k", models := [str "gpt-4o-mini"] }] }

/-- The first provider is down; the other answers with an empty object. -/
def groqDown : World where
  ordered := noDelay
  upstream _ p _ _ :=
    if p.kind = .groq then ⟨.failed (str "timeout"), 0⟩
    else ⟨.answered 200 [] (.ok (.object [])), 0⟩

/-- A request with one message for a model that names no provider. -/
def plainHttp : HttpRequest where
  body := some (.object
    [(str "model", .string (str "auto")),
     (str "messages", .array [.object [(str "content", .string (str "hi"))]])])

def plainRequest : ChatRequest :=
  { requestId := generateRequestId 0, model := str "auto", messages := [⟨str "user", str "hi"⟩] }

/-- The state after a lookup that missed. -/
def afterMiss (s : Server) : Server :=
  { s with
    cache := { s.cache with misses := s.cache.misses + 1 }
    metrics := s.metrics.incRequests.incCacheMisses }

/-- The provider registered for a name with the default settings. -/
def keyedProvider (kind : ProviderKind) : Provider :=
  ⟨kind, str "k", kind.defaultBaseUrl, 30000, 2⟩

/-- Under `failover` the second provider answers for the first. -/
theorem fallback_answers_iff_failover :
    (chatCompletions (cLocale fnv1a) groqDown plainHttp
      (Server.init (backupConfig .failover))).reply.HasStatus 200 := by
  have hlaw := fallback_answers_iff (cLocale fnv1a) groqDown plainHttp
    (Server.init (backupConfig .failover)) plainRequest
    (afterMiss (Server.init (backupConfig .failover))) rfl rfl (by decide) (keyedProvider .groq)
    (by decide) (by decide)
  refine hlaw.mpr ⟨by decide, .inr (.inr (by decide)), [str "openai"],
    (turnsTo_iff (by decide)).mpr (by decide), ?_⟩
  exact ⟨[], str "openai", [], keyedProvider .openai, rfl, by decide, by decide,
    List.forall_mem_nil _⟩

/-- The cost strategy brings no chain: the request fails although a registered
provider would have answered it. -/
theorem cost_strategy_has_no_backup :
    ¬ ∀ (P : Platform) (cfg : GatewayConfig) (w : World) (http : HttpRequest) (req : ChatRequest)
        (s' : Server) (primary : Provider),
      (cfg.providers.map ProviderConfig.name).Nodup → (∀ pc ∈ cfg.providers, pc.name ≠ []) →
      toRouting P w http (Server.init cfg) = some (req, s') →
      s'.registry.get (s'.router.route w.walk w.sort cfg req).1.provider = some primary →
      ¬ (primaryOutcome w req (s'.router.route w.walk w.sort cfg req).1 primary).Answered →
      (∃ pc ∈ cfg.providers, pc.name ≠ (s'.router.route w.walk w.sort cfg req).1.provider ∧
        pc.enabled = true ∧ s'.router.isAvailable pc.name = true ∧
        ∃ fb, s'.registry.get pc.name = some fb ∧ ∀ k, (fallbackOutcome w req k fb).Answered) →
        (chatCompletions P w http (Server.init cfg)).reply.HasStatus 200 := by
  intro h
  have hserved := h (cLocale fnv1a) (backupConfig .costOptimized) groqDown plainHttp plainRequest
    (afterMiss (Server.init (backupConfig .costOptimized))) (keyedProvider .groq) (by decide)
    (by decide) rfl (by with_unfolding_all decide) (by with_unfolding_all decide)
    ⟨(backupConfig .costOptimized).providers.get ⟨1, by decide⟩, by decide,
      by with_unfolding_all decide, rfl, by decide, keyedProvider .openai, by decide,
      fun _ => trivial⟩
  have hfailed : ¬ (chatCompletions (cLocale fnv1a) groqDown plainHttp
      (Server.init (backupConfig .costOptimized))).reply.HasStatus 200 := by
    with_unfolding_all decide
  exact hfailed hserved

end Gateway
