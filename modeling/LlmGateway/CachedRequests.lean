import LlmGateway.Fallback
import LlmGateway.Summary

/-!
# Cached requests in the two accounts

The cache counts what its hits save, and the summary of the ledger has a field
for cached requests and one for their savings.  The handler returns a hit before
it comes to the ledger, and nothing marks a record as cached; so the two agree
over exactly those runs in which nothing is served from the cache and no request
is left without its reply after it was recorded.
-/

namespace Gateway

/-- The client reads that the response came from the cache. -/
def Reply.FromCache : Reply → Prop
  | .response resp => (str "X-Gateway-Cache", str "HIT") ∈ resp.headers
  | .escaped _ | .hangs | .crashes => False

/-- The reply never comes. -/
def Reply.Hangs : Reply → Prop
  | .hangs => True
  | .response _ | .escaped _ | .crashes => False

instance : DecidablePred Reply.FromCache
  | .response _ => inferInstanceAs (Decidable (_ ∈ _))
  | .escaped _ | .hangs | .crashes => .isFalse id

instance : DecidablePred Reply.Hangs
  | .hangs => .isTrue trivial
  | .response _ | .escaped _ | .crashes => .isFalse id

/-- The steps of a run whose reply is of a kind. -/
def countReplies (kind : Reply → Prop) [DecidablePred kind] (steps : List Step) : ℤ :=
  steps.countP fun step => kind step.served.reply

/-- The ledger and the cache agree on the hits of a run. -/
structure HitsAgree (P : Platform) (start : Server) (incoming : List Incoming) : Prop where
  cachedRequests : ((finalState P start incoming).costs.getSummary []).cachedRequests =
    countReplies Reply.FromCache (run P start incoming)
  totalRequests : ((finalState P start incoming).costs.getSummary []).totalRequests =
    countReplies (Reply.HasStatus 200) (run P start incoming)
  savings : ((finalState P start incoming).costs.getSummary []).cacheSavingsUsd =
    (finalState P start incoming).cache.getStats.savingsUsd

/-- The request passes the limiter and an entry under its key is within its
ttl. -/
def StoredHit (P : Platform) (s : Server) (i : Incoming) : Prop :=
  ∃ req s', parsedRequest i.world i.http = some req ∧
    pastLimiter P i.world req { s with metrics := s.metrics.incRequests } = some s' ∧
    s.config.cache.enabled = true ∧
    ∃ n ∈ s.cache.entries, n.entry.key = makeKey P s.config.cache req ∧
      i.world.now ≤ n.entry.expiresAt

/-- The primary answers, or it throws and its registered fallbacks lead to an
answer. -/
def SomeCallAnswers (w : World) (req : ChatRequest) (registry : ProviderRegistry)
    (decision : RouteDecision) (provider : Provider) : Prop :=
  (primaryOutcome w req decision provider).Answered ∨
    0 ≤ provider.maxRetries ∧ AnswersFrom w req 1 (decision.fallbackChain.filterMap registry.get)

/-- The request gets to a registered primary, a call answers it, and the cache
cannot take the response. -/
def Unstorable (P : Platform) (s : Server) (i : Incoming) : Prop :=
  ∃ req s' provider, toRouting P i.world i.http s = some (req, s') ∧
    (decisionFor i.world req s').provider ≠ [] ∧
    s'.registry.get (decisionFor i.world req s').provider = some provider ∧
    SomeCallAnswers i.world req s'.registry (decisionFor i.world req s') provider ∧
    ¬ CanStore s'.config.cache req

/-! ### The savings of the cache -/

namespace Cache

variable {P : Platform} {cfg : CacheConfig} {now : Time} {req : ChatRequest} {resp : ChatResponse}
  {c c' : Cache}

/-- Only a hit saves. -/
theorem get_savings (h : (c.get P cfg now req).1 = none) :
    (c.get P cfg now req).2.savingsUsd = c.savingsUsd := by
  unfold get at h ⊢
  simp only at h ⊢
  split at h
  · next hoff => rw [if_pos hoff]
  · next hon =>
      rw [if_neg hon]
      split
      · rfl
      · next it hit =>
          rw [hit] at h
          simp only at h
          split
          · rfl
          · next entry hentry =>
              rw [hentry] at h
              simp only at h
              split at h
              · next hold => rw [if_pos hold]
              · cases h

theorem put_savings (h : c.put P cfg now req resp = some c') : c'.savingsUsd = c.savingsUsd := by
  rcases put_cases h with ⟨-, rfl⟩ | ⟨-, c₂, hrun, rfl⟩
  · rfl
  · have hsame := (withoutKey_same P cfg req c).trans (evictToCapacity_same hrun)
    exact (hsame.trans (sweepCrowded_same now c₂)).savingsUsd

/-- A lookup that finds a live entry, on a well-indexed cache. -/
theorem get_isSome_iff (hwf : c.Wf) :
    (c.get P cfg now req).1.isSome ↔ cfg.enabled = true ∧
      ∃ n ∈ c.entries, n.entry.key = makeKey P cfg req ∧ now ≤ n.entry.expiresAt := by
  by_cases hen : cfg.enabled = true
  · have hslots : (c.view.map Lru.Slot.key).Nodup := by
      rw [view, List.map_map]
      exact hwf.keys
    rw [(get_refines P hen now req hwf).1, Option.isSome_map]
    rcases Lru.read_cases now (makeKey P cfg req) c.view with
      ⟨hnone, hread⟩ | ⟨s, hsome, hexpired, hread⟩ | ⟨s, hsome, hlive, hread⟩
    · rw [hread]
      refine iff_of_false (by simp) ?_
      intro hstored
      obtain ⟨-, n, hn, hkey, -⟩ := hstored
      exact Lru.lookup_eq_none.mp hnone n.slot (List.mem_map_of_mem hn) hkey
    · rw [hread]
      refine iff_of_false (by simp) ?_
      intro hstored
      obtain ⟨-, n, hn, hkey, hlive⟩ := hstored
      obtain ⟨hmem, hskey⟩ := Lru.lookup_eq_some hsome
      have hsame : s = n.slot :=
        List.inj_on_of_nodup_map hslots hmem (List.mem_map_of_mem hn) (hskey.trans hkey.symm)
      rw [hsame] at hexpired
      exact absurd hexpired (not_lt.mpr hlive)
    · rw [hread]
      refine iff_of_true rfl ⟨hen, ?_⟩
      obtain ⟨hmem, hskey⟩ := Lru.lookup_eq_some hsome
      obtain ⟨n, hn, rfl⟩ := List.mem_map.mp hmem
      exact ⟨n, hn, hskey, not_lt.mp hlive⟩
  · refine iff_of_false ?_ fun h => hen h.1
    unfold get
    simp [hen]

theorem get_wf (P : Platform) (cfg : CacheConfig) (now : Time) (req : ChatRequest) (hwf : c.Wf) :
    (c.get P cfg now req).2.Wf := by
  by_cases hen : cfg.enabled = true
  · exact (get_refines P hen now req hwf).2.2
  · unfold get
    rw [if_pos (by simp [hen])]
    exact hwf

theorem put_wf (hwf : c.Wf) (h : c.put P cfg now req resp = some c') : c'.Wf := by
  rcases put_cases h with ⟨-, rfl⟩ | ⟨⟨hen, hstream⟩, -⟩
  · exact hwf
  · have hpos : 0 < toSizeT cfg.maxEntries := by
      have hsome := (put_isSome_iff P cfg now req resp c).mp (by rw [h]; rfl)
      simpa [hen, hstream] using hsome
    obtain ⟨c'', hput, hwf'', -⟩ := put_refines P hen now hstream resp hpos hwf
    cases h.symm.trans hput
    exact hwf''

end Cache

/-! ### One request -/

/-- The request was served from the cache. -/
structure HitServed (s : Server) (served : Served) : Prop where
  recorded : served.recorded = []
  costs : served.server.costs = s.costs
  wf : s.cache.Wf → served.server.cache.Wf
  ok : served.reply.HasStatus 200
  fromCache : served.reply.FromCache
  returns : ¬ served.reply.Hangs

/-- The request was answered by a provider and recorded. -/
structure RecordServed (s : Server) (served : Served) : Prop where
  record : ∃ m, m.cacheHit = false ∧ served.recorded = [m] ∧
    served.server.costs.history = CostTracker.pushHistory m s.costs.history
  savings : served.server.cache.savingsUsd = s.cache.savingsUsd
  wf : s.cache.Wf → served.server.cache.Wf
  ok_iff : served.reply.HasStatus 200 ↔ ¬ served.reply.Hangs
  notFromCache : ¬ served.reply.FromCache

/-- The request was neither. -/
structure NotServed (s : Server) (served : Served) : Prop where
  recorded : served.recorded = []
  costs : served.server.costs = s.costs
  savings : served.server.cache.savingsUsd = s.cache.savingsUsd
  wf : s.cache.Wf → served.server.cache.Wf
  notOk : ¬ served.reply.HasStatus 200
  notFromCache : ¬ served.reply.FromCache
  returns : ¬ served.reply.Hangs

section Request

variable {P : Platform} {w : World} {req : ChatRequest} {s s' : Server}

/-- A response that is not 200 and no hit. -/
theorem NotServed.of_error {served : Served} {resp : Response}
    (hreply : served.reply = .response resp) (hstatus : resp.status ≠ 200)
    (hheaders : (str "X-Gateway-Cache", str "HIT") ∉ resp.headers)
    (hrecorded : served.recorded = []) (hcosts : served.server.costs = s.costs)
    (hcache : served.server.cache = s.cache) : NotServed s served where
  recorded := hrecorded
  costs := hcosts
  savings := by rw [hcache]
  wf := by rw [hcache]; exact id
  notOk := by rw [hreply, Reply.hasStatus_response]; exact hstatus
  notFromCache := by rw [hreply]; exact hheaders
  returns := by rw [hreply]; exact id

theorem NotServed.of_before {served : Served} (h : NotServed s' served)
    (hcosts : s'.costs = s.costs) (hsavings : s'.cache.savingsUsd = s.cache.savingsUsd)
    (hwf : s.cache.Wf → s'.cache.Wf) : NotServed s served :=
  { h with
    costs := h.costs.trans hcosts
    savings := h.savings.trans hsavings
    wf := h.wf ∘ hwf }

theorem RecordServed.of_before {served : Served} (h : RecordServed s' served)
    (hcosts : s'.costs = s.costs) (hsavings : s'.cache.savingsUsd = s.cache.savingsUsd)
    (hwf : s.cache.Wf → s'.cache.Wf) : RecordServed s served :=
  { h with
    record := hcosts ▸ h.record
    savings := h.savings.trans hsavings
    wf := h.wf ∘ hwf }

/-- An error response carries no cache header. -/
theorem makeError_headers (status : ℤ) (message : Str) :
    (str "X-Gateway-Cache", str "HIT") ∉ (makeError status message).headers := by
  simp only [makeError, jsonHeader]
  decide

theorem settle_served (P : Platform) (w : World) (req : ChatRequest) (s : Server)
    (decision : RouteDecision) (resp : ChatResponse) (calls : List ProviderCall) :
    RecordServed s (settle P w req decision resp calls s) ∧
      ((settle P w req decision resp calls s).reply.Hangs ↔ ¬ CanStore s.config.cache req) := by
  have hok : (settle P w req decision resp calls s).reply.HasStatus 200 ↔
      CanStore s.config.cache req := settle_200_iff
  have huncached :
      (s.costs.priced (metricsOf w.later req (priceResponse s.costs req resp))).cacheHit =
        false := by
    unfold CostTracker.priced
    split <;> rfl
  have hheaders : (str "X-Gateway-Cache", str "HIT") ∉
      (missResponse req.requestId (priceResponse s.costs req resp) decision).headers := by
    simp only [missResponse, jsonHeader, List.mem_cons, List.not_mem_nil, or_false, Prod.mk.injEq,
      not_or, not_and]
    exact ⟨by decide, by decide, fun h => absurd h (by decide), fun h => absurd h (by decide)⟩
  unfold settle at hok ⊢
  simp only at hok ⊢
  cases hput : (bookkeep w req (priceResponse s.costs req resp) s).cache.put P
      (bookkeep w req (priceResponse s.costs req resp) s).config.cache w.later req
      (priceResponse s.costs req resp) with
  | none =>
      rw [hput] at hok
      have hstore : ¬ CanStore s.config.cache req := fun h =>
        Reply.not_hasStatus_hangs (hok.mpr h)
      refine ⟨⟨⟨_, huncached, rfl, rfl⟩, rfl, id, ?_, id⟩, iff_of_true trivial hstore⟩
      exact iff_of_false Reply.not_hasStatus_hangs (not_not.mpr trivial)
  | some cache =>
      rw [hput] at hok
      have hstatus : (Reply.response
          (missResponse req.requestId (priceResponse s.costs req resp) decision)).HasStatus 200 :=
        Reply.hasStatus_response.mpr rfl
      refine ⟨⟨⟨_, huncached, rfl, rfl⟩, Cache.put_savings hput, fun hwf => Cache.put_wf hwf hput,
        iff_of_true hstatus id, hheaders⟩, ?_⟩
      exact iff_of_false id (not_not.mpr (hok.mp hstatus))

/-- The call step records an answered call. -/
theorem callStep_served {decision : RouteDecision} {provider : Provider}
    (h : ∃ resp, (callProviders w s.registry decision provider req s.router).finish =
      .answered resp) :
    RecordServed s (callStep P w req decision provider s) ∧
      ((callStep P w req decision provider s).reply.Hangs ↔ ¬ CanStore s.config.cache req) := by
  obtain ⟨resp, hfinish⟩ := h
  unfold callStep
  simp only [hfinish]
  let s' : Server :=
    { s with router := (callProviders w s.registry decision provider req s.router).router }
  obtain ⟨hserved, hhangs⟩ := settle_served P w req s' decision resp
    (callProviders w s.registry decision provider req s.router).calls
  exact ⟨hserved.of_before rfl rfl id, hhangs⟩

theorem callStep_notServed {decision : RouteDecision} {provider : Provider}
    (h : ¬ ∃ resp, (callProviders w s.registry decision provider req s.router).finish =
      .answered resp) :
    NotServed s (callStep P w req decision provider s) := by
  unfold callStep
  simp only
  cases hfinish : (callProviders w s.registry decision provider req s.router).finish with
  | answered resp => exact absurd ⟨resp, hfinish⟩ h
  | failed =>
      exact .of_error rfl (show (502 : ℤ) ≠ 200 by decide) (makeError_headers 502 _) rfl rfl rfl
  | crashed => exact ⟨rfl, rfl, rfl, id, Reply.not_hasStatus_crashes, id, id⟩

/-- When the calls of a request end in an answer. -/
theorem someCallAnswers_iff {registry : ProviderRegistry} {decision : RouteDecision}
    {provider : Provider} {router : Router} :
    (∃ resp, (callProviders w registry decision provider req router).finish = .answered resp) ↔
      SomeCallAnswers w req registry decision provider := by
  unfold SomeCallAnswers
  by_cases hanswered : (primaryOutcome w req decision provider).Answered
  · refine iff_of_true ?_ (.inl hanswered)
    obtain ⟨resp, hresp⟩ := ChatOutcome.answered_iff.mp hanswered
    rw [callProviders_eq, hresp]
    exact ⟨resp, rfl⟩
  · rw [callProviders_answered_iff hanswered]
    simp [hanswered]

theorem routeStep_notServed {message : Str} {served : Served}
    (hreply : served.reply = .response (makeError 503 message)) (hrecorded : served.recorded = [])
    (hcosts : served.server.costs = s.costs) (hcache : served.server.cache = s.cache) :
    NotServed s served :=
  .of_error hreply (show (503 : ℤ) ≠ 200 by decide) (makeError_headers 503 _) hrecorded hcosts
    hcache

/-- From the routing step on, a request is recorded if a call of its registered
primary or of the fallbacks answers. -/
theorem routeStep_served (P : Platform) (w : World) (req : ChatRequest) (s : Server) :
    (∃ provider, (decisionFor w req s).provider ≠ [] ∧
      s.registry.get (decisionFor w req s).provider = some provider ∧
      SomeCallAnswers w req s.registry (decisionFor w req s) provider ∧
      RecordServed s (routeStep P w req s) ∧
      ((routeStep P w req s).reply.Hangs ↔ ¬ CanStore s.config.cache req)) ∨
    (¬ ∃ provider, (decisionFor w req s).provider ≠ [] ∧
      s.registry.get (decisionFor w req s).provider = some provider ∧
      SomeCallAnswers w req s.registry (decisionFor w req s) provider) ∧
      NotServed s (routeStep P w req s) := by
  by_cases hname : (decisionFor w req s).provider = []
  · refine .inr ⟨fun h => ?_, ?_⟩
    · obtain ⟨provider, hne, -⟩ := h
      exact hne hname
    · unfold routeStep
      simp only
      rw [if_pos (by simpa [decisionFor] using hname)]
      exact routeStep_notServed rfl rfl rfl rfl
  · cases hget : s.registry.get (decisionFor w req s).provider with
    | none =>
        refine .inr ⟨fun h => ?_, ?_⟩
        · obtain ⟨provider, -, hsome, -⟩ := h
          cases hsome
        · unfold routeStep
          simp only
          simp only [decisionFor] at hname hget
          rw [if_neg (by simpa using hname), hget]
          exact routeStep_notServed rfl rfl rfl rfl
    | some provider =>
        have hrun : routeStep P w req s = callStep P w req (decisionFor w req s) provider
            (afterRoute w req s) := routeStep_of_registered hname hget
        rw [hrun]
        by_cases hanswers : SomeCallAnswers w req s.registry (decisionFor w req s) provider
        · obtain ⟨hserved, hhangs⟩ := callStep_served (P := P) (s := afterRoute w req s)
            (someCallAnswers_iff.mpr hanswers)
          exact .inl ⟨provider, hname, rfl, hanswers, hserved.of_before rfl rfl id, hhangs⟩
        · refine .inr ⟨fun h => ?_, ?_⟩
          · obtain ⟨provider', -, hsome, hanswers'⟩ := h
            cases hsome
            exact hanswers hanswers'
          · have hserved := callStep_notServed (P := P) (s := afterRoute w req s)
              fun h => hanswers (someCallAnswers_iff.mp h)
            exact hserved.of_before rfl rfl id

/-- A body that is not accepted is answered with 400, or its exception
escapes. -/
theorem chatCompletions_notServed {http : HttpRequest} (h : parsedRequest w http = none) :
    NotServed s (chatCompletions P w http s) := by
  have herror : ∀ message : Str, NotServed s
      { reply := .response (makeError 400 message),
        server := { s with metrics := s.metrics.incRequests } } :=
    fun message => .of_error rfl (show (400 : ℤ) ≠ 200 by decide) (makeError_headers 400 message)
      rfl rfl rfl
  unfold parsedRequest at h
  unfold chatCompletions
  cases hbody : http.body with
  | none => exact herror _
  | some body =>
      rw [hbody] at h
      simp only at h ⊢
      cases hread : readRequest (generateRequestId w.requestDraw) body with
      | error e => exact ⟨rfl, rfl, rfl, id, Reply.not_hasStatus_escaped, id, id⟩
      | ok parsed =>
          rw [hread] at h
          cases parsed with
          | none => exact herror _
          | some parsed => cases h

/-- A request that the limiter stops is answered with 429. -/
theorem limitStep_notServed (h : pastLimiter P w req s = none) :
    NotServed s (limitStep P w req s) := by
  have hheaders : ∀ rl : RateLimitResult,
      (str "X-Gateway-Cache", str "HIT") ∉ (throttled rl).headers := by
    intro rl
    simp only [throttled, makeError, jsonHeader, List.mem_append, List.mem_cons, List.not_mem_nil,
      or_false, Prod.mk.injEq, not_or, not_and]
    exact ⟨by decide, fun h => absurd h (by decide), fun h => absurd h (by decide),
      fun h => absurd h (by decide)⟩
  unfold pastLimiter at h
  unfold limitStep
  by_cases hkey : req.apiKey.isEmpty = true
  · rw [if_pos hkey] at h
    cases h
  · rw [if_neg hkey] at h ⊢
    simp only at h ⊢
    split at h
    · cases h
    · next hdenied =>
        rw [if_pos (by simpa using hdenied)]
        exact .of_error rfl (show (429 : ℤ) ≠ 200 by decide) (hheaders _) rfl rfl rfl

/-- The limiter does not touch the cache. -/
theorem pastLimiter_cache (h : pastLimiter P w req s = some s') :
    s'.cache = s.cache ∧ s'.config = s.config := by
  unfold pastLimiter at h
  split at h
  · cases h
    exact ⟨rfl, rfl⟩
  · simp only at h
    split at h
    · cases h
      exact ⟨rfl, rfl⟩
    · cases h

/-- A lookup that misses leaves the savings alone. -/
theorem pastCache_cache (h : pastCache P w req s = some s') :
    s'.cache.savingsUsd = s.cache.savingsUsd ∧ (s.cache.Wf → s'.cache.Wf) ∧
      (s.cache.get P s.config.cache w.now req).1 = none := by
  unfold pastCache at h
  split at h
  · cases h
  · next cache hget =>
      cases h
      have hmiss : (s.cache.get P s.config.cache w.now req).1 = none := by rw [hget]
      have hkept : (s.cache.get P s.config.cache w.now req).2 = cache := by rw [hget]
      refine ⟨?_, fun hwf => ?_, hmiss⟩
      · have := Cache.get_savings hmiss
        rwa [hkept] at this
      · have := Cache.get_wf P s.config.cache w.now req hwf
        rwa [hkept] at this

/-- A lookup that hits is served from the cache. -/
theorem cacheStep_hitServed (h : pastCache P w req s = none) :
    HitServed s (cacheStep P w req s) ∧ (s.cache.get P s.config.cache w.now req).1.isSome := by
  unfold pastCache at h
  unfold cacheStep
  have hwf : s.cache.Wf → (s.cache.get P s.config.cache w.now req).2.Wf :=
    Cache.get_wf P s.config.cache w.now req
  rcases hget : s.cache.get P s.config.cache w.now req with ⟨found, cache⟩
  rw [hget] at hwf
  simp only [hget] at h ⊢
  cases found with
  | none => cases h
  | some cached =>
      exact ⟨⟨rfl, rfl, hwf, Reply.hasStatus_response.mpr rfl,
        List.mem_cons_of_mem _ List.mem_cons_self, id⟩, rfl⟩

/-- A request that gets as far as the routing is recorded, or it is not served. -/
theorem routed_accounts {i : Incoming} {s₂ : Server}
    (hrouting : toRouting P i.world i.http s = some (req, s₂)) (hno : ¬ StoredHit P s i)
    (hcosts : s₂.costs = s.costs) (hsavings : s₂.cache.savingsUsd = s.cache.savingsUsd)
    (hwf : s.cache.Wf → s₂.cache.Wf) :
    (¬ StoredHit P s i ∧ RecordServed s (routeStep P i.world req s₂) ∧
        ((routeStep P i.world req s₂).reply.Hangs ↔ Unstorable P s i)) ∨
      (¬ StoredHit P s i ∧ ¬ Unstorable P s i ∧ NotServed s (routeStep P i.world req s₂)) := by
  rcases routeStep_served P i.world req s₂ with
    ⟨provider, hname, hget, hanswers, hserved, hhangs⟩ | ⟨hnone, hserved⟩
  · refine .inl ⟨hno, hserved.of_before hcosts hsavings hwf, ?_⟩
    rw [hhangs]
    constructor
    · intro hfull
      exact ⟨req, s₂, provider, hrouting, hname, hget, hanswers, hfull⟩
    · intro h
      obtain ⟨req', s', provider', hrouting', -, -, -, hfull⟩ := h
      cases hrouting.symm.trans hrouting'
      exact hfull
  · refine .inr ⟨hno, fun h => ?_, hserved.of_before hcosts hsavings hwf⟩
    obtain ⟨req', s', provider', hrouting', hname, hget, hanswers, -⟩ := h
    cases hrouting.symm.trans hrouting'
    exact hnone ⟨provider', hname, hget, hanswers⟩

/-- Past the limiter a live entry is stored exactly when the lookup finds one. -/
theorem storedHit_iff {i : Incoming} {s₁ : Server} (hwf : s.cache.Wf)
    (hparsed : parsedRequest i.world i.http = some req)
    (hlimit : pastLimiter P i.world req { s with metrics := s.metrics.incRequests } = some s₁) :
    StoredHit P s i ↔ (s₁.cache.get P s₁.config.cache i.world.now req).1.isSome := by
  obtain ⟨hcache, hconfig⟩ := pastLimiter_cache hlimit
  rw [hcache, hconfig, Cache.get_isSome_iff hwf]
  constructor
  · intro h
    obtain ⟨req', s', hreq, hpast, hentry⟩ := h
    cases hparsed.symm.trans hreq
    exact hentry
  · intro h
    exact ⟨req, s₁, hparsed, hlimit, h⟩

/-- What a request of `/v1/chat/completions` is served with: a cached response
when a live entry is stored under its key, a record when a call answers it, and
neither otherwise. -/
theorem serve_accounts {i : Incoming} (hv1 : i.endpoint = .completions) (hwf : s.cache.Wf) :
    (StoredHit P s i ∧ ¬ Unstorable P s i ∧ HitServed s (serve P s i)) ∨
      (¬ StoredHit P s i ∧ RecordServed s (serve P s i) ∧
        ((serve P s i).reply.Hangs ↔ Unstorable P s i)) ∨
      (¬ StoredHit P s i ∧ ¬ Unstorable P s i ∧ NotServed s (serve P s i)) := by
  have hserve : serve P s i = chatCompletions P i.world i.http s := by simp only [serve, hv1]
  have hunroutable : toRouting P i.world i.http s = none → ¬ Unstorable P s i := by
    intro hnone h
    obtain ⟨req, s', provider, hrouting, -⟩ := h
    cases hnone.symm.trans hrouting
  rw [hserve]
  cases hparsed : parsedRequest i.world i.http with
  | none =>
      refine .inr (.inr ⟨fun h => ?_, hunroutable (by simp [toRouting, hparsed]), ?_⟩)
      · obtain ⟨req, s', hreq, -⟩ := h
        cases hparsed.symm.trans hreq
      · exact chatCompletions_notServed hparsed
  | some req =>
      rw [chatCompletions_of_parsed hparsed]
      cases hlimit : pastLimiter P i.world req { s with metrics := s.metrics.incRequests } with
      | none =>
          refine .inr (.inr ⟨fun h => ?_, hunroutable (by simp [toRouting, hparsed, hlimit]), ?_⟩)
          · obtain ⟨req', s', hreq, hpast, -⟩ := h
            cases hparsed.symm.trans hreq
            cases hlimit.symm.trans hpast
          · exact (limitStep_notServed hlimit).of_before rfl rfl id
      | some s₁ =>
          obtain ⟨hcache, -⟩ := pastLimiter_cache hlimit
          have hcosts := (pastLimiter_core hlimit).1.costs
          have hstored := storedHit_iff hwf hparsed hlimit
          rw [limitStep_of_past hlimit]
          cases hpast : pastCache P i.world req s₁ with
          | none =>
              obtain ⟨hserved, hsome⟩ := cacheStep_hitServed hpast
              refine .inl ⟨hstored.mpr hsome,
                hunroutable (by simp [toRouting, hparsed, hlimit, hpast]), ?_⟩
              exact { hserved with
                costs := hserved.costs.trans hcosts
                wf := fun h => hserved.wf (by rwa [hcache]) }
          | some s₂ =>
              obtain ⟨hsavings, hkept, hmiss⟩ := pastCache_cache hpast
              have hrouting : toRouting P i.world i.http s = some (req, s₂) := by
                simp [toRouting, hparsed, hlimit, hpast]
              have hno : ¬ StoredHit P s i := by
                rw [hstored, hmiss]
                exact Bool.false_ne_true
              rw [cacheStep_of_past hpast]
              refine .inr (routed_accounts hrouting hno ?_ ?_ ?_)
              · exact (pastCache_core hpast).1.costs.trans hcosts
              · rw [hsavings, hcache]
              · exact fun h => hkept (by rwa [hcache])

end Request

/-! ### Runs -/

section Runs

variable {P : Platform} {s : Server} {i : Incoming}

/-- What one request adds to the two accounts. -/
structure Accounted (P : Platform) (s : Server) (i : Incoming) : Prop where
  wf : (serve P s i).server.cache.Wf
  fromCache_iff : (serve P s i).reply.FromCache ↔ StoredHit P s i
  hangs_iff : (serve P s i).reply.Hangs ↔ Unstorable P s i
  uncached : ∀ m ∈ (serve P s i).recorded, m.cacheHit = false
  atMostOne : (serve P s i).recorded.length ≤ 1
  balance : (if (serve P s i).reply.HasStatus 200 then 1 else 0 : ℤ) +
      (if (serve P s i).reply.Hangs then 1 else 0) =
    (serve P s i).recorded.length + if (serve P s i).reply.FromCache then 1 else 0
  history : s.costs.history.length < CostTracker.maxHistory →
    (serve P s i).server.costs.history = s.costs.history ++ (serve P s i).recorded
  savings : ¬ (serve P s i).reply.FromCache →
    (serve P s i).server.cache.savingsUsd = s.cache.savingsUsd

theorem serve_accounted (hv1 : i.endpoint = .completions) (hwf : s.cache.Wf) :
    Accounted P s i := by
  rcases serve_accounts (P := P) hv1 hwf with ⟨hhit, hfits, h⟩ | ⟨hno, h, hhangs⟩ |
    ⟨hno, hfits, h⟩
  · refine ⟨h.wf hwf, iff_of_true h.fromCache hhit, iff_of_false h.returns hfits, ?_, ?_, ?_, ?_,
      fun hnot => absurd h.fromCache hnot⟩
    · rw [h.recorded]
      exact nofun
    · rw [h.recorded]
      exact Nat.zero_le 1
    · rw [if_pos h.ok, if_neg h.returns, if_pos h.fromCache, h.recorded]
      rfl
    · rw [h.costs, h.recorded, List.append_nil]
      exact fun _ => rfl
  · obtain ⟨m, huncached, hrecorded, hhistory⟩ := h.record
    refine ⟨h.wf hwf, iff_of_false h.notFromCache hno, hhangs, ?_, ?_, ?_, ?_, fun _ => h.savings⟩
    · rw [hrecorded]
      intro m' hm'
      rw [List.mem_singleton.mp hm']
      exact huncached
    · rw [hrecorded]
      exact le_rfl
    · rw [if_neg h.notFromCache, hrecorded]
      by_cases hok : (serve P s i).reply.HasStatus 200
      · rw [if_pos hok, if_neg (h.ok_iff.mp hok)]
        rfl
      · rw [if_neg hok, if_pos (not_not.mp fun hnot => hok (h.ok_iff.mpr hnot))]
        rfl
    · intro hroom
      rw [hhistory, hrecorded, CostTracker.pushHistory, if_neg (by omega)]
  · refine ⟨h.wf hwf, iff_of_false h.notFromCache hno, iff_of_false h.returns hfits, ?_, ?_, ?_,
      ?_, fun _ => h.savings⟩
    · rw [h.recorded]
      exact nofun
    · rw [h.recorded]
      exact Nat.zero_le 1
    · rw [if_neg h.notOk, if_neg h.returns, if_neg h.notFromCache, h.recorded]
      rfl
    · rw [h.costs, h.recorded, List.append_nil]
      exact fun _ => rfl

/-- What a run adds to the two accounts. -/
structure RunAccounted (P : Platform) (s : Server) (incoming : List Incoming) : Prop where
  kinds : ∀ step ∈ run P s incoming,
    (step.served.reply.FromCache ↔ StoredHit P step.before step.incoming) ∧
      (step.served.reply.Hangs ↔ Unstorable P step.before step.incoming)
  uncached : ∀ m ∈ appendedRecords (run P s incoming), m.cacheHit = false
  balance : countReplies (Reply.HasStatus 200) (run P s incoming) +
      countReplies Reply.Hangs (run P s incoming) =
    (appendedRecords (run P s incoming)).length + countReplies Reply.FromCache (run P s incoming)
  history : (finalState P s incoming).costs.history =
    s.costs.history ++ appendedRecords (run P s incoming)
  savings : (∀ step ∈ run P s incoming, ¬ step.served.reply.FromCache) →
    (finalState P s incoming).cache.savingsUsd = s.cache.savingsUsd

theorem countReplies_cons (kind : Reply → Prop) [DecidablePred kind] (step : Step)
    (steps : List Step) :
    countReplies kind (step :: steps) =
      (if kind step.served.reply then 1 else 0) + countReplies kind steps := by
  unfold countReplies
  rw [List.countP_cons]
  by_cases h : kind step.served.reply
  · simp [h, add_comm]
  · simp [h]

/-- None of the replies is of a kind exactly when their count is zero. -/
theorem countReplies_eq_zero {kind : Reply → Prop} [DecidablePred kind] {steps : List Step} :
    countReplies kind steps = 0 ↔ ∀ step ∈ steps, ¬ kind step.served.reply := by
  unfold countReplies
  rw [Int.natCast_eq_zero, List.countP_eq_zero]
  simp only [decide_eq_true_eq]

theorem runAccounted_nil (s : Server) : RunAccounted P s [] where
  kinds step hstep := by simp [run] at hstep
  uncached m hm := by simp [run, appendedRecords] at hm
  balance := by simp [run, appendedRecords, countReplies]
  history := by simp [run, appendedRecords, finalState]
  savings _ := by simp [finalState]

theorem Accounted.cons {rest : List Incoming} (h : Accounted P s i)
    (hroom : s.costs.history.length < CostTracker.maxHistory)
    (htail : RunAccounted P (serve P s i).server ((serve P s i).reply.remaining rest)) :
    RunAccounted P s (i :: rest) := by
  have hrecords : appendedRecords (run P s (i :: rest)) = (serve P s i).recorded ++
      appendedRecords (run P (serve P s i).server ((serve P s i).reply.remaining rest)) := by
    rw [run_cons]
    rfl
  refine ⟨?_, ?_, ?_, ?_, ?_⟩
  · rw [run_cons]
    intro step hstep
    rcases List.mem_cons.mp hstep with rfl | hlater
    · exact ⟨h.fromCache_iff, h.hangs_iff⟩
    · exact htail.kinds step hlater
  · rw [hrecords]
    intro m hm
    rcases List.mem_append.mp hm with hnow | hlater
    · exact h.uncached m hnow
    · exact htail.uncached m hlater
  · have hnow := h.balance
    have hlater := htail.balance
    rw [hrecords, run_cons, countReplies_cons, countReplies_cons, countReplies_cons,
      List.length_append]
    push_cast
    linarith
  · rw [finalState_cons, htail.history, h.history hroom, hrecords, List.append_assoc]
  · intro hnone
    rw [run_cons] at hnone
    have hlater := htail.savings fun step hstep => hnone step (List.mem_cons_of_mem _ hstep)
    rw [finalState_cons, hlater]
    exact h.savings (hnone _ List.mem_cons_self)

theorem run_accounted {incoming : List Incoming} (hwf : s.cache.Wf)
    (hv1 : ∀ i ∈ incoming, i.endpoint = .completions)
    (hroom : s.costs.history.length + incoming.length ≤ CostTracker.maxHistory) :
    RunAccounted P s incoming := by
  induction incoming generalizing s with
  | nil => exact runAccounted_nil s
  | cons i rest ih =>
      rw [List.length_cons] at hroom
      have hnow : Accounted P s i := serve_accounted (hv1 i List.mem_cons_self) hwf
      have hspace : s.costs.history.length < CostTracker.maxHistory := by omega
      refine hnow.cons hspace ?_
      unfold Reply.remaining
      split
      · refine ih hnow.wf (fun j hj => hv1 j (List.mem_cons_of_mem _ hj)) ?_
        have hone := hnow.atMostOne
        rw [hnow.history hspace, List.length_append]
        omega
      · exact runAccounted_nil _

/-- The numbers of a summary of records none of which is marked as cached. -/
theorem CostTracker.summarize_uncached {records : List RequestMetrics}
    (h : ∀ m ∈ records, m.cacheHit = false) :
    (summarize records).cachedRequests = 0 ∧ (summarize records).cacheSavingsUsd = 0 ∧
      (summarize records).totalRequests = records.length := by
  have hshares : ∀ records : List RequestMetrics, (∀ m ∈ records, m.cacheHit = false) →
      (records.map RequestMetrics.share).sum.2 = (0, (records.length : ℤ), 0) := by
    intro records h
    induction records with
    | nil => rfl
    | cons m records ih =>
        have hm := h m List.mem_cons_self
        rw [List.map_cons, List.sum_cons, Prod.snd_add,
          ih fun m' hm' => h m' (List.mem_cons_of_mem _ hm')]
        simp [RequestMetrics.share, hm, add_comm]
  have htotals := congrArg Prod.snd (summarize_eq records).1
  rw [hshares records h] at htotals
  simp only [SpendSummary.totals, Prod.mk.injEq] at htotals
  exact ⟨htotals.2.2, htotals.1, htotals.2.1⟩

/-- **The two accounts of the cache.**  Over every run of at most `MAX_HISTORY`
requests to `/v1/chat/completions` from empty trackers, the summary of the ledger
and the cache agree on the hits exactly when no request of the run finds a live
entry under its key and none is answered by a provider while the cache cannot
take the response. -/
theorem hits_agree_iff (P : Platform) (start : Server) (hhistory : start.costs.history = [])
    (hcache : start.cache = Cache.init start.config.cache) (incoming : List Incoming)
    (hv1 : ∀ i ∈ incoming, i.endpoint = .completions)
    (hlength : incoming.length ≤ CostTracker.maxHistory) :
    HitsAgree P start incoming ↔ ∀ step ∈ run P start incoming,
      ¬ StoredHit P step.before step.incoming ∧ ¬ Unstorable P step.before step.incoming := by
  have hwf : start.cache.Wf := by
    rw [hcache]
    exact Cache.init_wf _
  have hrun : RunAccounted P start incoming :=
    run_accounted hwf hv1 (by rw [hhistory, List.length_nil, Nat.zero_add]; exact hlength)
  have hrecords : (finalState P start incoming).costs.history =
      appendedRecords (run P start incoming) := by
    rw [hrun.history, hhistory, List.nil_append]
  obtain ⟨hcached, hsavings, hrequests⟩ := CostTracker.summarize_uncached hrun.uncached
  rw [← hrecords, ← CostTracker.getSummary_nil] at hcached hsavings hrequests
  have hbalance := hrun.balance
  constructor
  · intro hagree step hstep
    have hnone : countReplies Reply.FromCache (run P start incoming) = 0 :=
      hagree.cachedRequests.symm.trans hcached
    have hreturn : countReplies Reply.Hangs (run P start incoming) = 0 := by
      have htotal := hagree.totalRequests
      rw [hrequests, hrecords] at htotal
      linarith
    obtain ⟨hfromCache, hhangs⟩ := hrun.kinds step hstep
    exact ⟨fun h => countReplies_eq_zero.mp hnone step hstep (hfromCache.mpr h),
      fun h => countReplies_eq_zero.mp hreturn step hstep (hhangs.mpr h)⟩
  · intro hcond
    have hnone : ∀ step ∈ run P start incoming, ¬ step.served.reply.FromCache :=
      fun step hstep h => (hcond step hstep).1 ((hrun.kinds step hstep).1.mp h)
    have hreturn : ∀ step ∈ run P start incoming, ¬ step.served.reply.Hangs :=
      fun step hstep h => (hcond step hstep).2 ((hrun.kinds step hstep).2.mp h)
    have hzero := countReplies_eq_zero.mpr hnone
    have hall := countReplies_eq_zero.mpr hreturn
    refine ⟨hcached.trans hzero.symm, ?_, ?_⟩
    · rw [hrequests, hrecords]
      linarith
    · rw [hsavings, Cache.getStats, hrun.savings hnone, hcache]
      rfl

end Runs

/-- A request that is answered by the one provider. -/
def answeredRequest : Incoming := ⟨.completions, plainHttp, allUp⟩

/-- The same request when the stored reply has expired. -/
def lateRequest : Incoming :=
  ⟨.completions, plainHttp,
    { allUp with now := seconds 3601, later := seconds 3601, ordered := le_refl _ }⟩

/-- Two equal requests more than an hour apart are two records and no hit. -/
theorem hits_agree_iff_late :
    HitsAgree (cLocale fnv1a) (Server.init (loneConfig .smart)) [answeredRequest, lateRequest] := by
  let start := Server.init (loneConfig .smart)
  let second := (serve (cLocale fnv1a) start answeredRequest).server
  have hsteps : run (cLocale fnv1a) start [answeredRequest, lateRequest] =
      [⟨start, answeredRequest, serve (cLocale fnv1a) start answeredRequest⟩,
        ⟨second, lateRequest, serve (cLocale fnv1a) second lateRequest⟩] := by
    rw [run_cons, Reply.remaining, if_pos (by decide +kernel), run_singleton]
  have hroom : ∀ (s : Server) (i : Incoming), s.config = start.config →
      ¬ Unstorable (cLocale fnv1a) s i := by
    rintro s i hconfig ⟨req, s', provider, hrouting, -, -, -, hno⟩
    rw [(toRouting_core hrouting).2.1.config, hconfig] at hno
    exact hno (.inr (.inr (by decide)))
  have hsecond : second.config = start.config :=
    (serve_frame (cLocale fnv1a) start answeredRequest).1
  have hexpired : ∀ n ∈ second.cache.entries, n.entry.expiresAt < seconds 3601 := by
    decide +kernel
  clear_value second
  refine (hits_agree_iff (cLocale fnv1a) start rfl rfl [answeredRequest, lateRequest] (by decide)
    (by decide)).mpr ?_
  rw [hsteps]
  intro step hstep
  rcases List.mem_pair.mp hstep with rfl | rfl
  · refine ⟨?_, hroom start answeredRequest rfl⟩
    rintro ⟨req, s', -, -, -, n, hn, -⟩
    cases hn
  · refine ⟨?_, hroom second lateRequest hsecond⟩
    rintro ⟨req, s', -, -, -, n, hn, -, hlive⟩
    exact absurd (hexpired n hn) (not_lt.mpr hlive)

/-- The second of two equal requests is served from the cache, and the ledger
counts no cached request. -/
theorem hits_miss_the_ledger :
    ¬ ∀ (P : Platform) (cfg : GatewayConfig) (incoming : List Incoming),
      (∀ i ∈ incoming, i.endpoint = .completions) →
      incoming.length ≤ CostTracker.maxHistory → HitsAgree P (Server.init cfg) incoming := by
  intro h
  have hagree := (h (cLocale fnv1a) (loneConfig .smart) [answeredRequest, answeredRequest]
    (by decide) (by decide)).cachedRequests
  revert hagree
  decide +kernel

end Gateway
