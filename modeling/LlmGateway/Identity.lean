import LlmGateway.LimiterRuns

/-!
# One account for each virtual key

`authenticate` strips `Bearer ` from the header before it looks the key up, while
the rate limiter and the ledger are indexed with the header as it came in.  A
virtual key has one bucket and one account as long as its requests all carry the
same header.
-/

namespace Gateway

/-- An accepted completion request whose header authenticates as the key. -/
def Step.As (P : Platform) (vk : VirtualKey) (step : Step) : Prop :=
  step.incoming.endpoint = .completions ∧
    (parsedRequest step.incoming.world step.incoming.http).isSome ∧
    step.before.auth.authenticate P step.incoming.world.now step.incoming.http.authorization =
      some vk

instance (P : Platform) (vk : VirtualKey) : DecidablePred (Step.As P vk) :=
  fun _ => inferInstanceAs (Decidable (_ ∧ _ ∧ _))

/-- The request gets past the rate limiter. -/
def Step.Passed (P : Platform) (step : Step) : Prop := Passes P step.before step.incoming

instance (P : Platform) : DecidablePred (Step.Passed P) := fun step =>
  decidable_of_iff (∃ req ∈ parsedRequest step.incoming.world step.incoming.http,
    (pastLimiter P step.incoming.world req
      { step.before with metrics := step.before.metrics.incRequests }).isSome) (by
    simp only [Option.mem_def]
    rfl)

/-- The total cost the ledger recorded for these steps. -/
def totalCost (steps : List Step) : Double :=
  ((steps.flatMap fun step => step.served.recorded).map RequestMetrics.costUsd).sum

/-- The requests of a virtual key share one bucket and one account: the limit of
a bucket that any of them is checked against bounds what they all get through in
its window, and the spend under any of their headers is what they all cost. -/
structure OneAccount (P : Platform) (vk : VirtualKey) (start : Server) (incoming : List Incoming) :
    Prop where
  bucket : ∀ step ∈ run P start incoming, step.As P vk →
    ∀ w ∈ step.served.server.limiter.window step.incoming.http.authorization,
      ((run P start incoming).countP fun other => other.As P vk ∧ other.Passed P ∧
        w.start ≤ other.incoming.world.now ∧ other.incoming.world.now < w.start + seconds 60 : ℤ) ≤
        max w.limit 0
  account : ∀ step ∈ run P start incoming, step.As P vk →
    (finalState P start incoming).costs.getSpend step.incoming.http.authorization =
      start.costs.getSpend step.incoming.http.authorization +
        totalCost ((run P start incoming).filter (Step.As P vk))

/-! ## The account of a header -/

/-- A record is charged to its key alone. -/
theorem CostTracker.getSpend_record_eq {key : Str} (hne : key ≠ []) (m : RequestMetrics)
    (t : CostTracker) :
    (t.record m).getSpend key =
      t.getSpend key + if m.apiKey = key then (t.priced m).costUsd else 0 := by
  by_cases hkey : m.apiKey = key
  · subst hkey
    rw [if_pos rfl]
    exact getSpend_record hne
  · have hsame : (t.priced m).apiKey = m.apiKey := by
      unfold priced
      split <;> rfl
    rw [if_neg hkey, add_zero]
    simp only [record, getSpend, hsame]
    split
    · rfl
    · rw [AList.lookup_insert_ne (Ne.symm hkey)]

variable {P : Platform} {w : World} {req : ChatRequest} {s : Server} {key : Str}

/-- What a handled request adds to the spend of a key it carries. -/
def Served.cost (served : Served) : Double := (served.recorded.map RequestMetrics.costUsd).sum

theorem settle_spend (hne : key ≠ []) (decision : RouteDecision) (resp : ChatResponse)
    (calls : List ProviderCall) :
    (settle P w req decision resp calls s).server.costs.getSpend key = s.costs.getSpend key +
      if req.apiKey = key then (settle P w req decision resp calls s).cost else 0 := by
  let m := metricsOf w.later req (priceResponse s.costs req resp)
  have hcosts : (settle P w req decision resp calls s).server.costs = s.costs.record m := by
    unfold settle
    simp only
    split <;> rfl
  have hcost : (settle P w req decision resp calls s).cost = (s.costs.priced m).costUsd := by
    have hrecorded : (settle P w req decision resp calls s).recorded = [s.costs.priced m] := by
      unfold settle
      simp only
      split <;> rfl
    rw [Served.cost, hrecorded]
    exact List.sum_singleton
  rw [hcosts, hcost]
  exact CostTracker.getSpend_record_eq hne m s.costs

theorem callStep_spend (hne : key ≠ []) (decision : RouteDecision) (provider : Provider) :
    (callStep P w req decision provider s).server.costs.getSpend key = s.costs.getSpend key +
      if req.apiKey = key then (callStep P w req decision provider s).cost else 0 := by
  unfold callStep
  simp only
  split
  · exact settle_spend hne _ _ _
  · simp [Served.cost, Server.withError]
  · simp [Served.cost]

/-- A request adds what it cost to the spend of the header it carries. -/
theorem serve_spend (hne : key ≠ []) (i : Incoming) :
    (serve P s i).server.costs.getSpend key = s.costs.getSpend key +
      if (i.keyRequest key).isSome then (serve P s i).cost else 0 := by
  have hnothing : ∀ served : Served, served.recorded = [] → served.server.costs = s.costs →
      served.server.costs.getSpend key = s.costs.getSpend key +
        if (i.keyRequest key).isSome then served.cost else 0 := by
    intro served hrecorded hcosts
    rw [hcosts, Served.cost, hrecorded]
    simp
  rcases serve_cases P s i with hnone | ⟨req, s', provider, hendpoint, hrouting, -, -, hrun⟩ |
    ⟨req, s', provider, -, hrouting, -, hrun⟩
  · exact hnothing _ hnone.recorded hnone.core.costs
  · obtain ⟨hparsed, hcore, -⟩ := toRouting_core hrouting
    have hcarries : (i.keyRequest key).isSome = true ↔ req.apiKey = key := by
      rw [parsedRequest_apiKey hparsed, Incoming.keyRequest]
      by_cases hheader : i.http.authorization = key
      · rw [if_pos ⟨hendpoint, hheader⟩, hparsed]
        exact iff_of_true rfl hheader
      · rw [if_neg fun h => hheader h.2]
        exact iff_of_false Bool.false_ne_true hheader
    have hcosts : (afterRoute i.world req s').costs = s.costs := hcore.costs
    rw [hrun, callStep_spend hne, hcosts]
    by_cases hkey : req.apiKey = key
    · rw [if_pos hkey, if_pos (hcarries.mpr hkey)]
    · rw [if_neg hkey, if_neg fun h => hkey (hcarries.mp h)]
  · obtain ⟨-, hrecorded, hkept⟩ := legacyCall_frame P i.world req (decisionFor i.world req s')
      provider (afterRoute i.world req s')
    rw [hrun]
    exact hnothing _ hrecorded (hkept.costs.trans (toLegacyRouting_core hrouting).1.costs)

/-- The spend of a header after a run. -/
theorem finalState_spend (hne : key ≠ []) (P : Platform) (s : Server) (incoming : List Incoming) :
    (finalState P s incoming).costs.getSpend key =
      s.costs.getSpend key + totalCost (keySteps key (run P s incoming)) := by
  induction incoming generalizing s with
  | nil => simp [finalState, run, keySteps, totalCost]
  | cons i rest ih =>
      have htail : (finalState P (serve P s i).server
          ((serve P s i).reply.remaining rest)).costs.getSpend key =
          (serve P s i).server.costs.getSpend key + totalCost (keySteps key
            (run P (serve P s i).server ((serve P s i).reply.remaining rest))) := by
        unfold Reply.remaining
        split
        · exact ih (serve P s i).server
        · simp [finalState, run, keySteps, totalCost]
      have hsplit : totalCost (keySteps key (run P s (i :: rest))) =
          (if (i.keyRequest key).isSome then (serve P s i).cost else 0) +
            totalCost (keySteps key
              (run P (serve P s i).server ((serve P s i).reply.remaining rest))) := by
        rw [run_cons]
        by_cases hcarries : (i.keyRequest key).isSome = true
        · rw [if_pos hcarries, keySteps_cons_of_carries hcarries]
          simp [totalCost, Served.cost]
        · rw [if_neg hcarries, keySteps_cons_of_not_carries hcarries, zero_add]
      rw [finalState_cons, htail, serve_spend hne, hsplit, add_assoc]

/-! ## The bucket of a header -/

/-- The check of a request with this header, placed in the window of its bucket. -/
def Step.visit (header : Str) (step : Step) : WindowCount.Event :=
  ⟨step.incoming.world.now,
    ((step.served.server.limiter.window header).map KeyWindow.start).getD 0⟩

/-- The logs of the checks and of the admissions of a header, up to `now`, fit
the window it has. -/
structure Logged (key : Str) (visits admitted : List WindowCount.Event) (now : Time)
    (s : Server) : Prop where
  visits : LimiterCall.Visits visits now (s.limiter.window key)
  counts : LimiterCall.Counts s.config.rateLimit admitted now (s.limiter.window key)

variable {visits admitted : List WindowCount.Event} {now : Time} {i : Incoming}

theorem Logged.later (h : Logged key visits admitted now s) {now' : Time} (hle : now ≤ now') :
    Logged key visits admitted now' s :=
  ⟨h.visits.later hle, h.counts.later hle⟩

theorem Logged.serve_of_other (h : Logged key visits admitted now s)
    (hother : i.keyRequest key = none) :
    Logged key visits admitted now (serve P s i).server := by
  obtain ⟨hvisits, hcounts⟩ := h
  rw [← serve_window_of_other (P := P) hother] at hvisits hcounts
  refine ⟨hvisits, ?_⟩
  rw [(serve_frame P s i).1]
  exact hcounts

/-- A request with the header is one more check, and one more admission if it
passes. -/
theorem Logged.serve_of_key (hne : key ≠ []) (hint : s.config.rateLimit.defaultRpm < 2 ^ 31)
    (hkey : i.keyRequest key = some req) (h : Logged key visits admitted i.world.now s) :
    Logged key (Step.visit key ⟨s, i, serve P s i⟩ :: visits)
      (if Step.Passed P ⟨s, i, serve P s i⟩ then
        Step.visit key ⟨s, i, serve P s i⟩ :: admitted else admitted)
      i.world.now (serve P s i).server := by
  obtain ⟨hwindow, hsame, hpasses, -⟩ := serve_window_of_key (P := P) (s := s) hne hkey
  rw [checkOf, hsame] at hwindow hpasses
  have hstart := LimiterCall.checkRequest_start s.config.rateLimit i.world.now key
    (TokenCounter.countMessages P req.messages) s.limiter
  have hvisit : Step.visit key ⟨s, i, serve P s i⟩ = ⟨i.world.now,
      (LimiterCall.tested s.config.rateLimit i.world.now key s.limiter).windowStart⟩ := by
    rw [Step.visit, hwindow, hstart]
    rfl
  have hcounts := LimiterCall.counts_check hint (TokenCounter.countMessages P req.messages)
    h.counts
  refine ⟨?_, ?_⟩
  · rw [hvisit, hwindow]
    exact LimiterCall.visits_check _ h.visits
  · rw [hvisit, hwindow, (serve_frame P s i).1]
    by_cases hpassed : Step.Passed P ⟨s, i, serve P s i⟩
    · rw [if_pos (hpasses.mp hpassed)] at hcounts
      rw [if_pos hpassed]
      exact hcounts
    · rw [if_neg fun hallowed => hpassed (hpasses.mpr hallowed)] at hcounts
      rw [if_neg hpassed]
      exact hcounts

/-! ## Runs -/

/-- What a run does to the logs of a header, and the limit of its buckets. -/
structure RunLogged (P : Platform) (key : Str) (visits admitted : List WindowCount.Event)
    (s : Server) (incoming : List Incoming) : Prop where
  logged : ∃ now, Logged key
    (((keySteps key (run P s incoming)).map (Step.visit key)).reverse ++ visits)
    ((((keySteps key (run P s incoming)).filter (Step.Passed P)).map (Step.visit key)).reverse ++
      admitted) now (finalState P s incoming)
  limits : ∀ step ∈ keySteps key (run P s incoming),
    ∀ w ∈ step.served.server.limiter.window key, w.limit = s.config.rateLimit.defaultRpm

theorem RunLogged.nil (h : Logged key visits admitted now s) :
    RunLogged P key visits admitted s [] where
  logged := ⟨now, h⟩
  limits := by simp [run, keySteps]

/-- A request without the header changes neither log. -/
theorem RunLogged.cons_of_other {rest : List Incoming} (hother : i.keyRequest key = none)
    (htail : RunLogged P key visits admitted (serve P s i).server
      ((serve P s i).reply.remaining rest)) :
    RunLogged P key visits admitted s (i :: rest) := by
  obtain ⟨hlogged, hlimits⟩ := htail
  have hsteps : keySteps key (run P s (i :: rest)) =
      keySteps key (run P (serve P s i).server ((serve P s i).reply.remaining rest)) := by
    rw [run_cons, keySteps_cons_of_not_carries (by simp [hother])]
  refine ⟨?_, ?_⟩
  · rw [hsteps, finalState_cons]
    exact hlogged
  · rw [hsteps, ← (serve_frame P s i).1]
    exact hlimits

/-- A request with the header comes first in both logs. -/
theorem RunLogged.cons_of_key {rest : List Incoming} (hkey : i.keyRequest key = some req)
    (hserved : Logged key (Step.visit key ⟨s, i, serve P s i⟩ :: visits)
      (if Step.Passed P ⟨s, i, serve P s i⟩ then
        Step.visit key ⟨s, i, serve P s i⟩ :: admitted else admitted)
      now (serve P s i).server)
    (htail : RunLogged P key (Step.visit key ⟨s, i, serve P s i⟩ :: visits)
      (if Step.Passed P ⟨s, i, serve P s i⟩ then
        Step.visit key ⟨s, i, serve P s i⟩ :: admitted else admitted)
      (serve P s i).server ((serve P s i).reply.remaining rest)) :
    RunLogged P key visits admitted s (i :: rest) := by
  obtain ⟨hlogged, hlimits⟩ := htail
  have hsteps : keySteps key (run P s (i :: rest)) = ⟨s, i, serve P s i⟩ ::
      keySteps key (run P (serve P s i).server ((serve P s i).reply.remaining rest)) := by
    rw [run_cons, keySteps_cons_of_carries (by simp [hkey])]
  refine ⟨?_, ?_⟩
  · rw [hsteps, finalState_cons]
    by_cases hpassed : Step.Passed P ⟨s, i, serve P s i⟩
    · rw [if_pos hpassed] at hlogged
      simpa [hpassed] using hlogged
    · rw [if_neg hpassed] at hlogged
      simpa [hpassed] using hlogged
  · rw [hsteps]
    intro step hstep w hw
    rcases List.mem_cons.mp hstep with rfl | hstep
    · have hcounts := hserved.counts
      rw [show (serve P s i).server.limiter.window key = some w from hw,
        (serve_frame P s i).1] at hcounts
      exact hcounts.1
    · rw [← (serve_frame P s i).1]
      exact hlimits step hstep w hw

theorem run_logged (hne : key ≠ []) (hint : s.config.rateLimit.defaultRpm < 2 ^ 31)
    {incoming : List Incoming}
    (hclock : incoming.Pairwise fun earlier later => earlier.world.now ≤ later.world.now)
    (hnow : ∀ i ∈ incoming, now ≤ i.world.now) (h : Logged key visits admitted now s) :
    RunLogged P key visits admitted s incoming := by
  induction incoming generalizing s visits admitted now with
  | nil => exact .nil h
  | cons i rest ih =>
      obtain ⟨hfirst, hrest⟩ := List.pairwise_cons.mp hclock
      have hhere := h.later (hnow i List.mem_cons_self)
      have hint' : (serve P s i).server.config.rateLimit.defaultRpm < 2 ^ 31 := by
        rw [(serve_frame P s i).1]
        exact hint
      have htail : ∀ {v a : List WindowCount.Event},
          Logged key v a i.world.now (serve P s i).server →
            RunLogged P key v a (serve P s i).server ((serve P s i).reply.remaining rest) := by
        intro v a hserved
        unfold Reply.remaining
        split
        · exact ih hint' hrest hfirst hserved
        · exact .nil hserved
      cases hkey : i.keyRequest key with
      | none =>
          apply RunLogged.cons_of_other hkey
          apply htail
          exact hhere.serve_of_other hkey
      | some req =>
          have hserved := hhere.serve_of_key (P := P) hne hint hkey
          apply RunLogged.cons_of_key hkey hserved
          exact htail hserved

theorem Incoming.authorization_of_carries {i : Incoming} (h : (i.keyRequest key).isSome) :
    i.http.authorization = key := by
  unfold keyRequest at h
  split at h
  · next hcarries => exact hcarries.2
  · cases h

/-- No key authenticates without a header. -/
theorem Step.As.authorization_ne_nil {vk : VirtualKey} {step : Step} (h : step.As P vk) :
    step.incoming.http.authorization ≠ [] := by
  intro hnil
  have hnone := h.2.2
  rw [hnil] at hnone
  cases hnone

/-- The admissions of a header in the window of one of its checks. -/
theorem RunLogged.countP_le {incoming : List Incoming} (h : RunLogged P key [] [] s incoming)
    {step : Step} (hstep : step ∈ keySteps key (run P s incoming)) {w : KeyWindow}
    (hw : w ∈ step.served.server.limiter.window key) :
    (((keySteps key (run P s incoming)).filter (Step.Passed P)).countP fun other =>
      w.start ≤ other.incoming.world.now ∧ other.incoming.world.now < w.start + seconds 60 : ℤ) ≤
      max w.limit 0 := by
  obtain ⟨now, hvisits, hcounts⟩ := h.logged
  have hwindowed := hvisits.windowed
  have hbounded := hcounts.bounded w.start
  have hlimit : w.limit = (finalState P s incoming).config.rateLimit.defaultRpm := by
    rw [(finalState_frame P s incoming).1]
    exact h.limits step hstep w hw
  have hstart : (Step.visit key step).start = w.start := by
    rw [Step.visit, show step.served.server.limiter.window key = some w from hw]
    rfl
  have hplaced : ∀ other ∈ keySteps key (run P s incoming), Step.visit key other ∈
      ((keySteps key (run P s incoming)).map (Step.visit key)).reverse ++ [] := by
    intro other hother
    rw [List.append_nil, List.mem_reverse]
    exact List.mem_map_of_mem hother
  rw [List.append_nil, List.countP_reverse, List.countP_map] at hbounded
  rw [hlimit]
  refine le_trans (Int.ofNat_le.mpr (List.countP_mono_left fun other hother htime => ?_)) hbounded
  obtain ⟨hlow, hhigh⟩ := of_decide_eq_true htime
  apply decide_eq_true
  rw [← hstart]
  apply hwindowed.start_eq (hplaced step hstep) (hplaced other (List.mem_filter.mp hother).1)
  · rw [hstart]
    exact hlow
  · rw [hstart]
    exact hhigh

/-- **One account.**  The requests of a virtual key share one bucket and one
account in every run in which they are the requests that carry one header. -/
theorem one_account (P : Platform) (vk : VirtualKey) (start : Server) (header : Str)
    (hnew : start.limiter.buckets.lookup header = none)
    (hint : start.config.rateLimit.defaultRpm < 2 ^ 31) (incoming : List Incoming)
    (hclock : incoming.Pairwise fun earlier later => earlier.world.now ≤ later.world.now)
    (hspelling : ∀ step ∈ run P start incoming,
      step.As P vk ↔ (step.incoming.keyRequest header).isSome) :
    OneAccount P vk start incoming := by
  have hsame : (run P start incoming).filter (Step.As P vk) =
      keySteps header (run P start incoming) := by
    apply List.filter_congr
    intro step hstep
    rw [Bool.eq_iff_iff, decide_eq_true_iff]
    exact hspelling step hstep
  refine ⟨?_, ?_⟩
  · intro step hstep has w hw
    have hcarries := (hspelling step hstep).mp has
    have hheader := Incoming.authorization_of_carries hcarries
    have hne := has.authorization_ne_nil
    rw [hheader] at hne hw
    obtain ⟨now, hnow⟩ : ∃ now, ∀ i ∈ incoming, now ≤ i.world.now := by
      cases incoming with
      | nil => exact ⟨0, by simp⟩
      | cons i rest => exact ⟨i.world.now, by simpa using (List.pairwise_cons.mp hclock).1⟩
    have hfresh : start.limiter.window header = none := by
      rw [RateLimiter.window, hnew]
      rfl
    have hlogged : Logged header [] [] now start := by
      constructor
      · rw [hfresh]
        exact rfl
      · rw [hfresh]
        exact rfl
    have hbound := (run_logged (P := P) hne hint hclock hnow hlogged).countP_le
      (List.mem_filter.mpr ⟨hstep, hcarries⟩) hw
    rw [← hsame, List.countP_filter, List.countP_filter] at hbound
    refine le_trans (Int.ofNat_le.mpr (List.countP_mono_left fun other _ h => ?_)) hbound
    obtain ⟨hother, hpassed, htime⟩ := of_decide_eq_true h
    simp only [Bool.and_eq_true, decide_eq_true_eq]
    exact ⟨⟨htime, hpassed⟩, hother⟩
  · intro step hstep has
    have hheader := Incoming.authorization_of_carries ((hspelling step hstep).mp has)
    have hne := has.authorization_ne_nil
    rw [hheader] at hne ⊢
    rw [hsame]
    exact finalState_spend hne P start incoming

/-- One request a minute. -/
def onceAMinute : GatewayConfig := { initialConfig with rateLimit := { defaultRpm := 1 } }

/-- The only key of the server, as `authenticate` finds it. -/
def onlyKey : VirtualKey :=
  AuthMiddleware.newKey (cLocale fnv1a) 0 (generateKey firstDraws) (str "me") (str "gold")

/-- The same key without `Bearer `. -/
def bareRequest : Incoming :=
  { keyedRequest with http := { plainHttp with authorization := generateKey firstDraws } }

/-- The second of two requests with one header is over the limit. -/
theorem one_account_twice :
    OneAccount (cLocale fnv1a) onlyKey (keyedServer (cLocale fnv1a) onceAMinute (str "gold"))
      [keyedRequest, keyedRequest] :=
  one_account (cLocale fnv1a) onlyKey (keyedServer (cLocale fnv1a) onceAMinute (str "gold"))
    (str "Bearer " ++ generateKey firstDraws) rfl (by decide) [keyedRequest, keyedRequest]
    (by decide) (by decide +kernel)

/-- With and without `Bearer ` the key gets two requests through. -/
theorem spellings_not_one_account :
    ¬ ∀ (P : Platform) (cfg : GatewayConfig) (tier : Str) (vk : VirtualKey)
      (incoming : List Incoming),
      (incoming.Pairwise fun earlier later => earlier.world.now ≤ later.world.now) →
        OneAccount P vk (keyedServer P cfg tier) incoming := by
  intro h
  have hclaimed := (h (cLocale fnv1a) onceAMinute (str "gold") onlyKey [keyedRequest, bareRequest]
    (by decide)).bucket
  revert hclaimed
  decide +kernel

end Gateway
