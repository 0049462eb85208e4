import LlmGateway.Lib.FixedWindow
import LlmGateway.Pricing

/-!
# Admission

`create_key` gives a key the requests per minute of its tier, and the rate
limiter builds the key's bucket from the default of the configuration.  The two
give every request the same verdict exactly when they are equal or no window of
the key gets as far as the lower one.
-/

namespace Gateway

/-- The part of a bucket that counts requests. -/
structure KeyWindow where
  limit : ℤ
  count : ℤ
  start : Time
  deriving DecidableEq, Repr

def Bucket.window (b : Bucket) : KeyWindow := ⟨b.rpmLimit, b.requestsCount, b.windowStart⟩

/-- The window of a key, if it has a bucket. -/
def RateLimiter.window (key : Str) (l : RateLimiter) : Option KeyWindow :=
  (l.buckets.lookup key).map Bucket.window

/-- A window is over a minute after its start. -/
def MinuteOver (start now : Time) : Prop := inSeconds (now - start) ≥ 60

instance : DecidableRel MinuteOver := fun _ _ => inferInstanceAs (Decidable (_ ≥ _))

theorem not_minuteOver_self (now : Time) : ¬ MinuteOver now now := by
  rw [MinuteOver, sub_self]
  decide

/-- The token limit of the key's bucket stops a request. -/
def RateLimiter.TokensStop (cfg : RateLimitConfig) (now : Time) (key : Str) (estimated : ℤ)
    (l : RateLimiter) : Prop :=
  0 < estimated ∧ ((l.getBucket cfg now key).resetIfExpired now).tpmLimit <
    wrap32 (((l.getBucket cfg now key).resetIfExpired now).tokensCount + estimated)

instance (cfg : RateLimitConfig) (now : Time) (key : Str) (estimated : ℤ) (l : RateLimiter) :
    Decidable (l.TokensStop cfg now key estimated) :=
  inferInstanceAs (Decidable (_ ∧ _))

/-! ## One check -/

theorem wrap32_of_small {n : ℤ} (h0 : 0 ≤ n) (h : n < 2 ^ 31) : wrap32 n = n := by
  unfold wrap32
  rw [Int.bmod_eq_of_le_mul_two] <;> omega

/-- Counting up to an `int` limit never wraps. -/
theorem wrap32_succ {n limit : ℤ} (h0 : 0 ≤ n) (hlt : n < limit) (hint : limit < 2 ^ 31) :
    wrap32 (n + 1) = n + 1 := by
  apply wrap32_of_small
  · omega
  · omega

namespace Bucket

/-- An expired window restarts with a count of zero. -/
theorem resetIfExpired_window (now : Time) (b : Bucket) :
    (b.resetIfExpired now).window =
      if MinuteOver b.windowStart now then ⟨b.rpmLimit, 0, now⟩ else b.window := by
  unfold resetIfExpired
  by_cases h : inSeconds (now - b.windowStart) ≥ 60
  · rw [if_pos h, if_pos (show MinuteOver b.windowStart now from h)]
    rfl
  · rw [if_neg h, if_neg (show ¬ MinuteOver b.windowStart now from h)]

/-- Where the token limit does not stop a request, the count decides. -/
theorem check_spec (now : Time) {estimated : ℤ} {b : Bucket}
    (htokens : ¬ (0 < estimated ∧ b.tpmLimit < wrap32 (b.tokensCount + estimated)))
    (hcount : 0 ≤ b.requestsCount) (hlimit : b.rpmLimit < 2 ^ 31) :
    ((b.check now estimated).1.allowed = true ↔ b.requestsCount < b.rpmLimit) ∧
      (b.check now estimated).2.window =
        ⟨b.rpmLimit, if b.requestsCount < b.rpmLimit then b.requestsCount + 1
          else b.requestsCount, b.windowStart⟩ := by
  unfold check
  by_cases hfull : b.requestsCount ≥ b.rpmLimit
  · simp only [if_pos hfull, if_neg (not_lt.mpr hfull)]
    exact ⟨by simpa using hfull, rfl⟩
  · have hlt : b.requestsCount < b.rpmLimit := not_le.mp hfull
    have hwrap := wrap32_succ hcount hlt hlimit
    simp only [if_neg hfull, gt_iff_lt, if_neg htokens, if_pos hlt, hwrap]
    exact ⟨by simpa using hlt, rfl⟩

end Bucket

/-- The window of a key is that of its latest request, with as many requests
admitted as the limit allows. -/
def Tracks (limit : ℤ) (latest : Option (FixedWindow.Latest Time)) (window : Option KeyWindow) :
    Prop :=
  window = latest.map fun l => ⟨limit, min (l.rank + 1) (max limit 0), l.start⟩

namespace RateLimiter

variable {cfg : RateLimitConfig} {now : Time} {key : Str} {l : RateLimiter}

theorem window_insert (b : Bucket) :
    window key { buckets := l.buckets.insert key b } = some b.window := by
  simp [window]

theorem window_insert_ne {other : Str} (h : other ≠ key) (b : Bucket) :
    window other { buckets := l.buckets.insert key b } = l.window other := by
  simp only [window, AList.lookup_insert_ne h]

/-- Recording tokens leaves every existing window alone. -/
theorem recordTokens_window {other : Str} (tokens : ℤ)
    (h : other ≠ key ∨ (l.window other).isSome) :
    (l.recordTokens cfg now key tokens).window other = l.window other := by
  unfold recordTokens
  by_cases hsame : other = key
  · subst hsame
    obtain ⟨b, hb⟩ : ∃ b, l.buckets.lookup other = some b := by
      simpa [window, Option.isSome_iff_exists] using h
    simp only [window_insert, getBucket, hb, Option.getD_some]
    simp only [window, hb, Option.map_some]
    rfl
  · exact window_insert_ne hsame _

/-- The bucket a check works on is in the window the request enters, and has
admitted as many of the earlier requests there as the limit allows. -/
theorem resetIfExpired_tracks (now : Time) {latest : Option (FixedWindow.Latest Time)}
    (htracks : Tracks cfg.defaultRpm latest (l.window key)) :
    ((l.getBucket cfg now key).resetIfExpired now).window =
      ⟨cfg.defaultRpm, min (FixedWindow.enter MinuteOver now latest).rank (max cfg.defaultRpm 0),
        (FixedWindow.enter MinuteOver now latest).start⟩ := by
  rw [Bucket.resetIfExpired_window]
  cases latest with
  | none =>
      have hnone : l.buckets.lookup key = none := by
        simpa [Tracks, window] using htracks
      simp only [getBucket, hnone, Option.getD_none, Bucket.fresh, if_neg (not_minuteOver_self now)]
      simp [Bucket.window, FixedWindow.enter]
  | some last =>
      obtain ⟨b, hb, hwindow⟩ : ∃ b, l.buckets.lookup key = some b ∧ b.window =
          ⟨cfg.defaultRpm, min (last.rank + 1) (max cfg.defaultRpm 0), last.start⟩ := by
        simpa [Tracks, window] using htracks
      obtain ⟨hlimit, hcount, hstart⟩ := KeyWindow.mk.inj hwindow
      simp only [getBucket, hb, Option.getD_some, hstart, FixedWindow.enter]
      by_cases hover : MinuteOver last.start now
      · simp [if_pos hover, hlimit]
      · simp only [if_neg hover, hwindow]
        push_cast
        rfl

/-- A check enters the next request into the window and decides by its rank. -/
theorem checkRequest_spec {latest : Option (FixedWindow.Latest Time)} {estimated : ℤ}
    (htracks : Tracks cfg.defaultRpm latest (l.window key)) (hint : cfg.defaultRpm < 2 ^ 31)
    (htokens : ¬ l.TokensStop cfg now key estimated) :
    ((l.checkRequest cfg now key estimated).1.allowed = true ↔
        ((FixedWindow.enter MinuteOver now latest).rank : ℤ) < cfg.defaultRpm) ∧
      Tracks cfg.defaultRpm (some (FixedWindow.enter MinuteOver now latest))
        ((l.checkRequest cfg now key estimated).2.window key) := by
  have hbucket := resetIfExpired_tracks now htracks
  obtain ⟨hlimit, hcount, hstart⟩ := KeyWindow.mk.inj hbucket
  obtain ⟨hallowed, hwindow⟩ := Bucket.check_spec now htokens (by omega)
    (by rw [hlimit]; exact hint)
  rw [hlimit, hcount] at hallowed
  refine ⟨hallowed.trans (by omega), ?_⟩
  unfold checkRequest Tracks
  rw [window_insert, hwindow, hlimit, hcount, hstart]
  simp only [Option.map_some, Option.some.injEq, KeyWindow.mk.injEq, true_and, and_true]
  split <;> omega

end RateLimiter

/-! ## One request -/

variable {P : Platform} {w : World} {req : ChatRequest} {s : Server} {key : Str}

theorem settle_window {decision : RouteDecision} {resp : ChatResponse} {calls : List ProviderCall}
    (h : key ≠ req.apiKey ∨ (s.limiter.window key).isSome) :
    (settle P w req decision resp calls s).server.limiter.window key = s.limiter.window key := by
  have hbooked : (bookkeep w req (priceResponse s.costs req resp) s).limiter.window key =
      s.limiter.window key := by
    unfold bookkeep
    by_cases hempty : req.apiKey.isEmpty = true
    · simp only [if_pos hempty]
    · simp only [if_neg hempty]
      exact RateLimiter.recordTokens_window _ h
  unfold settle
  simp only
  split
  · exact hbooked
  · exact hbooked

theorem callStep_window {decision : RouteDecision} {provider : Provider}
    (h : key ≠ req.apiKey ∨ (s.limiter.window key).isSome) :
    (callStep P w req decision provider s).server.limiter.window key = s.limiter.window key := by
  unfold callStep
  simp only
  split
  · exact settle_window h
  · rfl
  · rfl

theorem routeStep_window (h : key ≠ req.apiKey ∨ (s.limiter.window key).isSome) :
    (routeStep P w req s).server.limiter.window key = s.limiter.window key := by
  unfold routeStep
  simp only
  split
  · rfl
  · split
    · rfl
    · exact callStep_window h

/-- After the check no window changes. -/
theorem cacheStep_window (h : key ≠ req.apiKey ∨ (s.limiter.window key).isSome) :
    (cacheStep P w req s).server.limiter.window key = s.limiter.window key := by
  unfold cacheStep
  split
  · rfl
  · exact routeStep_window h

/-- The check of a request that carries a key. -/
def checkOf (P : Platform) (w : World) (req : ChatRequest) (s : Server) :
    RateLimitResult × RateLimiter :=
  s.limiter.checkRequest s.config.rateLimit w.now req.apiKey
    (TokenCounter.countMessages P req.messages)

/-- Only the window of the request's own key is touched. -/
theorem limitStep_window_ne (h : key ≠ req.apiKey) :
    (limitStep P w req s).server.limiter.window key = s.limiter.window key := by
  have hchecked : (checkOf P w req s).2.window key = s.limiter.window key :=
    RateLimiter.window_insert_ne h _
  unfold limitStep
  simp only
  split
  · exact cacheStep_window (.inl h)
  · split
    · exact hchecked
    · exact (cacheStep_window (.inl h)).trans hchecked

/-- The window of the request's own key is the one its check left, and a request
that the check stops is answered 429. -/
theorem limitStep_window (hkey : req.apiKey ≠ []) :
    (limitStep P w req s).server.limiter.window req.apiKey =
        (checkOf P w req s).2.window req.apiKey ∧
      ((checkOf P w req s).1.allowed ≠ true → (limitStep P w req s).reply.HasStatus 429) := by
  have hnot : ¬ req.apiKey.isEmpty = true := by simpa using hkey
  have hsome : ((checkOf P w req s).2.window req.apiKey).isSome := by
    rw [checkOf, RateLimiter.checkRequest, RateLimiter.window_insert]
    rfl
  unfold limitStep
  simp only [if_neg hnot]
  by_cases hallowed : (checkOf P w req s).1.allowed = true
  · have hgoes : ¬ (!(checkOf P w req s).1.allowed) = true := by simp [hallowed]
    refine ⟨?_, fun hdenied => absurd hallowed hdenied⟩
    rw [checkOf] at hgoes hsome ⊢
    rw [if_neg hgoes]
    exact cacheStep_window (.inr hsome)
  · have hstops : (!(checkOf P w req s).1.allowed) = true := by simpa using hallowed
    rw [checkOf] at hstops ⊢
    rw [if_pos hstops]
    exact ⟨rfl, fun _ => by simp [throttled, makeError]⟩

/-- `/chat` does not ask the rate limiter. -/
theorem chat_limiter (P : Platform) (w : World) (http : HttpRequest) (s : Server) :
    (chat P w http s).server.limiter = s.limiter := by
  unfold chat
  split
  · rfl
  · split
    · rfl
    · split
      · rfl
      · unfold legacyCache
        split
        · rfl
        · unfold legacyRoute
          simp only
          split
          · rfl
          · unfold legacyCall
            simp only
            split
            · rfl
            · rfl
            · split <;> rfl

/-- The accepted request that an incoming one with this `Authorization` header
stands for. -/
def Incoming.keyRequest (header : Str) (i : Incoming) : Option ChatRequest :=
  if i.endpoint = .completions ∧ i.http.authorization = header then
    parsedRequest i.world i.http
  else none

/-- The request gets past the rate limiter. -/
def Passes (P : Platform) (s : Server) (i : Incoming) : Prop :=
  ∃ req, parsedRequest i.world i.http = some req ∧
    (pastLimiter P i.world req { s with metrics := s.metrics.incRequests }).isSome

/-- Requests that do not carry the key leave its window alone. -/
theorem serve_window_of_other {i : Incoming} (h : i.keyRequest key = none) :
    (serve P s i).server.limiter.window key = s.limiter.window key := by
  obtain ⟨endpoint, http, w⟩ := i
  cases endpoint with
  | chat =>
      simp only [serve]
      rw [chat_limiter]
  | completions =>
      simp only [serve]
      cases hparsed : parsedRequest w http with
      | none => rw [(chatCompletions_of_not_parsed hparsed).2.2]
      | some req =>
          have hother : key ≠ req.apiKey := by
            intro hsame
            rw [parsedRequest_apiKey hparsed] at hsame
            simp [Incoming.keyRequest, hsame, hparsed] at h
          rw [chatCompletions_of_parsed hparsed]
          exact limitStep_window_ne hother

/-- A request that carries the key is checked, passes if the check allows it and
is answered 429 otherwise. -/
theorem serve_window_of_key (hne : key ≠ []) {i : Incoming} (h : i.keyRequest key = some req) :
    (serve P s i).server.limiter.window key = (checkOf P i.world req s).2.window key ∧
      req.apiKey = key ∧ (Passes P s i ↔ (checkOf P i.world req s).1.allowed = true) ∧
      ((checkOf P i.world req s).1.allowed ≠ true → (serve P s i).reply.HasStatus 429) := by
  obtain ⟨endpoint, http, w⟩ := i
  unfold Incoming.keyRequest at h
  split at h
  · next hcarries =>
      obtain ⟨hendpoint, hheader⟩ := hcarries
      simp only at hendpoint hheader h
      subst hendpoint
      have hkey : req.apiKey = key := (parsedRequest_apiKey h).trans hheader
      subst hkey
      have hnot : ¬ req.apiKey.isEmpty = true := by simpa using hne
      obtain ⟨hwindow, hdenied⟩ := limitStep_window (P := P) (w := w)
        (s := { s with metrics := s.metrics.incRequests }) hne
      simp only [serve]
      rw [chatCompletions_of_parsed h]
      refine ⟨hwindow, trivial, ?_, hdenied⟩
      unfold Passes
      simp only [h, Option.some.injEq, exists_eq_left', pastLimiter, if_neg hnot, checkOf]
      split
      · next hallowed => exact iff_of_true rfl hallowed
      · next hstopped => exact iff_of_false Bool.false_ne_true hstopped
  · cases h

/-! ## Runs -/

/-- The steps of a run whose request is accepted and carries the key. -/
def keySteps (header : Str) (steps : List Step) : List Step :=
  steps.filter fun step => (step.incoming.keyRequest header).isSome

theorem keySteps_cons_of_carries {header : Str} {step : Step}
    (h : (step.incoming.keyRequest header).isSome) (steps : List Step) :
    keySteps header (step :: steps) = step :: keySteps header steps :=
  List.filter_cons_of_pos h

theorem keySteps_cons_of_not_carries {header : Str} {step : Step}
    (h : ¬ (step.incoming.keyRequest header).isSome) (steps : List Step) :
    keySteps header (step :: steps) = keySteps header steps :=
  List.filter_cons_of_neg h

/-- The times at which these requests come in. -/
def keyTimes (header : Str) (steps : List Step) : List Time :=
  (keySteps header steps).map fun step => step.incoming.world.now

/-- The request is not stopped by the token limit of its key. -/
def Step.BelowTokenLimit (P : Platform) (header : Str) (step : Step) : Prop :=
  ∀ req ∈ step.incoming.keyRequest header,
    ¬ step.before.limiter.TokensStop step.before.config.rateLimit step.incoming.world.now header
      (TokenCounter.countMessages P req.messages)

instance (P : Platform) (header : Str) : DecidablePred (Step.BelowTokenLimit P header) :=
  fun step => inferInstanceAs (Decidable (∀ req ∈ step.incoming.keyRequest header, _))

/-- The verdict of a limit on a request of this rank: it gets past the rate
limiter if it is among the first, and is answered 429 otherwise. -/
structure Step.Verdict (P : Platform) (limit : ℤ) (step : Step) (rank : Nat) : Prop where
  passes : Passes P step.before step.incoming ↔ (rank : ℤ) < limit
  stopped : limit ≤ rank → step.served.reply.HasStatus 429

/-- One request of the key: the verdict of the default limit, and the window it
leaves. -/
theorem serve_verdict (hne : key ≠ []) {latest : Option (FixedWindow.Latest Time)}
    (htracks : Tracks s.config.rateLimit.defaultRpm latest (s.limiter.window key))
    (hint : s.config.rateLimit.defaultRpm < 2 ^ 31) {i : Incoming}
    (hkey : i.keyRequest key = some req)
    (htokens : Step.BelowTokenLimit P key ⟨s, i, serve P s i⟩) :
    Step.Verdict P s.config.rateLimit.defaultRpm ⟨s, i, serve P s i⟩
        (FixedWindow.enter MinuteOver i.world.now latest).rank ∧
      Tracks s.config.rateLimit.defaultRpm
        (some (FixedWindow.enter MinuteOver i.world.now latest))
        ((serve P s i).server.limiter.window key) := by
  obtain ⟨hwindow, hsame, hpasses, hdenied⟩ := serve_window_of_key (P := P) (s := s) hne hkey
  obtain ⟨hallowed, htracks'⟩ := RateLimiter.checkRequest_spec htracks hint (htokens req hkey)
  rw [checkOf, hsame] at hwindow hpasses hdenied
  refine ⟨⟨hpasses.trans hallowed, fun hlate => hdenied fun h => ?_⟩, hwindow ▸ htracks'⟩
  exact absurd (hallowed.mp h) (not_lt.mpr hlate)

/-- Over a run, every request of the key gets the verdict of the default
limit. -/
theorem run_verdicts (hne : key ≠ []) {incoming : List Incoming}
    {latest : Option (FixedWindow.Latest Time)}
    (htracks : Tracks s.config.rateLimit.defaultRpm latest (s.limiter.window key))
    (hint : s.config.rateLimit.defaultRpm < 2 ^ 31)
    (htokens : ∀ step ∈ run P s incoming, step.BelowTokenLimit P key) :
    List.Forall₂ (Step.Verdict P s.config.rateLimit.defaultRpm) (keySteps key (run P s incoming))
      (FixedWindow.ranks MinuteOver latest (keyTimes key (run P s incoming))) := by
  induction incoming generalizing s latest with
  | nil => exact .nil
  | cons i rest ih =>
      have hconfig := (serve_frame P s i).1
      have htail : ∀ latest', Tracks s.config.rateLimit.defaultRpm latest'
          ((serve P s i).server.limiter.window key) →
          List.Forall₂ (Step.Verdict P s.config.rateLimit.defaultRpm)
            (keySteps key (run P (serve P s i).server ((serve P s i).reply.remaining rest)))
            (FixedWindow.ranks MinuteOver latest' (keyTimes key
              (run P (serve P s i).server ((serve P s i).reply.remaining rest)))) := by
        intro latest' htracks'
        rw [run_cons] at htokens
        have htokens' := fun step hstep => htokens step (List.mem_cons_of_mem _ hstep)
        rw [← hconfig] at htracks' hint ⊢
        unfold Reply.remaining at htokens' ⊢
        by_cases hgoes : (serve P s i).reply.goesOn = true
        · rw [if_pos hgoes] at htokens' ⊢
          exact ih htracks' hint htokens'
        · rw [if_neg hgoes]
          exact .nil
      have hfirst := htokens _ (run_cons P s i rest ▸ List.mem_cons_self)
      rw [run_cons]
      cases hkey : i.keyRequest key with
      | none =>
          rw [keyTimes, keySteps_cons_of_not_carries (by simp [hkey]), ← keyTimes]
          exact htail latest (serve_window_of_other (P := P) (s := s) hkey ▸ htracks)
      | some req =>
          obtain ⟨hverdict, htracks'⟩ := serve_verdict hne htracks hint hkey hfirst
          rw [keyTimes, keySteps_cons_of_carries (by simp [hkey]), List.map_cons, ← keyTimes,
            FixedWindow.ranks]
          exact .cons hverdict (htail _ htracks')

/-- A second limit gives the same verdict exactly where the two agree on the
rank. -/
theorem Step.Verdict.iff_of_verdict {m n : ℤ} {step : Step} {rank : Nat}
    (h : Step.Verdict P m step rank) :
    Step.Verdict P n step rank ↔ ((rank : ℤ) < m ↔ (rank : ℤ) < n) := by
  constructor
  · exact fun h' => h.passes.symm.trans h'.passes
  · intro hagree
    refine ⟨h.passes.trans hagree, fun hlate => h.stopped ?_⟩
    by_contra hlow
    exact absurd (hagree.mp (not_le.mp hlow)) (not_lt.mpr hlate)

theorem verdicts_iff_of_verdicts {m n : ℤ} {steps : List Step} {ranks : List Nat}
    (h : List.Forall₂ (Step.Verdict P m) steps ranks) :
    List.Forall₂ (Step.Verdict P n) steps ranks ↔
      ∀ r ∈ ranks, ((r : ℤ) < m ↔ (r : ℤ) < n) := by
  induction h with
  | nil => simp
  | cons hverdict _ ih =>
      rw [List.forall₂_cons, hverdict.iff_of_verdict, ih, List.forall_mem_cons]

/-- Every tier allows some requests. -/
theorem rateLimitRpm_pos (P : Platform) (created : Time) (draws : Draws) (owner tier : Str)
    (auth : AuthMiddleware) : 0 < (auth.createKey P created draws owner tier).1.rateLimitRpm := by
  simp only [AuthMiddleware.createKey, AuthMiddleware.newKey, withTierLimits]
  split_ifs <;> norm_num

/-- Neither header form of a created key is empty. -/
theorem header_ne_nil {P : Platform} {created : Time} {draws : Draws} {owner tier : Str}
    {auth : AuthMiddleware} {header : Str}
    (h : stripBearer header = (auth.createKey P created draws owner tier).1.keyHash) :
    header ≠ [] := by
  intro hnil
  subst hnil
  have hprefix := (List.append_eq_nil_iff.mp h.symm).1
  revert hprefix
  decide

/-- **Tier limits.**  For a key that `create_key` made, a header form of it that
has no bucket yet, and a run in which the token limit stops none of its
requests: the first requests of each window, as many as the tier of the key
allows, get past the rate limiter and the further ones are answered 429, exactly
when the default limit of the configuration is the limit of the tier or no
window of the run gets as far as either. -/
theorem tier_limit_enforced_iff (P : Platform) (created : Time) (draws : Draws) (owner tier : Str)
    (auth : AuthMiddleware) (vk : VirtualKey)
    (hvk : (auth.createKey P created draws owner tier).1 = vk) (header : Str)
    (hheader : stripBearer header = vk.keyHash) (s : Server)
    (hnew : s.limiter.buckets.lookup header = none)
    (hint : s.config.rateLimit.defaultRpm < 2 ^ 31) (incoming : List Incoming)
    (htokens : ∀ step ∈ run P s incoming, step.BelowTokenLimit P header) :
    List.Forall₂ (Step.Verdict P vk.rateLimitRpm) (keySteps header (run P s incoming))
        (FixedWindow.ranks MinuteOver none (keyTimes header (run P s incoming))) ↔
      s.config.rateLimit.defaultRpm = vk.rateLimitRpm ∨
        ∀ r ∈ FixedWindow.ranks MinuteOver none (keyTimes header (run P s incoming)),
          (r : ℤ) < s.config.rateLimit.defaultRpm ∧ (r : ℤ) < vk.rateLimitRpm := by
  subst hvk
  have htracks : Tracks s.config.rateLimit.defaultRpm none (s.limiter.window header) := by
    rw [RateLimiter.window, hnew]
    rfl
  rw [verdicts_iff_of_verdicts (run_verdicts (header_ne_nil hheader) htracks hint htokens)]
  exact FixedWindow.verdicts_agree_iff MinuteOver (rateLimitRpm_pos P created draws owner tier auth)

/-- A server that has just made one key. -/
def keyedServer (P : Platform) (cfg : GatewayConfig) (tier : Str) : Server :=
  { Server.init cfg with
    auth := (AuthMiddleware.createKey P 0 firstDraws (str "me") tier {}).2 }

/-- A request that carries it. -/
def keyedRequest : Incoming :=
  ⟨.completions, { plainHttp with authorization := str "Bearer " ++ generateKey firstDraws }, allUp⟩

/-- Where the default is the limit of the tier, twenty of twenty-two requests of a
minute get through. -/
theorem tier_limit_enforced_iff_at_default :
    List.Forall₂ (Step.Verdict (cLocale fnv1a) 20)
      (keySteps (str "Bearer " ++ generateKey firstDraws)
        (run (cLocale fnv1a)
          (keyedServer (cLocale fnv1a) { rateLimit := { defaultRpm := 20 } } (str "free"))
          (List.replicate 22 keyedRequest)))
      (List.range 22) := by
  have hlaw := tier_limit_enforced_iff (cLocale fnv1a) 0 firstDraws (str "me") (str "free") {}
    (AuthMiddleware.createKey (cLocale fnv1a) 0 firstDraws (str "me") (str "free") {}).1 rfl
    (str "Bearer " ++ generateKey firstDraws) (stripBearer_bearer _)
    (keyedServer (cLocale fnv1a) { rateLimit := { defaultRpm := 20 } } (str "free")) rfl
    (by decide) (List.replicate 22 keyedRequest) (by decide)
  exact hlaw.mpr (.inl (by decide))

/-- A key of the `free` tier gets its twenty-first request of a minute past the
rate limiter. -/
theorem free_tier_not_enforced :
    ¬ ∀ (P : Platform) (cfg : GatewayConfig) (tier header : Str) (incoming : List Incoming),
      stripBearer header =
          (AuthMiddleware.createKey P 0 firstDraws (str "me") tier {}).1.keyHash →
      (∀ step ∈ run P (keyedServer P cfg tier) incoming, step.BelowTokenLimit P header) →
        List.Forall₂ (Step.Verdict P
            (AuthMiddleware.createKey P 0 firstDraws (str "me") tier {}).1.rateLimitRpm)
          (keySteps header (run P (keyedServer P cfg tier) incoming))
          (FixedWindow.ranks MinuteOver none
            (keyTimes header (run P (keyedServer P cfg tier) incoming))) := by
  intro h
  let header := str "Bearer " ++ generateKey firstDraws
  let steps := run (cLocale fnv1a) (keyedServer (cLocale fnv1a) initialConfig (str "free"))
    (List.replicate 21 keyedRequest)
  have htokens : ∀ step ∈ steps, step.BelowTokenLimit (cLocale fnv1a) header := by decide
  have hclaimed := h (cLocale fnv1a) initialConfig (str "free") header
    (List.replicate 21 keyedRequest) (stripBearer_bearer _) htokens
  have htracks : Tracks initialConfig.rateLimit.defaultRpm none
      ((keyedServer (cLocale fnv1a) initialConfig (str "free")).limiter.window header) := rfl
  have hne : str "Bearer " ++ generateKey firstDraws ≠ [] := by decide
  have hactual := run_verdicts hne htracks (by decide) htokens
  have hlast : 20 ∈ FixedWindow.ranks MinuteOver none (keyTimes header steps) := by decide
  have hagree := (verdicts_iff_of_verdicts hactual).mp hclaimed 20 hlast
  revert hagree
  decide

end Gateway
