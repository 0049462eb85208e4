import LlmGateway.LimiterRuns
import LlmGateway.SharedLedger

/-!
# The rate limiter under interleaving

The check of a request and the recording of its tokens are two calls, with those of
other requests in between.  The limiter still bounds how many requests with one
`Authorization` header are let in during any interval of minutes, however the
requests interleave, and no request gets past it without having been let in
(`let_in_bound`).
-/

namespace Gateway

open Interleaving Prog

/-! ## The calls on the limiter -/

section
variable {ι : Type}

/-- A call of the service as a call on the limiter. -/
def limiterCall (en : Entry ι Moment Op Op.Res) : Option LimiterCall :=
  match en.event.1 with
  | .checkRequest apiKey estimatedTokens => some (.check en.input.now apiKey estimatedTokens)
  | .recordTokens apiKey tokens => some (.record en.input.now apiKey tokens)
  | _ => none

/-- The calls on the limiter, newest first. -/
def limiterCalls (log : List (Entry ι Moment Op Op.Res)) : List LimiterCall :=
  (log.filterMap limiterCall).reverse

/-- The call lets a request with the key in. -/
def letsIn (key : Str) (en : Entry ι Moment Op Op.Res) : Bool :=
  match en.event with
  | ⟨.checkRequest apiKey _, checked⟩ => apiKey = key && checked.allowed
  | _ => false

/-- The call lets a request with the key in, in this interval. -/
def letsInDuring (key : Str) (start stop : Time) (en : Entry ι Moment Op Op.Res) : Bool :=
  letsIn key en && start ≤ en.input.now && en.input.now < stop

variable {P : Platform} {log : List (Entry ι Moment Op Op.Res)} {s t : Server}

theorem limiterCalls_append (log : List (Entry ι Moment Op Op.Res)) (en : Entry ι Moment Op Op.Res) :
    limiterCalls (log ++ [en]) = (limiterCall en).toList ++ limiterCalls log := by
  unfold limiterCalls
  rw [List.filterMap_append, List.reverse_append]
  cases hcall : limiterCall en <;> simp [hcall]

/-- The limiter is where its calls lead, and its admissions are those of the log. -/
structure LimiterLogged (s : Server) (log : List (Entry ι Moment Op Op.Res)) (t : Server) :
    Prop where
  config : t.config = s.config
  limiter : t.limiter = LimiterCall.after s.config.rateLimit s.limiter (limiterCalls log)
  admitted : ∀ key start stop,
    (LimiterCall.admissions s.config.rateLimit s.limiter key (limiterCalls log)).countP
        (fun e => start ≤ e.time ∧ e.time < stop) = log.countP (letsInDuring key start stop)

/-- A call that is none on the limiter. -/
theorem LimiterLogged.idle (h : LimiterLogged s log t) {en : Entry ι Moment Op Op.Res}
    {t' : Server} (hcall : limiterCall en = none) (hconfig : t'.config = t.config)
    (hlimiter : t'.limiter = t.limiter) : LimiterLogged s (log ++ [en]) t' := by
  have hcalls : limiterCalls (log ++ [en]) = limiterCalls log := by
    rw [limiterCalls_append, hcall]
    rfl
  refine ⟨hconfig.trans h.config, by rw [hcalls, hlimiter, h.limiter], fun key start stop => ?_⟩
  have hnot : letsIn key en = false := by
    unfold limiterCall at hcall
    unfold letsIn
    split
    · next hevent =>
        rw [hevent] at hcall
        cases hcall
    · rfl
  rw [hcalls, h.admitted, List.countP_append]
  simp [letsInDuring, hnot]

theorem LimiterLogged.exec (h : LimiterLogged s log t) (i : ι) (e : Moment) (o : Op) :
    LimiterLogged s (log ++ [⟨i, e, ⟨o, (o.exec P e t).1⟩⟩]) (o.exec P e t).2 := by
  have hconfig := o.exec_config P e t
  have hlimiter := o.exec_limiter P e t
  cases o with
  | checkRequest apiKey estimated =>
      have hcalls := limiterCalls_append log
        ⟨i, e, ⟨.checkRequest apiKey estimated, (Op.exec P e (.checkRequest apiKey estimated) t).1⟩⟩
      refine ⟨hconfig.trans h.config, ?_, fun key start stop => ?_⟩
      · rw [hcalls, hlimiter, h.config, h.limiter]
        rfl
      · have hanswer : (Op.exec P e (.checkRequest apiKey estimated) t).1 =
            ((LimiterCall.after s.config.rateLimit s.limiter (limiterCalls log)).checkRequest
              s.config.rateLimit e.now apiKey estimated).1 := by
          rw [← h.limiter, ← h.config]
          rfl
        have hcount := h.admitted key start stop
        rw [hcalls, List.countP_append, hanswer]
        simp only [limiterCall, Option.toList_some, List.singleton_append, LimiterCall.admissions]
        split
        · next hlet =>
            obtain ⟨rfl, hallowed⟩ := hlet
            rw [List.countP_cons, hcount]
            simp [letsInDuring, letsIn, hallowed]
        · next hdenied =>
            rw [hcount]
            by_cases hkey : apiKey = key
            · subst hkey
              simp only [true_and, Bool.not_eq_true] at hdenied
              simp [letsInDuring, letsIn, hdenied]
            · simp [letsInDuring, letsIn, hkey]
  | recordTokens apiKey tokens =>
      have hcalls := limiterCalls_append log
        ⟨i, e, ⟨.recordTokens apiKey tokens, (Op.exec P e (.recordTokens apiKey tokens) t).1⟩⟩
      refine ⟨hconfig.trans h.config, ?_, fun key start stop => ?_⟩
      · rw [hcalls, hlimiter, h.config, h.limiter]
        rfl
      · rw [hcalls, List.countP_append]
        simpa [limiterCall, LimiterCall.admissions, letsInDuring, letsIn]
          using h.admitted key start stop
  | _ => exact h.idle rfl hconfig hlimiter

/-- A call on the limiter has the time of its turn. -/
theorem time_limiterCall (en : Entry ι Moment Op Op.Res) :
    ∀ call ∈ limiterCall en, call.time = some en.input.now := by
  intro call hcall
  unfold limiterCall at hcall
  split at hcall
  · cases hcall
    rfl
  · cases hcall
    rfl
  · cases hcall

/-- The handlers never reset a key. -/
theorem reset_not_mem_limiterCalls (key : Str) : .reset key ∉ limiterCalls log := by
  intro hmem
  obtain ⟨en, -, hcall⟩ := List.mem_filterMap.mp (List.mem_reverse.mp hmem)
  cases time_limiterCall en _ hcall

/-- The calls on the limiter are made at some of the times of the log. -/
theorem times_sublist (log : List (Entry ι Moment Op Op.Res)) :
    ((log.filterMap limiterCall).filterMap LimiterCall.time).Sublist
      (log.map fun en => en.input.now) := by
  induction log with
  | nil => exact .refl _
  | cons en log ih =>
      rw [List.map_cons]
      cases hcall : limiterCall en with
      | none =>
          rw [List.filterMap_cons_none hcall]
          exact ih.cons _
      | some call =>
          rw [List.filterMap_cons_some hcall,
            List.filterMap_cons_some (time_limiterCall en call hcall)]
          exact ih.cons_cons _

theorem chronological_limiterCalls
    (hclock : (log.map fun en => en.input.now).Pairwise (· ≤ ·)) :
    LimiterCall.Chronological (limiterCalls log) := by
  unfold LimiterCall.Chronological limiterCalls
  rw [List.filterMap_reverse, List.pairwise_reverse]
  exact hclock.sublist (times_sublist log)

end

/-! ## What the handlers do before they are let in -/

/-- The methods that a completion request with a key calls only once it is let in. -/
def Op.limited : Op → Bool
  | .count _ | .authenticate _ | .checkRequest .. => false
  | _ => true

/-- Such a call comes after a check that let the request in. -/
def LetInFirst (key : Str) (tr : List (Event Op Op.Res)) : Prop :=
  (∃ ev ∈ tr, ev.1.limited = true) → ∃ estimated checked,
    (⟨.checkRequest key estimated, checked⟩ : Event Op Op.Res) ∈ tr ∧ checked.allowed = true

section
variable {key : Str} {tr : List (Event Op Op.Res)}

theorem LetInFirst.of_unlimited (h : ∀ ev ∈ tr, ev.1.limited = false) : LetInFirst key tr := by
  rintro ⟨ev, hev, hlimited⟩
  rw [h ev hev] at hlimited
  cases hlimited

/-- A program that runs once the request is let in. -/
theorem letInFirst_after {α : Type} {past : List (Event Op Op.Res)} {estimated : ℤ}
    {checked : RateLimitResult} (hmem : ⟨.checkRequest key estimated, checked⟩ ∈ past)
    (hallowed : checked.allowed = true) (p : Program α) :
    After (fun _ => True) past p fun tr _ => LetInFirst key tr := by
  refine After.mono (After.of_uses (J := fun tr =>
    (⟨.checkRequest key estimated, checked⟩ : Event Op Op.Res) ∈ tr) (uses_all p) hmem
    fun tr o r _ h => List.mem_append_left _ h) fun tr _ h _ => ?_
  exact ⟨estimated, checked, h, hallowed⟩

end

namespace Handler

theorem limitStep_letInFirst (P : Platform) {req : ChatRequest} (hkey : req.apiKey ≠ [])
    {past : List (Event Op Op.Res)} (hpast : ∀ ev ∈ past, ev.1.limited = false) :
    After (fun _ => True) past (limitStep P req) fun tr _ => LetInFirst req.apiKey tr := by
  have hnonempty : ¬ req.apiKey.isEmpty = true := by simpa using hkey
  have hsnoc : ∀ {past : List (Event Op Op.Res)} {o : Op} (r : o.Res), o.limited = false →
      (∀ ev ∈ past, ev.1.limited = false) → ∀ ev ∈ past ++ [⟨o, r⟩], ev.1.limited = false := by
    intro past o r ho h ev hev
    rcases List.mem_append.mp hev with hev | hev
    · exact h ev hev
    · rw [List.mem_singleton.mp hev]
      exact ho
  simp only [limitStep, if_neg hnonempty, perform_bind, After.call_iff]
  refine ⟨.of_unlimited hpast, fun known _ => ⟨.of_unlimited (hsnoc known rfl hpast), ?_⟩⟩
  intro checked _
  split
  · rw [pure_eq, After.ret_iff]
    exact .of_unlimited (hsnoc checked rfl (hsnoc known rfl hpast))
  · next hdenied =>
      exact letInFirst_after (List.mem_append_right _ List.mem_cons_self)
        (by simpa using hdenied) _

theorem chatCompletions_letInFirst (P : Platform) (draw : UInt64) {http : HttpRequest}
    (hkey : http.authorization ≠ []) :
    Meets (fun _ => True) (chatCompletions P draw http)
      fun tr _ => LetInFirst http.authorization tr := by
  have hcounted : ∀ r, ∀ ev ∈ ([⟨.count .incRequests, r⟩] : List (Event Op Op.Res)),
      ev.1.limited = false := by
    intro r ev hev
    rw [List.mem_singleton.mp hev]
    rfl
  rw [← After.nil_iff]
  simp only [chatCompletions, perform_bind, After.call_iff, List.nil_append]
  refine ⟨.of_unlimited (by simp), fun counted _ => ?_⟩
  split
  · rw [pure_eq, After.ret_iff]
    exact .of_unlimited (hcounted counted)
  · split
    · rw [pure_eq, After.ret_iff]
      exact .of_unlimited (hcounted counted)
    · rw [pure_eq, After.ret_iff]
      exact .of_unlimited (hcounted counted)
    · exact limitStep_letInFirst P hkey (hcounted counted)

end Handler

/-- **The limit of a key, whatever the order of the steps.**  A completion request
with a key gets past the rate limiter only if it is let in, and of the requests with a
key that was new at the start at most `k + 1` times the limit are let in during any
interval of `k` minutes. -/
theorem let_in_bound {ι : Type} [Fintype ι] [DecidableEq ι] (P : Platform) (startTime : Time)
    (s : Server) (hint : s.config.rateLimit.defaultRpm < 2 ^ 31) (requests : ι → Request)
    (sched : List (ι × Moment)) (hclock : (sched.map fun turn => turn.2.now).Pairwise (· ≤ ·))
    (key : Str) (hkey : key ≠ []) (hnew : s.limiter.buckets.lookup key = none) :
    (∀ i draw http, requests i = .completions draw http → http.authorization = key →
        (∃ ev ∈ traceOf i (Service.after P startTime s requests sched).log,
          ev.1.limited = true) →
        ∃ en ∈ (Service.after P startTime s requests sched).log,
          en.thread = i ∧ letsIn key en = true) ∧
      ∀ (a : Time) (k : Nat),
        ((Finset.univ.filter fun i => ∃ en ∈ (Service.after P startTime s requests sched).log,
            en.thread = i ∧ letsInDuring key a (a + seconds (60 * k)) en = true).card : ℤ) ≤
          (k + 1) * max s.config.rateLimit.defaultRpm 0 := by
  have hrun := Service.explained P startTime s requests sched
  constructor
  · intro i draw http hrequest hauth hlimited
    have hmeets : Meets (fun _ => True) ((requests i).handler P startTime)
        fun tr _ => LetInFirst key tr := by
      rw [hrequest, ← hauth]
      refine Meets.bind (Meets.mono (Handler.chatCompletions_letInFirst P draw
        (by rwa [hauth])) fun tr x _ hfirst => ?_)
      cases x with
      | none => exact hfirst
      | some reply => simpa using hfirst
    obtain ⟨estimated, checked, hmem, hallowed⟩ := hrun.guarantees hmeets hlimited
    obtain ⟨en, hen, hthread, hevent⟩ := mem_traceOf.mp hmem
    exact ⟨en, hen, hthread, by simp [letsIn, hevent, hallowed]⟩
  · intro a k
    have hlogged : LimiterLogged s (Service.after P startTime s requests sched).log
        (Service.after P startTime s requests sched).shared :=
      hrun.replays.induction (J := LimiterLogged s) ⟨rfl, rfl, fun _ _ _ => rfl⟩
        fun past i e o t h => h.exec i e o
    have hinputs : ((Service.after P startTime s requests sched).log.map Entry.input).Sublist
        (sched.map Prod.snd) := Pool.inputs_sublist sched
    have htimes : ((Service.after P startTime s requests sched).log.map
        fun en => en.input.now).Pairwise (· ≤ ·) := by
      have hsublist := hinputs.map Moment.now
      rw [List.map_map, List.map_map] at hsublist
      exact hclock.sublist hsublist
    have hbound := (LimiterCall.minutes_bound s.config.rateLimit hint s.limiter key hnew _
      (chronological_limiterCalls htimes) (reset_not_mem_limiterCalls key)).1 a k
    rw [hlogged.admitted] at hbound
    refine le_trans (Int.ofNat_le.mpr ?_) hbound
    rw [List.countP_eq_length_filter]
    refine (Finset.card_le_card (t := (((Service.after P startTime s requests sched).log.filter
      (letsInDuring key a (a + seconds (60 * k)))).map Entry.thread).toFinset) ?_).trans
        ((List.toFinset_card_le _).trans_eq (List.length_map _))
    intro i hi
    obtain ⟨en, hen, hthread, hlet⟩ := (Finset.mem_filter.mp hi).2
    rw [List.mem_toFinset, List.mem_map]
    exact ⟨en, List.mem_filter.mpr ⟨hen, hlet⟩, hthread⟩

/-- The same greeting from three clients who share a key. -/
def keyedGreetings (i : Fin 3) : Request :=
  .completions i.val.toUInt64 { greeting with authorization := str "k" }

/-- Three rounds in which all take a turn, so that all are checked before any of them
looks into the cache. -/
def checkedTurns : List (Fin 3 × Moment) :=
  (List.replicate 3 (List.finRange 3)).flatten.map fun i => (i, offline)

/-- With a limit of one request a minute. -/
theorem let_in_bound_shared :
    ((Finset.univ.filter fun i => ∃ en ∈ (Service.after (cLocale fnv1a) 0
          (.init { rateLimit := { defaultRpm := 1 } }) keyedGreetings checkedTurns).log,
        en.thread = i ∧ letsInDuring (str "k") 0 (0 + seconds (60 * 1)) en = true).card : ℤ) ≤ 2 :=
  (let_in_bound (cLocale fnv1a) 0 (.init { rateLimit := { defaultRpm := 1 } }) (by decide)
    keyedGreetings checkedTurns (by decide) (str "k") (by decide) rfl).2 0 1

end Gateway
