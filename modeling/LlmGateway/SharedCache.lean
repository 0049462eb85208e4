import LlmGateway.SharedLedger

/-!
# The cache under interleaving

Requests that are served at the same time share the cache: one may store what
another one asks for, between any two of its steps.  Whatever the order of the
steps, an answer from the cache is what the latest store under its key left there,
that store was made by another request, and it holds what a provider had answered
to that request before (`cached_answer`).
-/

namespace Gateway

open Interleaving Prog

/-! ## What the cache holds -/

section
variable {ι : Type}

/-- The call replaces or drops what is stored under the key. -/
def Overwrites (P : Platform) (cfg : CacheConfig) (key : Str) : Event Op Op.Res → Prop
  | ⟨.cachePut req _, stored⟩ =>
      stored = true ∧ cfg.enabled = true ∧ req.stream = false ∧ makeKey P cfg req = key
  | ⟨.cacheClear, _⟩ => True
  | _ => False

/-- The call stored the slot. -/
def Stored (P : Platform) (cfg : CacheConfig) (en : Entry ι Moment Op Op.Res)
    (slot : Lru.Slot Str ChatResponse Time) : Prop :=
  ∃ req, en.event = ⟨.cachePut req slot.value, true⟩ ∧ slot.key = makeKey P cfg req ∧
    slot.expires = en.input.now + seconds cfg.ttlSeconds

/-- The slot is what the latest store under its key has left. -/
def LastStored (P : Platform) (cfg : CacheConfig) (log : List (Entry ι Moment Op Op.Res))
    (slot : Lru.Slot Str ChatResponse Time) : Prop :=
  ∃ past en between, log = past ++ en :: between ∧ Stored P cfg en slot ∧
    ∀ en' ∈ between, ¬ Overwrites P cfg slot.key en'.event

variable {P : Platform} {log : List (Entry ι Moment Op Op.Res)}
  {slot : Lru.Slot Str ChatResponse Time}

/-- A call that does not overwrite the key leaves the latest store of it. -/
theorem LastStored.append {cfg : CacheConfig} (h : LastStored P cfg log slot)
    {en : Entry ι Moment Op Op.Res} (hkept : ¬ Overwrites P cfg slot.key en.event) :
    LastStored P cfg (log ++ [en]) slot := by
  obtain ⟨past, put, between, rfl, hstored, hbetween⟩ := h
  refine ⟨past, put, between ++ [en], by simp, hstored, fun en' hen' => ?_⟩
  rcases List.mem_append.mp hen' with hen' | hen'
  · exact hbetween en' hen'
  · rwa [List.mem_singleton.mp hen']

/-- A lookup stores nothing. -/
theorem Cache.get_view (P : Platform) (cfg : CacheConfig) (now : Time) (req : ChatRequest)
    {c : Cache} (hwf : c.Wf) :
    (c.get P cfg now req).2.Wf ∧ ∀ slot ∈ (c.get P cfg now req).2.view, slot ∈ c.view := by
  by_cases hen : cfg.enabled = true
  · obtain ⟨-, hview, hwf'⟩ := get_refines P hen now req hwf
    refine ⟨hwf', fun slot hslot => ?_⟩
    rw [hview] at hslot
    exact Lru.mem_of_mem_read hslot
  · have hoff : c.get P cfg now req = (none, { c with misses := c.misses + 1 }) := by
      unfold get
      rw [if_pos (by simpa using hen)]
    rw [hoff]
    exact ⟨hwf, fun _ hslot => hslot⟩

/-- What is in the cache after a `put` that returned: what it stored, and what was
there before and is not overwritten. -/
theorem Cache.put_view {cfg : CacheConfig} {now : Time} {req : ChatRequest}
    {resp : ChatResponse} {c c' : Cache} (hwf : c.Wf) (h : c.put P cfg now req resp = some c') :
    c'.Wf ∧ ∀ slot ∈ c'.view,
      slot = ⟨makeKey P cfg req, resp, now + seconds cfg.ttlSeconds⟩ ∨
        slot ∈ c.view ∧ ¬ Overwrites P cfg slot.key ⟨.cachePut req resp, true⟩ := by
  rcases put_cases h with ⟨hidle, rfl⟩ | ⟨heff, -⟩
  · exact ⟨hwf, fun slot hslot => .inr ⟨hslot, fun hover => hidle ⟨hover.2.1, hover.2.2.1⟩⟩⟩
  · have hroom := (put_isSome_iff P cfg now req resp c).mp (by rw [h]; rfl)
    simp only [heff.1, heff.2, Bool.true_eq_false, Bool.false_eq_true, false_or] at hroom
    obtain ⟨c'', hput, hwf', hview, -⟩ := put_refines P heff.1 now heff.2 resp hroom hwf
    cases h.symm.trans hput
    refine ⟨hwf', fun slot hslot => ?_⟩
    rw [hview, Lru.write] at hslot
    rcases List.mem_cons.mp hslot with rfl | hslot
    · exact .inl rfl
    · obtain ⟨hold, hkey⟩ := Lru.mem_of_mem_kept hslot
      exact .inr ⟨hold, fun hover => hkey hover.2.2.2.symm⟩

/-- The cache holds only what the calls so far have left in it. -/
structure HoldsStored (P : Platform) (cfg : GatewayConfig) (log : List (Entry ι Moment Op Op.Res))
    (s : Server) : Prop where
  config : s.config = cfg
  wf : s.cache.Wf
  stored : ∀ slot ∈ s.cache.view, LastStored P cfg.cache log slot

variable {cfg : GatewayConfig} {s : Server}

/-- The step: a `put` is the latest store of its key, and whatever else a method keeps
was there before it. -/
theorem HoldsStored.exec (h : HoldsStored P cfg log s) (i : ι) (e : Moment) (o : Op) :
    HoldsStored P cfg (log ++ [⟨i, e, ⟨o, (o.exec P e s).1⟩⟩]) (o.exec P e s).2 := by
  have hconfig : (o.exec P e s).2.config = cfg := (o.exec_config P e s).trans h.config
  cases o with
  | cacheGet req =>
      obtain ⟨hwf, hview⟩ := Cache.get_view P s.config.cache e.now req h.wf
      exact ⟨hconfig, hwf, fun slot hslot => (h.stored slot (hview slot hslot)).append id⟩
  | cachePut req resp =>
      cases hput : s.cache.put P s.config.cache e.now req resp with
      | none =>
          simp only [Op.exec, hput]
          exact ⟨h.config, h.wf, fun slot hslot => (h.stored slot hslot).append
            fun hover => Bool.false_ne_true hover.1⟩
      | some cache =>
          obtain ⟨hwf, hview⟩ := Cache.put_view h.wf hput
          simp only [Op.exec, hput]
          refine ⟨h.config, hwf, fun slot hslot => ?_⟩
          rw [h.config] at hview
          rcases hview slot hslot with rfl | ⟨hold, hkept⟩
          · exact ⟨log, _, [], rfl, ⟨req, rfl, rfl, rfl⟩, by simp⟩
          · exact (h.stored slot hold).append hkept
  | cacheClear => exact ⟨hconfig, Cache.clear_wf _, fun slot hslot => by cases hslot⟩
  | _ => exact ⟨hconfig, h.wf, fun slot hslot => (h.stored slot hslot).append id⟩

/-- The run: what is in the cache was stored in the log. -/
theorem holdsStored (hrun : Replays (Op.exec P) (Server.init cfg) log s) :
    HoldsStored P cfg log s := by
  refine hrun.induction (J := HoldsStored P cfg) ?_ fun past i e o t h => h.exec i e o
  exact ⟨rfl, Cache.init_wf _, fun slot hslot => by cases hslot⟩

/-- **What a lookup serves** is what the latest store under its key has left, while
it is alive. -/
theorem lookup_stored {past rest : List (Entry ι Moment Op Op.Res)} {i : ι} {e : Moment}
    {req : ChatRequest} {resp : ChatResponse}
    (hrun : Replays (Op.exec P) (Server.init cfg)
      (past ++ ⟨i, e, ⟨.cacheGet req, some resp⟩⟩ :: rest) s) :
    ∃ slot, LastStored P cfg.cache past slot ∧ slot.key = makeKey P cfg.cache req ∧
      resp = slot.value.asHit req ∧ e.now ≤ slot.expires := by
  obtain ⟨t, hpast, hanswer⟩ := hrun.at_call
  have hholds := holdsStored hpast
  by_cases hen : cfg.cache.enabled = true
  · obtain ⟨hget, -, -⟩ := Cache.get_refines P hen e.now req hholds.wf
    have hserved : some resp = (t.cache.get P t.config.cache e.now req).1 := hanswer
    rw [hholds.config, hget] at hserved
    rcases Lru.read_cases e.now (makeKey P cfg.cache req) t.cache.view with
      ⟨-, hr⟩ | ⟨slot, -, -, hr⟩ | ⟨slot, hlookup, hfresh, hr⟩
    · rw [hr] at hserved
      cases hserved
    · rw [hr] at hserved
      cases hserved
    · rw [hr] at hserved
      obtain ⟨hmem, hkey⟩ := Lru.lookup_eq_some hlookup
      exact ⟨slot, hholds.stored slot hmem, hkey, Option.some.inj hserved, not_lt.mp hfresh⟩
  · have hoff : (t.cache.get P t.config.cache e.now req).1 = none := by
      rw [hholds.config]
      unfold Cache.get
      rw [if_pos (by simpa using hen)]
    have hserved : some resp = (t.cache.get P t.config.cache e.now req).1 := hanswer
    rw [hoff] at hserved
    cases hserved

end

/-! ## What the handlers store -/

/-- The completion that a request asks for. -/
def Request.asked : Request → Option ChatRequest
  | completions draw http =>
      http.body.bind fun body =>
        match readRequest (generateRequestId draw) body with
        | .ok (some req) => some { req with apiKey := http.authorization }
        | _ => none
  | chat draw http =>
      http.body.bind fun body =>
        match body.value Json.getString (str "prompt") [] with
        | .ok prompt =>
            if prompt.isEmpty then none
            else some (legacyRequest (generateRequestId draw) prompt)
        | .error _ => none
  | _ => none

/-- Up to its name, its price and its id the response is what a provider answered to
the request under some model. -/
def FromCall (asked : ChatRequest) (tr : List (Event Op Op.Res)) (resp : ChatResponse) : Prop :=
  ∃ name provider model raw,
    (⟨.callProvider name provider { asked with model := model }, .answered raw⟩ :
        Event Op Op.Res) ∈ tr ∧
      resp = { raw with
        provider := resp.provider, costUsd := resp.costUsd, requestId := resp.requestId }

/-- The calls store only for this request, and only what a provider answered to it. -/
def Justified (asked : Option ChatRequest) (tr : List (Event Op Op.Res)) : Prop :=
  ∀ before req resp stored after, tr = before ++ ⟨.cachePut req resp, stored⟩ :: after →
    asked = some req ∧ FromCall req before resp

section
variable {asked : Option ChatRequest} {req : ChatRequest} {resp : ChatResponse}
  {tr : List (Event Op Op.Res)}

/-- Further calls do not take the answer back. -/
theorem FromCall.append (h : FromCall req tr resp) (ev : Event Op Op.Res) :
    FromCall req (tr ++ [ev]) resp := by
  obtain ⟨name, provider, model, raw, hmem, hresp⟩ := h
  exact ⟨name, provider, model, raw, List.mem_append_left _ hmem, hresp⟩

theorem justified_nil : Justified asked [] := by
  intro before req resp stored after heq
  exact absurd heq.symm (by simp)

/-- One more call is justified if it stores nothing or stores an answer to the request.
-/
theorem Justified.append (h : Justified asked tr) {ev : Event Op Op.Res}
    (hev : ∀ req resp stored, ev = ⟨.cachePut req resp, stored⟩ →
      asked = some req ∧ FromCall req tr resp) : Justified asked (tr ++ [ev]) := by
  intro before req resp stored after heq
  rcases List.eq_nil_or_concat after with rfl | ⟨after, last, rfl⟩
  · obtain ⟨rfl, hlast⟩ := List.append_inj' heq rfl
    exact hev req resp stored (List.singleton_inj.mp hlast)
  · rw [List.concat_eq_append, ← List.cons_append, ← List.append_assoc] at heq
    exact h before req resp stored after (List.append_inj' heq rfl).1

/-- The method is not `put`. -/
def Op.isPut : Op → Bool
  | .cachePut .. => true
  | _ => false

/-- A method other than `put` stores nothing. -/
theorem Justified.quiet (h : Justified asked tr) {o : Op} (ho : o.isPut = false) (r : o.Res) :
    Justified asked (tr ++ [⟨o, r⟩]) :=
  h.append fun req resp stored heq => by
    cases heq
    cases ho

end

/-- The response says that it comes from the cache: in the flag of `/chat`, or in
the header of `/v1/chat/completions`. -/
def Response.cached (resp : Response) : Bool :=
  match resp.body.find? (str "cached") with
  | some (.boolean flag) => flag
  | _ => resp.verdict = .hit

def Reply.cached : Reply → Bool
  | .response resp => resp.cached
  | _ => false

/-- The page of the metrics comes from no cache. -/
def Answer.cached : Answer → Bool
  | .of reply => reply.cached
  | .page .. => false

/-- A response without the flag. -/
theorem Reply.cached_eq {resp : Response} (h : resp.body.find? (str "cached") = none) :
    (Reply.response resp).cached = decide (resp.verdict = .hit) := by
  unfold cached Response.cached
  simp only [h]

/-- No error comes from the cache. -/
theorem makeError_cached (status : ℤ) (message : Str) :
    (Reply.response (makeError status message)).cached = false := by
  rw [Reply.cached_eq rfl, makeError_verdict]
  split <;> rfl

/-- The answer of a provider says that it missed. -/
theorem missResponse_cached (id : Str) (resp : ChatResponse) (decision : RouteDecision) :
    (Reply.response (missResponse id resp decision)).cached = false := by
  rw [Reply.cached_eq rfl, missResponse_verdict]
  rfl

/-- A refusal of the limiter comes from no cache. -/
theorem throttled_cached (rl : RateLimitResult) :
    (Reply.response (throttled rl)).cached = false := by
  rw [Reply.cached_eq rfl, throttled_verdict]
  rfl

/-- What the program stores is justified, and no answer of it is from the cache. -/
abbrev Stores (asked : ChatRequest) (past : List (Event Op Op.Res)) (p : Program Reply) : Prop :=
  After (fun _ => True) past p fun tr x =>
    Justified (some asked) tr ∧ ∀ reply ∈ x, reply.cached = false

/-- What the program stores is justified, and an answer from the cache is what the
lookup found, and the program stored nothing. -/
abbrev Serves (asked : ChatRequest) (shown : ChatResponse → Reply)
    (past : List (Event Op Op.Res)) (p : Program Reply) : Prop :=
  After (fun _ => True) past p fun tr x =>
    Justified (some asked) tr ∧ ∀ reply ∈ x, reply.cached = true →
      (∃ resp, (⟨.cacheGet asked, some resp⟩ : Event Op Op.Res) ∈ tr ∧ reply = shown resp) ∧
        ∀ ev ∈ tr, ev.1.isPut = false

/-- A program without answers from the cache. -/
theorem Stores.serves {asked : ChatRequest} {past : List (Event Op Op.Res)} {p : Program Reply}
    (h : Stores asked past p) (shown : ChatResponse → Reply) : Serves asked shown past p :=
  After.mono h fun _ _ hstores => ⟨hstores.1, fun reply hreply hcached => by
    rw [hstores.2 reply hreply] at hcached
    cases hcached⟩

namespace Handler

variable {P : Platform} {req : ChatRequest} {decision : RouteDecision}
  {past : List (Event Op Op.Res)}

theorem ret_stores (hpast : Justified (some req) past) {reply : Reply}
    (hreply : reply.cached = false) : Stores req past (ret reply) := by
  rw [Stores, After.ret_iff]
  refine ⟨hpast, fun r hr => ?_⟩
  cases hr
  exact hreply

/-- A call other than `put` in front of a program. -/
theorem call_stores (hpast : Justified (some req) past) {o : Op} (ho : o.isPut = false)
    {k : o.Res → Program Reply}
    (hk : ∀ r, Justified (some req) (past ++ [⟨o, r⟩]) → Stores req (past ++ [⟨o, r⟩]) (k r)) :
    Stores req past (call o k) := by
  rw [Stores, After.call_iff]
  exact ⟨⟨hpast, fun _ hr => by cases hr⟩, fun r _ => hk r (hpast.quiet ho r)⟩

theorem refuse_stores (hpast : Justified (some req) past) (status : ℤ) (message : Str) :
    Stores req past (refuse (makeError status message)) :=
  call_stores hpast rfl fun _ hpast => ret_stores hpast (makeError_cached status message)

/-- What `put` stores, and what follows it. -/
theorem put_stores {resp : ChatResponse} {reply : Reply} (hpast : Justified (some req) past)
    (hcall : FromCall req past resp) (hreply : reply.cached = false) :
    Stores req past (call (.cachePut req resp) fun (stored : Bool) =>
      if stored then ret reply else ret .hangs) := by
  rw [Stores, After.call_iff]
  refine ⟨⟨hpast, fun _ hr => by cases hr⟩, fun (stored : Bool) _ => ?_⟩
  have hput : Justified (some req) (past ++ [⟨.cachePut req resp, stored⟩]) :=
    hpast.append fun req' resp' stored' heq => by
      cases heq
      exact ⟨rfl, hcall⟩
  cases stored with
  | false => exact ret_stores hput rfl
  | true => exact ret_stores hput hreply

/-- Settling stores the answer with its price and its id, and replies that it missed. -/
theorem settle_stores {resp : ChatResponse} (hpast : Justified (some req) past)
    (hcall : FromCall req past resp) : Stores req past (settle req decision resp) := by
  simp only [settle, perform_bind]
  refine call_stores hpast rfl fun (cost : Double) hpast => ?_
  refine call_stores hpast rfl fun (now : Time) hpast => ?_
  refine call_stores hpast rfl fun _ hpast => ?_
  obtain ⟨name, provider, model, raw, hmem, hresp⟩ :=
    ((hcall.append _).append _).append _
  refine After.bind ?_
  have husage : Uses (fun o => o.isPut = false)
      (recordUsage req { resp with costUsd := cost, requestId := req.requestId }) := by
    unfold recordUsage
    split
    · trivial
    · exact ⟨rfl, fun _ => trivial⟩
  refine After.mono (After.of_uses (J := fun tr => Justified (some req) tr ∧ FromCall req tr
    { resp with costUsd := cost, requestId := req.requestId }) husage
    ⟨hpast, name, provider, model, raw, hmem, by rw [hresp]⟩
    fun tr o r ho h => ⟨h.1.quiet ho r, h.2.append _⟩) fun tr x h => ?_
  cases x with
  | none => exact ⟨h.1, fun _ hr => by cases hr⟩
  | some _ =>
      refine call_stores h.1 rfl fun _ hpast => ?_
      refine call_stores hpast rfl fun _ hpast => ?_
      refine put_stores hpast ((h.2.append _).append _) ?_
      exact missResponse_cached _ _ _

/-- The provider calls: nothing is stored, and an answer is one of a call. -/
abbrev Calls (asked : ChatRequest) (past : List (Event Op Op.Res)) (p : Program CallEnd) : Prop :=
  After (fun _ => True) past p fun tr x =>
    Justified (some asked) tr ∧ ∀ resp, x = some (.answered resp) → FromCall asked tr resp

theorem ret_calls (hpast : Justified (some req) past) {finish : CallEnd}
    (h : ∀ resp, finish = .answered resp → FromCall req past resp) :
    Calls req past (ret finish) := by
  rw [Calls, After.ret_iff]
  exact ⟨hpast, fun resp hresp => h resp (Option.some.inj hresp)⟩

/-- A call other than `put` in front of provider calls. -/
theorem call_calls (hpast : Justified (some req) past) {o : Op} (ho : o.isPut = false)
    {k : o.Res → Program CallEnd}
    (hk : ∀ r, Justified (some req) (past ++ [⟨o, r⟩]) → Calls req (past ++ [⟨o, r⟩]) (k r)) :
    Calls req past (call o k) := by
  rw [Calls, After.call_iff]
  exact ⟨⟨hpast, fun _ hr => by cases hr⟩, fun r _ => hk r (hpast.quiet ho r)⟩

/-- The call that answers is among the calls. -/
theorem fromCall_of_answered {name : Str} {provider : Provider} {model : Str}
    {raw : ChatResponse} (providerName : Str) :
    FromCall req (past ++ [⟨.callProvider name provider { req with model := model },
      ChatOutcome.answered raw⟩]) { raw with provider := providerName } :=
  ⟨name, provider, model, raw, by simp, rfl⟩

/-- A fallback answers under its own name. -/
theorem tryFallbacks_calls (chain : List Str) (hpast : Justified (some req) past) :
    Calls req past (tryFallbacks req chain) := by
  induction chain generalizing past with
  | nil => exact ret_calls hpast nofun
  | cons fbName chain ih =>
      simp only [tryFallbacks, perform_bind]
      refine call_calls hpast rfl fun (fb : Option Provider) hpast => ?_
      cases fb with
      | none => exact ih hpast
      | some fb =>
          simp only
          split
          · exact ih hpast
          · refine call_calls hpast rfl fun (outcome : ChatOutcome) hpast => ?_
            cases outcome with
            | answered resp =>
                refine call_calls hpast rfl fun _ hpast => ret_calls hpast fun resp' heq => ?_
                cases heq
                exact (fromCall_of_answered fbName).append _
            | threw e => exact call_calls hpast rfl fun _ hpast => ih hpast
            | nullException => exact ret_calls hpast nofun

/-- Whichever provider answers, its call is in the log. -/
theorem callProviders_calls (provider : Provider) (hpast : Justified (some req) past) :
    Calls req past (callProviders req decision provider) := by
  refine call_calls hpast rfl fun (outcome : ChatOutcome) hpast => ?_
  cases outcome with
  | answered resp =>
      refine call_calls hpast rfl fun _ hpast => ret_calls hpast fun resp' heq => ?_
      cases heq
      exact (fromCall_of_answered resp.provider).append _
  | threw e => exact call_calls hpast rfl fun _ hpast => tryFallbacks_calls _ hpast
  | nullException => exact ret_calls hpast nofun

theorem callStep_stores (provider : Provider) (hpast : Justified (some req) past) :
    Stores req past (callStep req decision provider) := by
  refine After.bind (After.mono (callProviders_calls provider hpast) fun tr x h => ?_)
  cases x with
  | none => exact ⟨h.1, fun _ hr => by cases hr⟩
  | some finish =>
      cases finish with
      | answered resp => exact settle_stores h.1 (h.2 resp rfl)
      | failed => exact refuse_stores h.1 _ _
      | crashed => exact ret_stores h.1 rfl

theorem routeStep_stores (hpast : Justified (some req) past) : Stores req past (routeStep req) := by
  simp only [routeStep, perform_bind]
  refine call_stores hpast rfl fun (decision : RouteDecision) hpast => ?_
  split
  · exact refuse_stores hpast _ _
  · refine call_stores hpast rfl fun (provider : Option Provider) hpast => ?_
    cases provider with
    | none => exact refuse_stores hpast _ _
    | some provider => exact callStep_stores provider hpast

/-- What a `/v1/chat/completions` client is sent for a hit. -/
def shownHit (req : ChatRequest) (resp : ChatResponse) : Reply :=
  .response (hitResponse req.requestId resp)

/-- What a `/chat` client is sent for a hit. -/
def shownLegacyHit (resp : ChatResponse) : Reply :=
  .response (legacyResponse
    [(str "response", .string resp.content), (str "cached", .boolean true)])

/-- An answer from the cache, after calls that stored nothing. -/
theorem ret_serves {asked : ChatRequest} {resp : ChatResponse} (shown : ChatResponse → Reply)
    (hpast : Justified (some asked) past) (hidle : ∀ ev ∈ past, ev.1.isPut = false)
    (hfound : (⟨.cacheGet asked, some resp⟩ : Event Op Op.Res) ∈ past) :
    Serves asked shown past (ret (shown resp)) := by
  rw [Serves, After.ret_iff]
  refine ⟨hpast, fun reply hreply _ => ?_⟩
  cases hreply
  exact ⟨⟨resp, hfound, rfl⟩, hidle⟩

/-- A call other than `put` in front of a program that serves from the cache. -/
theorem call_serves {asked : ChatRequest} {shown : ChatResponse → Reply}
    (hpast : Justified (some asked) past) (hidle : ∀ ev ∈ past, ev.1.isPut = false) {o : Op}
    (ho : o.isPut = false) {k : o.Res → Program Reply}
    (hk : ∀ r, Justified (some asked) (past ++ [⟨o, r⟩]) →
      (∀ ev ∈ past ++ [(⟨o, r⟩ : Event Op Op.Res)], ev.1.isPut = false) →
        Serves asked shown (past ++ [⟨o, r⟩]) (k r)) :
    Serves asked shown past (call o k) := by
  rw [Serves, After.call_iff]
  refine ⟨⟨hpast, fun _ hr => by cases hr⟩, fun r _ => hk r (hpast.quiet ho r) fun ev hev => ?_⟩
  rcases List.mem_append.mp hev with hev | hev
  · exact hidle ev hev
  · rw [List.mem_singleton.mp hev]
    exact ho

/-- A hit is answered with what the lookup found; a miss goes on to the providers. -/
theorem cacheStep_serves (hpast : Justified (some req) past)
    (hidle : ∀ ev ∈ past, ev.1.isPut = false) : Serves req (shownHit req) past (cacheStep req) := by
  simp only [cacheStep, perform_bind]
  refine call_serves hpast hidle rfl fun (found : Option ChatResponse) hpast hidle => ?_
  cases found with
  | some resp =>
      refine call_serves hpast hidle rfl fun _ hpast hidle => ?_
      exact ret_serves (shownHit req) hpast hidle (by simp)
  | none =>
      refine call_serves hpast hidle rfl fun _ hpast hidle => ?_
      exact (routeStep_stores hpast).serves _

/-- What the limiter lets through is served, and what it refuses is not from the cache.
-/
theorem limitStep_serves (hpast : Justified (some req) past)
    (hidle : ∀ ev ∈ past, ev.1.isPut = false) :
    Serves req (shownHit req) past (limitStep P req) := by
  unfold limitStep
  split
  · exact cacheStep_serves hpast hidle
  · simp only [perform_bind]
    refine call_serves hpast hidle rfl fun (_ : Option VirtualKey) hpast hidle => ?_
    refine call_serves hpast hidle rfl fun (checked : RateLimitResult) hpast hidle => ?_
    split
    · exact (ret_stores hpast (throttled_cached checked)).serves _
    · exact cacheStep_serves hpast hidle

/-- A request that is accepted is looked up as it was asked. -/
theorem chatCompletions_serves {draw : UInt64} {http : HttpRequest}
    (hasked : (Request.completions draw http).asked = some req) :
    Serves req (shownHit req) [] (chatCompletions P draw http) := by
  simp only [chatCompletions, perform_bind]
  refine call_serves justified_nil (by simp) rfl fun _ hpast hidle => ?_
  simp only [Request.asked] at hasked
  cases hbody : http.body with
  | none =>
      rw [hbody] at hasked
      cases hasked
  | some body =>
      rw [hbody, Option.bind_some] at hasked
      rcases hread : readRequest (generateRequestId draw) body with e | _ | parsed
      · simp only [hread] at hasked
        cases hasked
      · simp only [hread] at hasked
        cases hasked
      · simp only [hread, Option.some.injEq] at hasked
        subst hasked
        simp only [hread]
        exact limitStep_serves hpast hidle

/-- `/chat` stores the answer as it came. -/
theorem legacyCall_stores (provider : Provider) (hpast : Justified (some req) past) :
    Stores req past (legacyCall req decision provider) := by
  simp only [legacyCall, perform_bind]
  refine call_stores hpast rfl fun (outcome : ChatOutcome) hpast => ?_
  cases outcome with
  | threw e => exact ret_stores hpast (makeError_cached _ _)
  | nullException => exact ret_stores hpast rfl
  | answered resp => exact put_stores hpast (fromCall_of_answered resp.provider) rfl

theorem legacyRoute_stores (hpast : Justified (some req) past) :
    Stores req past (legacyRoute req) := by
  simp only [legacyRoute, perform_bind]
  refine call_stores hpast rfl fun (decision : RouteDecision) hpast => ?_
  refine call_stores hpast rfl fun (provider : Option Provider) hpast => ?_
  cases provider with
  | none => exact ret_stores hpast (makeError_cached _ _)
  | some provider => exact legacyCall_stores provider hpast

/-- The lookup is the first call of `/chat`. -/
theorem legacyCache_serves : Serves req shownLegacyHit [] (legacyCache req) := by
  simp only [legacyCache, perform_bind]
  refine call_serves justified_nil (by simp) rfl fun (found : Option ChatResponse) hpast hidle => ?_
  cases found with
  | some resp => exact ret_serves shownLegacyHit hpast hidle (by simp)
  | none => exact (legacyRoute_stores hpast).serves _

theorem chat_serves {draw : UInt64} {http : HttpRequest}
    (hasked : (Request.chat draw http).asked = some req) :
    Serves req shownLegacyHit [] (chat draw http) := by
  simp only [Request.asked] at hasked
  cases hbody : http.body with
  | none =>
      rw [hbody] at hasked
      cases hasked
  | some body =>
      rw [hbody, Option.bind_some] at hasked
      rcases hread : body.value Json.getString (str "prompt") [] with e | prompt
      · simp only [hread] at hasked
        cases hasked
      · simp only [hread] at hasked
        split at hasked
        · cases hasked
        · next hprompt =>
            cases hasked
            simp only [chat, hbody, hread, if_neg hprompt]
            exact legacyCache_serves

/-- A body that is refused stores nothing. -/
theorem chatCompletions_unasked {draw : UInt64} {http : HttpRequest}
    (hasked : (Request.completions draw http).asked = none) :
    After (fun _ => True) [] (chatCompletions P draw http) fun tr _ => Justified none tr := by
  have hcounted : Justified none [(⟨.count .incRequests, ()⟩ : Event Op Op.Res)] :=
    justified_nil.quiet (o := .count .incRequests) rfl ()
  simp only [chatCompletions, perform_bind, After.call_iff, List.nil_append]
  refine ⟨justified_nil, fun _ _ => ?_⟩
  simp only [Request.asked] at hasked
  cases hbody : http.body with
  | none => simpa using hcounted
  | some body =>
      rw [hbody, Option.bind_some] at hasked
      rcases hread : readRequest (generateRequestId draw) body with e | _ | parsed
      · simpa [hread] using hcounted
      · simpa [hread] using hcounted
      · simp only [hread] at hasked
        cases hasked

/-- Nor does a prompt that is missing or empty. -/
theorem chat_unasked {draw : UInt64} {http : HttpRequest}
    (hasked : (Request.chat draw http).asked = none) :
    After (fun _ => True) [] (chat draw http) fun tr _ => Justified none tr := by
  simp only [Request.asked] at hasked
  cases hbody : http.body with
  | none => simpa [chat, hbody] using justified_nil
  | some body =>
      rw [hbody, Option.bind_some] at hasked
      rcases hread : body.value Json.getString (str "prompt") [] with e | prompt
      · simpa [chat, hbody, hread] using justified_nil
      · simp only [hread] at hasked
        split at hasked
        · next hprompt => simpa [chat, hbody, hread, hprompt] using justified_nil
        · cases hasked

end Handler

/-- A handler meets as an answer what it meets as a reply. -/
theorem After.of_reply {past : List (Event Op Op.Res)} {p : Program Reply}
    {Q : List (Event Op Op.Res) → Option Reply → Prop}
    {R : List (Event Op Op.Res) → Option Answer → Prop} (h : After (fun _ => True) past p Q)
    (hnone : ∀ tr, Q tr none → R tr none) (hsome : ∀ tr r, Q tr (some r) → R tr (some (.of r))) :
    After (fun _ => True) past (Answer.of <$> p) R := by
  refine After.bind (After.mono h fun tr x hx => ?_)
  cases x with
  | none => exact hnone tr hx
  | some r => exact After.ret_iff.mpr (hsome tr r hx)

/-- **What a handler stores.** -/
theorem Request.handler_justified (P : Platform) (startTime : Time) (request : Request) :
    Meets (fun _ => True) (request.handler P startTime) fun tr _ => Justified request.asked tr := by
  have hidle : (∀ req resp, request.allows (.cachePut req resp) = false) →
      Meets (fun _ => True) (request.handler P startTime)
        fun tr _ => Justified request.asked tr := fun hput =>
    After.of_uses (request.handler_uses P startTime) justified_nil fun tr o r ho h =>
      h.append fun req resp stored heq => by
        cases heq
        rw [hput] at ho
        cases ho
  cases request with
  | completions draw http =>
      cases hasked : (Request.completions draw http).asked with
      | none =>
          refine After.nil_iff.mp (After.of_reply (Handler.chatCompletions_unasked hasked) ?_ ?_)
          · exact fun tr h => h
          · exact fun tr reply h => h
      | some req =>
          refine After.nil_iff.mp (After.of_reply (Handler.chatCompletions_serves hasked) ?_ ?_)
          · exact fun tr h => h.1
          · exact fun tr reply h => h.1
  | chat draw http =>
      cases hasked : (Request.chat draw http).asked with
      | none =>
          refine After.nil_iff.mp (After.of_reply (Handler.chat_unasked hasked) ?_ ?_)
          · exact fun tr h => h
          · exact fun tr reply h => h
      | some req =>
          refine After.nil_iff.mp (After.of_reply (Handler.chat_serves hasked) ?_ ?_)
          · exact fun tr h => h.1
          · exact fun tr reply h => h.1
  | _ => exact hidle fun _ _ => rfl

/-- What the client is sent when the lookup finds the response. -/
def Request.shown : Request → ChatRequest → ChatResponse → Answer
  | completions .., asked, resp => .of (Handler.shownHit asked resp)
  | _, _, resp => .of (Handler.shownLegacyHit resp)

/-- **What a handler serves from the cache.** -/
theorem Request.handler_serves (P : Platform) (startTime : Time) {request : Request}
    {asked : ChatRequest} (hasked : request.asked = some asked) :
    Meets (fun _ => True) (request.handler P startTime) fun tr x =>
      ∀ answer ∈ x, answer.cached = true →
        (∃ resp, (⟨.cacheGet asked, some resp⟩ : Event Op Op.Res) ∈ tr ∧
            answer = request.shown asked resp) ∧
          ∀ ev ∈ tr, ev.1.isPut = false := by
  cases request with
  | completions draw http =>
      refine After.nil_iff.mp (After.of_reply (Handler.chatCompletions_serves hasked) ?_ ?_)
      · exact fun tr _ answer hanswer => by cases hanswer
      · intro tr reply h answer hanswer hcached
        cases hanswer
        obtain ⟨⟨resp, hfound, rfl⟩, hidle⟩ := h.2 reply rfl hcached
        exact ⟨⟨resp, hfound, rfl⟩, hidle⟩
  | chat draw http =>
      refine After.nil_iff.mp (After.of_reply (Handler.chat_serves hasked) ?_ ?_)
      · exact fun tr _ answer hanswer => by cases hanswer
      · intro tr reply h answer hanswer hcached
        cases hanswer
        obtain ⟨⟨resp, hfound, rfl⟩, hidle⟩ := h.2 reply rfl hcached
        exact ⟨⟨resp, hfound, rfl⟩, hidle⟩
  | _ => cases hasked

/-! ## Answers from the cache -/

/-- Where an answer from the cache comes from: the request `j` stored the response,
which a provider had given it, and nobody replaced or dropped it before the request
`i` found it, in time. -/
structure Origin {ι : Type} [DecidableEq ι] (P : Platform) (cfg : CacheConfig)
    (requests : ι → Request) (log : List (Entry ι Moment Op Op.Res)) (i j : ι)
    (asked other : ChatRequest) (stored : ChatResponse) : Prop where
  differs : j ≠ i
  asks : (requests j).asked = some other
  sameKey : makeKey P cfg other = makeKey P cfg asked
  order : ∃ past put between get rest, log = past ++ put :: between ++ get :: rest ∧
    put.thread = j ∧ put.event = ⟨.cachePut other stored, true⟩ ∧
    get.thread = i ∧ get.event = ⟨.cacheGet asked, some (stored.asHit asked)⟩ ∧
    get.input.now ≤ put.input.now + seconds cfg.ttlSeconds ∧
    (∀ en ∈ between, ¬ Overwrites P cfg (makeKey P cfg asked) en.event) ∧
    FromCall other (traceOf j past) stored

/-- **An answer from the cache is another request's answer.**  In every order of the
steps, from the start of a server, a client is told that its answer comes from the
cache only if another request with the same key was answered by a provider before
and stored that answer, the latest one under the key, no longer ago than its time
to live. -/
theorem cached_answer {ι : Type} [DecidableEq ι] (P : Platform) (startTime : Time)
    (cfg : GatewayConfig) (requests : ι → Request) (sched : List (ι × Moment)) {i : ι}
    {answer : Answer}
    (hdone : (Service.after P startTime (.init cfg) requests sched).threads i = ret answer)
    {asked : ChatRequest} (hasked : (requests i).asked = some asked)
    (hcached : answer.cached = true) :
    ∃ j other stored,
      Origin P cfg.cache requests (Service.after P startTime (.init cfg) requests sched).log i j
          asked other stored ∧
        answer = (requests i).shown asked (stored.asHit asked) := by
  have hrun := Service.explained P startTime (.init cfg) requests sched
  have hserves := hrun.guarantees (Request.handler_serves P startTime hasked)
  have hjustified := fun j => hrun.guarantees ((requests j).handler_justified P startTime)
  have hreplays := hrun.replays
  rw [hdone] at hserves
  obtain ⟨⟨resp, hfound, hanswer⟩, hidle⟩ := hserves answer rfl hcached
  obtain ⟨get, hget, hthread, hevent⟩ := mem_traceOf.mp hfound
  generalize (Service.after P startTime (.init cfg) requests sched).log = log at *
  obtain ⟨earlier, rest, rfl⟩ := List.append_of_mem hget
  have hgetEq : get = ⟨i, get.input, ⟨.cacheGet asked, some resp⟩⟩ := by
    rw [← hthread, ← hevent]
  rw [hgetEq] at hreplays
  obtain ⟨slot, ⟨past, put, between, rfl, ⟨other, hput, hkey, hexpires⟩, hbetween⟩, hslot, rfl,
    hfresh⟩ := lookup_stored hreplays
  have htrace : traceOf put.thread (past ++ put :: between ++ get :: rest) =
      traceOf put.thread past ++ ⟨.cachePut other slot.value, true⟩ ::
        traceOf put.thread (between ++ get :: rest) := by
    have hown : traceOf put.thread [put] = [put.event] := traceOf_own put.input put.event
    rw [List.append_assoc, List.cons_append, ← List.singleton_append, traceOf_append,
      traceOf_append, hown, hput, List.singleton_append]
  obtain ⟨hother, hcall⟩ := hjustified put.thread _ _ _ _ _ htrace
  have hdiffers : put.thread ≠ i := by
    intro heq
    have hmem : (⟨.cachePut other slot.value, true⟩ : Event Op Op.Res) ∈
        traceOf i (past ++ put :: between ++ get :: rest) := by
      rw [← heq, htrace]
      simp
    cases hidle _ hmem
  refine ⟨put.thread, other, slot.value, ⟨hdiffers, hother, hkey.symm.trans hslot, past, put,
    between, get, rest, rfl, rfl, hput, hthread, hevent, ?_, ?_, hcall⟩, hanswer⟩
  · rwa [← hexpires]
  · rwa [← hslot]

/-- One greeting is served from start to end, then the other. -/
def consecutive : List (Fin 2 × Moment) :=
  (List.finRange 2).flatMap fun i => List.replicate 13 (i, online)

/-- What the second client asks for. -/
def secondGreeting : ChatRequest where
  requestId := generateRequestId 1
  model := str "gpt-4o-mini"
  messages := [⟨str "user", str "hi"⟩]

/-- What it is told. -/
def greetingHit : Answer :=
  .of (.response (hitResponse (generateRequestId 1)
    { requestId := generateRequestId 1, provider := str "groq", model := str "gemma2-9b-it",
      fromCache := true, rawResponse := .object [] }))

set_option maxRecDepth 4096 in
theorem cached_answer_consecutive :
    ∃ j other stored,
      Origin (cLocale fnv1a) (oneProvider 10).config.cache twoGreetings
          (Service.after (cLocale fnv1a) 0 (oneProvider 10) twoGreetings consecutive).log 1 j
          secondGreeting other stored ∧
        greetingHit = (twoGreetings 1).shown secondGreeting (stored.asHit secondGreeting) :=
  cached_answer (cLocale fnv1a) 0 (oneProvider 10).config twoGreetings consecutive
    (by with_unfolding_all rfl) rfl rfl

end Gateway
