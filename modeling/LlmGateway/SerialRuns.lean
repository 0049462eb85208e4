import LlmGateway.Handlers

/-!
# Requests one after another

The functions of `ChatCompletions` handle a request on singletons that nobody else
touches.  They are the handlers run alone (`chatCompletions_alone`, `chat_alone`):
the clock stands at `now` up to the first provider call and at `later` after it,
and the network gives the answers of the `World`.  So a run of requests served one
after another is one of the schedules of the service (`serial_schedule`).
-/

namespace Gateway

open Interleaving Prog

/-- A request that is served alone: the singletons, and what it has called and
recorded so far. -/
structure Solo where
  server : Server
  calls : List ProviderCall := []
  recorded : List RequestMetrics := []

/-- What a request finds outside the program after so many provider calls. -/
def World.moment (w : World) (calls : Nat) : Moment where
  now := if calls = 0 then w.now else w.later
  walk := w.walk
  sort := w.sort
  upstream := w.upstream calls

/-- The provider call that a method makes. -/
def Op.called : (o : Op) → o.Res → List ProviderCall
  | .callProvider name _ req, outcome => [⟨name, req, outcome⟩]
  | _, _ => []

/-- What a method adds to the ledger. -/
def Op.recorded (costs : CostTracker) : Op → List RequestMetrics
  | .record metrics => [costs.priced metrics]
  | _ => []

/-- A method called by a request that is served alone. -/
def Solo.exec (P : Platform) (w : World) (o : Op) (t : Solo) : o.Res × Solo :=
  let done := o.exec P (w.moment t.calls.length) t.server
  (done.1,
    { server := done.2
      calls := t.calls ++ o.called done.1
      recorded := t.recorded ++ o.recorded t.server.costs })

/-- A handled request, after what was called and recorded before. -/
def Served.solo (served : Served) (t : Solo) : Reply × Solo :=
  (served.reply,
    ⟨served.server, t.calls ++ served.calls, t.recorded ++ served.recorded⟩)

variable {P : Platform} {w : World} {s : Server} {calls : List ProviderCall}
  {recorded : List RequestMetrics} {req : ChatRequest} {decision : RouteDecision}

attribute [local simp] Op.exec Op.called Op.recorded Solo.exec Served.solo

theorem World.moment_later (hcalled : calls ≠ []) : (w.moment calls.length).now = w.later :=
  if_neg fun h => hcalled (List.length_eq_zero_iff.mp h)

theorem World.moment_now : (w.moment 0).now = w.now := rfl

/-! ## `/v1/chat/completions` -/

theorem tryFallbacks_alone (chain : List Str) (hcalled : calls ≠ []) :
    (Handler.tryFallbacks req chain).alone (Solo.exec P w) ⟨s, calls, recorded⟩ =
      ((tryFallbacks w s.registry req chain calls.length s.router).finish,
        ⟨{ s with router := (tryFallbacks w s.registry req chain calls.length s.router).router },
          calls ++ (tryFallbacks w s.registry req chain calls.length s.router).calls, recorded⟩) := by
  induction chain generalizing s calls with
  | nil => simp [Handler.tryFallbacks, tryFallbacks]
  | cons fbName chain ih =>
      simp only [Handler.tryFallbacks, tryFallbacks, perform_bind, alone_call, Solo.exec, Op.exec,
        Op.called, Op.recorded, List.append_nil]
      cases hget : s.registry.get fbName with
      | none => exact ih hcalled
      | some fb =>
          cases hmodels : fb.kind.supportedModels with
          | nil =>
              simp only [hmodels]
              exact ih hcalled
          | cons model models =>
              simp only [hmodels, alone_call, Solo.exec, Op.exec, Op.called, Op.recorded,
                List.append_nil, World.moment]
              cases houtcome : (fb.chat (w.upstream calls.length fb { req with model := model })
                  { req with model := model }).outcome with
              | answered resp =>
                  simp [Solo.exec, Op.exec, Op.called, Op.recorded, World.moment]
              | threw e =>
                  simp only [alone_call, Solo.exec, Op.exec, Op.called, Op.recorded,
                    List.append_nil]
                  rw [ih (by simp)]
                  simp [World.moment, Called.after]
              | nullException => simp

/-- The primary is called with the first reply of the world, the fallbacks with the
next. -/
theorem callProviders_alone (provider : Provider) :
    (Handler.callProviders req decision provider).alone (Solo.exec P w) ⟨s, [], recorded⟩ =
      ((callProviders w s.registry decision provider req s.router).finish,
        ⟨{ s with router := (callProviders w s.registry decision provider req s.router).router },
          (callProviders w s.registry decision provider req s.router).calls, recorded⟩) := by
  simp only [Handler.callProviders, callProviders, perform_bind, alone_call, Solo.exec, Op.exec,
    Op.called, Op.recorded, List.append_nil, List.length_nil, List.nil_append, World.moment]
  cases (provider.chat (w.upstream 0 provider { req with model := decision.model })
      { req with model := decision.model }).outcome with
  | answered resp => simp [Solo.exec, Op.exec, Op.called, Op.recorded, World.moment]
  | threw e =>
      simp only [alone_call, Solo.exec, Op.exec, Op.called, Op.recorded, List.append_nil]
      rw [tryFallbacks_alone decision.fallbackChain (by simp)]
      simp [World.moment, Called.after]
  | nullException => simp

/-- A provider that answered was called. -/
theorem callProviders_called {registry : ProviderRegistry} {provider : Provider} {router : Router} :
    (callProviders w registry decision provider req router).calls ≠ [] := by
  unfold callProviders
  dsimp only
  split <;> simp [Called.after]

/-- Recording the tokens of a request with a key. -/
theorem recordUsage_alone (resp : ChatResponse) (hcalled : calls ≠ []) :
    (Handler.recordUsage req resp).alone (Solo.exec P w) ⟨s, calls, recorded⟩ =
      ((), ⟨{ s with limiter :=
        if req.apiKey.isEmpty then s.limiter
        else s.limiter.recordTokens s.config.rateLimit w.later req.apiKey resp.totalTokens },
          calls, recorded⟩) := by
  have hlater := World.moment_later (w := w) hcalled
  unfold Handler.recordUsage
  split
  · rfl
  · simp [perform, Solo.exec, Op.exec, Op.called, Op.recorded, hlater]

/-- Settling reads the clock once, after the call. -/
theorem settle_alone (resp : ChatResponse) (hcalled : calls ≠ []) :
    (Handler.settle req decision resp).alone (Solo.exec P w) ⟨s, calls, recorded⟩ =
      ((settle P w req decision resp calls s).reply,
        ⟨(settle P w req decision resp calls s).server, calls,
          recorded ++ (settle P w req decision resp calls s).recorded⟩) := by
  have hlater := World.moment_later (w := w) hcalled
  simp only [Handler.settle, settle, bookkeep, perform_bind, alone_call, alone_bind, Solo.exec,
    Op.exec, Op.called, Op.recorded, List.append_nil, hlater, recordUsage_alone _ hcalled,
    priceResponse, MetricsCall.step]
  cases s.cache.put P s.config.cache w.later req _ with
  | none => simp
  | some cache => simp

theorem refuse_alone (resp : Response) :
    (Handler.refuse resp).alone (Solo.exec P w) ⟨s, calls, recorded⟩ =
      (.response resp, ⟨s.withError, calls, recorded⟩) := by
  simp [Handler.refuse, Solo.exec, Op.exec, Op.called, Op.recorded, MetricsCall.step,
    Server.withError]

theorem callStep_alone (provider : Provider) :
    (Handler.callStep req decision provider).alone (Solo.exec P w) ⟨s, [], recorded⟩ =
      (callStep P w req decision provider s).solo ⟨s, [], recorded⟩ := by
  simp only [Handler.callStep, callStep, alone_bind, callProviders_alone, Served.solo,
    List.nil_append]
  have hcalled : (callProviders w s.registry decision provider req s.router).calls ≠ [] :=
    callProviders_called
  cases (callProviders w s.registry decision provider req s.router).finish with
  | answered resp =>
      simp only [settle_alone _ hcalled]
      unfold settle
      dsimp only
      split <;> rfl
  | failed => simp [refuse_alone]
  | crashed => simp

/-- Alone, the registry that is read after routing is the one before it. -/
theorem routeStep_alone :
    (Handler.routeStep req).alone (Solo.exec P w) ⟨s, [], recorded⟩ =
      (routeStep P w req s).solo ⟨s, [], recorded⟩ := by
  simp only [Handler.routeStep, routeStep, perform_bind, alone_call, Solo.exec, Op.exec,
    Op.called, Op.recorded, List.append_nil, World.moment]
  split
  · simp [refuse_alone]
  · simp only [alone_call, Solo.exec, Op.exec, Op.called, Op.recorded, List.append_nil]
    cases s.registry.get (s.router.route w.walk w.sort s.config req).1.provider with
    | none => simp [refuse_alone]
    | some provider => exact callStep_alone provider

theorem cacheStep_alone :
    (Handler.cacheStep req).alone (Solo.exec P w) ⟨s, [], recorded⟩ =
      (cacheStep P w req s).solo ⟨s, [], recorded⟩ := by
  simp only [Handler.cacheStep, cacheStep, perform_bind, alone_call, Solo.exec, Op.exec,
    Op.called, Op.recorded, List.append_nil, List.length_nil, World.moment_now]
  rcases hget : s.cache.get P s.config.cache w.now req with ⟨_ | cached, cache⟩
  · simp only [alone_call, Solo.exec, Op.exec, Op.called, Op.recorded, List.append_nil,
      MetricsCall.step]
    exact routeStep_alone
  · simp [MetricsCall.step]

theorem limitStep_alone :
    (Handler.limitStep P req).alone (Solo.exec P w) ⟨s, [], recorded⟩ =
      (limitStep P w req s).solo ⟨s, [], recorded⟩ := by
  unfold Handler.limitStep limitStep
  split
  · exact cacheStep_alone
  · simp only [perform_bind, alone_call, Solo.exec, Op.exec, Op.called, Op.recorded,
      List.append_nil, List.length_nil, World.moment_now]
    split
    · simp
    · exact cacheStep_alone

/-- **`/v1/chat/completions` alone** does what `chatCompletions` says. -/
theorem chatCompletions_alone (http : HttpRequest) :
    (Handler.chatCompletions P w.requestDraw http).alone (Solo.exec P w) ⟨s, [], []⟩ =
      (chatCompletions P w http s).solo ⟨s, [], []⟩ := by
  simp only [Handler.chatCompletions, chatCompletions, perform_bind, alone_call, Solo.exec,
    Op.exec, Op.called, Op.recorded, List.append_nil, MetricsCall.step]
  cases http.body with
  | none => rfl
  | some body =>
      rcases hread : readRequest (generateRequestId w.requestDraw) body with e | _ | req
      · simp only [hread]
        rfl
      · simp only [hread]
        rfl
      · simp only [hread]
        exact limitStep_alone

/-! ## `/chat` -/

theorem legacyCall_alone (provider : Provider) :
    (Handler.legacyCall req decision provider).alone (Solo.exec P w) ⟨s, [], recorded⟩ =
      (legacyCall P w req decision provider s).solo ⟨s, [], recorded⟩ := by
  simp only [Handler.legacyCall, legacyCall, perform_bind, alone_call, Solo.exec, Op.exec,
    Op.called, Op.recorded, List.append_nil, List.length_nil, List.nil_append, World.moment]
  cases (provider.chat (w.upstream 0 provider { req with model := decision.model })
      { req with model := decision.model }).outcome with
  | answered resp =>
      simp only [alone_call, Solo.exec, Op.exec, Op.called, Op.recorded, List.append_nil,
        List.length_singleton, World.moment, if_neg Nat.one_ne_zero]
      cases s.cache.put P s.config.cache w.later req resp with
      | none => simp
      | some cache => simp
  | threw e => simp
  | nullException => simp

theorem legacyRoute_alone :
    (Handler.legacyRoute req).alone (Solo.exec P w) ⟨s, [], recorded⟩ =
      (legacyRoute P w req s).solo ⟨s, [], recorded⟩ := by
  simp only [Handler.legacyRoute, legacyRoute, perform_bind, alone_call, Solo.exec, Op.exec,
    Op.called, Op.recorded, List.append_nil, World.moment]
  cases s.registry.get (s.router.route w.walk w.sort s.config req).1.provider with
  | none => simp
  | some provider => exact legacyCall_alone provider

theorem legacyCache_alone :
    (Handler.legacyCache req).alone (Solo.exec P w) ⟨s, [], recorded⟩ =
      (legacyCache P w req s).solo ⟨s, [], recorded⟩ := by
  simp only [Handler.legacyCache, legacyCache, perform_bind, alone_call, Solo.exec, Op.exec,
    Op.called, Op.recorded, List.append_nil, List.length_nil, World.moment_now]
  rcases s.cache.get P s.config.cache w.now req with ⟨_ | cached, cache⟩
  · exact legacyRoute_alone
  · simp

/-- **`/chat` alone** does what `chat` says. -/
theorem chat_alone (http : HttpRequest) :
    (Handler.chat w.requestDraw http).alone (Solo.exec P w) ⟨s, [], []⟩ =
      (chat P w http s).solo ⟨s, [], []⟩ := by
  unfold Handler.chat chat
  cases http.body with
  | none => rfl
  | some body =>
      cases hprompt : body.value Json.getString (str "prompt") [] with
      | error e =>
          simp only [hprompt]
          rfl
      | ok prompt =>
          simp only [hprompt]
          split
          · rfl
          · exact legacyCache_alone

/-! ## Serial schedules -/

/-- The request of the service that an incoming one is. -/
def Incoming.asRequest (i : Incoming) : Request :=
  match i.endpoint with
  | .completions => .completions i.world.requestDraw i.http
  | .chat => .chat i.world.requestDraw i.http

/-- The handler of an incoming request alone. -/
theorem handler_alone (startTime : Time) (i : Incoming) :
    (i.asRequest.handler P startTime).alone (Solo.exec P i.world) ⟨s, [], []⟩ =
      (.of (serve P s i).reply, ((serve P s i).solo ⟨s, [], []⟩).2) := by
  obtain ⟨_ | _, http, w⟩ := i
  · simp only [Incoming.asRequest, Request.handler, map_eq, alone_bind, chatCompletions_alone,
      alone_ret]
    rfl
  · simp only [Incoming.asRequest, Request.handler, map_eq, alone_bind, chat_alone, alone_ret]
    rfl

variable {ι : Type} [DecidableEq ι] {c : Service ι}

/-- A thread that takes all its turns at once serves its request as `serve` does. -/
theorem exists_turns {startTime : Time} {i : ι} {incoming : Incoming}
    (hthread : c.threads i = incoming.asRequest.handler P startTime) :
    ∃ turns : List Moment,
      (c.run (Op.exec P) (turns.map fun e => (i, e))).shared =
          (serve P c.shared incoming).server ∧
        (c.run (Op.exec P) (turns.map fun e => (i, e))).threads =
          Function.update c.threads i (ret (.of (serve P c.shared incoming).reply)) := by
  have hsim : ∀ o t, (Solo.exec P incoming.world o t).1 =
        (o.exec P (incoming.world.moment t.calls.length) t.server).1 ∧
      (Solo.exec P incoming.world o t).2.server =
        (o.exec P (incoming.world.moment t.calls.length) t.server).2 := fun o t => ⟨rfl, rfl⟩
  obtain ⟨turns, hshared, hthreads⟩ := Pool.exists_alone hsim i _ ⟨c.shared, [], []⟩ c hthread rfl
  rw [handler_alone] at hshared hthreads
  exact ⟨turns, hshared, hthreads⟩

/-- For any order of different threads there is a schedule in which each serves its
request, as `run` does, and which ends in the same singletons. -/
theorem exists_serial (startTime : Time) (incoming : ι → Incoming) {order : List ι}
    (hnodup : order.Nodup)
    (hthreads : ∀ i ∈ order, c.threads i = (incoming i).asRequest.handler P startTime) :
    ∃ sched : List (ι × Moment),
      (c.run (Op.exec P) sched).shared = finalState P c.shared (order.map incoming) ∧
        (∀ e ∈ order.zip (run P c.shared (order.map incoming)),
          (c.run (Op.exec P) sched).threads e.1 = ret (.of e.2.served.reply)) ∧
        ∀ i, i ∉ order → (c.run (Op.exec P) sched).threads i = c.threads i := by
  induction order generalizing c with
  | nil => exact ⟨[], rfl, by simp, fun i _ => rfl⟩
  | cons i order ih =>
      obtain ⟨hi, hnodup⟩ := List.nodup_cons.mp hnodup
      obtain ⟨turns, hshared, hupdate⟩ := exists_turns (hthreads i List.mem_cons_self)
      generalize hfirst : c.run (Op.exec P) (turns.map fun e => (i, e)) = first at hshared hupdate
      have hserved : first.threads i = ret (.of (serve P c.shared (incoming i)).reply) := by
        rw [hupdate, Function.update_self]
      have hothers : ∀ j, j ≠ i → first.threads j = c.threads j := fun j hj => by
        rw [hupdate, Function.update_of_ne hj]
      rw [List.map_cons, run, finalState]
      by_cases hgoes : (serve P c.shared (incoming i)).reply.goesOn = true
      · have hrest : ∀ j ∈ order, first.threads j = (incoming j).asRequest.handler P startTime := by
          intro j hj
          rw [hothers j fun heq => hi (heq ▸ hj)]
          exact hthreads j (List.mem_cons_of_mem _ hj)
        obtain ⟨sched, hend, hreplies, hleft⟩ := ih hnodup hrest
        rw [hshared] at hend hreplies
        refine ⟨(turns.map fun e => (i, e)) ++ sched, ?_, ?_, ?_⟩
        · rw [Pool.run_append, hfirst, if_pos hgoes, hend]
        · rw [Pool.run_append, hfirst]
          simp only [if_pos hgoes, List.zip_cons_cons]
          intro e he
          rcases List.mem_cons.mp he with rfl | he
          · exact (hleft i hi).trans hserved
          · exact hreplies e he
        · intro j hj
          obtain ⟨hji, hj⟩ := not_or.mp (List.mem_cons.not.mp hj)
          rw [Pool.run_append, hfirst, hleft j hj, hothers j hji]
      · refine ⟨turns.map fun e => (i, e), ?_, ?_, ?_⟩
        · rw [hfirst, if_neg hgoes, hshared]
        · simp only [if_neg hgoes, List.zip_cons_cons, List.zip_nil_right, hfirst]
          intro e he
          rw [List.mem_singleton.mp he]
          exact hserved
        · intro j hj
          rw [hfirst, hothers j (not_or.mp (List.mem_cons.not.mp hj)).1]

/-- **One after another.**  Serving requests one after another is one of the
schedules of the service: it gives each of them the reply of the run and leaves the
singletons as the run does. -/
theorem serial_schedule (P : Platform) (startTime : Time) (s : Server)
    (requests : List Incoming) :
    ∃ sched : List (Fin requests.length × Moment),
      (Service.after P startTime s (fun i => (requests.get i).asRequest) sched).shared =
          finalState P s requests ∧
        ∀ e ∈ (List.finRange requests.length).zip (run P s requests),
          (Service.after P startTime s (fun i => (requests.get i).asRequest) sched).threads e.1 =
            ret (.of e.2.served.reply) := by
  have horder : (List.finRange requests.length).map requests.get = requests := by
    rw [← List.ofFn_eq_map, List.ofFn_get]
  obtain ⟨sched, hend, hreplies, -⟩ := exists_serial
    (c := Service.start P startTime s fun i => (requests.get i).asRequest) startTime
    (fun i => requests.get i) (List.nodup_finRange requests.length) fun i _ => rfl
  rw [horder] at hend hreplies
  exact ⟨sched, hend, hreplies⟩

end Gateway
