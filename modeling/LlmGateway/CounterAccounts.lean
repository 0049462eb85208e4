import LlmGateway.Permissions
import Mathlib.Data.UInt

/-!
# The counters count the replies

What a completion request adds to the counters of `Metrics` can be read off its
reply: the cache header, the status and the usage section.  However the requests
of a service interleave, when all of them are answered the counters have grown by
exactly what the clients can add up from their replies (`counters_balance`): no
increment is lost, and none is made twice.
-/

namespace Gateway

open Interleaving Prog

/-- A header of a response. -/
def Response.header (name : Str) (resp : Response) : Option Str := resp.headers.lookup name

/-- `usage.total_tokens` of a response. -/
def Response.totalTokens (resp : Response) : ℤ :=
  match (resp.body.find? (str "usage")).bind fun usage => usage.find? (str "total_tokens") with
  | some (.integer n) => n
  | _ => 0

/-- What a reply of `/v1/chat/completions` tells its client. -/
inductive Verdict where
  | hit
  | miss
  | failed
  | rejected
  deriving DecidableEq, Repr

/-- A response that came from the cache, from a provider, from neither though a
provider was wanted, or before the cache was asked. -/
def Response.verdict (resp : Response) : Verdict :=
  if resp.header (str "X-Gateway-Cache") = some (str "HIT") then .hit
  else if resp.header (str "X-Gateway-Cache") = some (str "MISS") then .miss
  else if resp.status = 502 ∨ resp.status = 503 then .failed
  else .rejected

/-- What a completion request that is answered with a response adds to a counter. -/
def Response.adds (resp : Response) : Counter → UInt64
  | .requests => 1
  | .errors => if resp.verdict = .failed then 1 else 0
  | .cacheHits => if resp.verdict = .hit then 1 else 0
  | .cacheMisses => if resp.verdict = .miss ∨ resp.verdict = .failed then 1 else 0
  | .tokens => if resp.verdict = .miss then UInt64.ofInt resp.totalTokens else 0

/-- What an answered completion request adds to a counter; one whose handler threw
was not counted further. -/
def Reply.adds : Reply → Counter → UInt64
  | .response resp, counter => resp.adds counter
  | _, counter => if counter = .requests then 1 else 0

/-- What an answered request adds to the counters. -/
def Request.adds : Request → Answer → Counter → UInt64
  | completions .., .of reply => reply.adds
  | _, _ => 0

/-- The request was answered: its handler returned or threw. -/
def Answer.goesOn : Answer → Bool
  | .of reply => reply.goesOn
  | .page .. => true

/-- What a call on `Metrics` adds to a counter. -/
def MetricsCall.adds : MetricsCall → Counter → UInt64
  | incRequests, .requests => 1
  | incErrors, .errors => 1
  | incCacheHits, .cacheHits => 1
  | incCacheMisses, .cacheMisses => 1
  | observeTokens count, .tokens => UInt64.ofInt count
  | _, _ => 0

/-- What a method adds to the counters. -/
def Op.adds : Op → Counter → UInt64
  | .count c => c.adds
  | _ => 0

theorem MetricsCall.load_step (c : MetricsCall) (m : Metrics) (counter : Counter) :
    (c.step m).load counter = m.load counter + c.adds counter := by
  cases c <;> cases counter <;> first | rfl | exact (UInt64.add_zero _).symm

/-- **Every method adds its own amount**, wherever the counters stand. -/
theorem Op.load_exec (P : Platform) (e : Moment) (o : Op) (s : Server) :
    (o.exec P e s).2.metrics.load = s.metrics.load + o.adds := by
  funext counter
  rw [exec_metrics]
  cases o with
  | count c => exact c.load_step s.metrics counter
  | _ => exact (UInt64.add_zero _).symm

/-! ## What the replies say -/

section
variable {id : Str} {resp : ChatResponse} {decision : RouteDecision}

theorem hitResponse_verdict : (hitResponse id resp).verdict = .hit := by
  have hheader : (hitResponse id resp).header (str "X-Gateway-Cache") = some (str "HIT") := rfl
  rw [Response.verdict, if_pos hheader]

theorem missResponse_verdict : (missResponse id resp decision).verdict = .miss := by
  have hheader : (missResponse id resp decision).header (str "X-Gateway-Cache") =
      some (str "MISS") := rfl
  rw [Response.verdict, hheader, if_neg (by decide), if_pos rfl]

theorem missResponse_totalTokens :
    (missResponse id resp decision).totalTokens = resp.totalTokens := rfl

theorem makeError_verdict (status : ℤ) (message : Str) :
    (makeError status message).verdict =
      if status = 502 ∨ status = 503 then .failed else .rejected := by
  have hheader : (makeError status message).header (str "X-Gateway-Cache") = none := rfl
  rw [Response.verdict, hheader, if_neg (by simp), if_neg (by simp)]
  rfl

theorem throttled_verdict (rl : RateLimitResult) : (throttled rl).verdict = .rejected := by
  have hheader : (throttled rl).header (str "X-Gateway-Cache") = none := rfl
  have hstatus : (throttled rl).status = 429 := rfl
  rw [Response.verdict, hheader, hstatus, if_neg (by simp), if_neg (by simp), if_neg (by decide)]

end

/-! ## What the handlers count -/

/-- The counts of a program, on top of those made before. -/
abbrev Counts (m : Counter → UInt64) (p : Program Reply) : Prop :=
  Adds (fun _ => True) (fun ev : Event Op Op.Res => ev.1.adds) m p
    fun reply m => reply.goesOn = true → m = reply.adds

namespace Handler

variable {P : Platform} {req : ChatRequest} {decision : RouteDecision}

/-- The counts of a request that missed the cache. -/
def missed : Counter → UInt64 := Op.adds (.count .incRequests) + Op.adds (.count .incCacheMisses)

theorem refuse_counts {resp : Response} (hverdict : resp.verdict = .failed) :
    Counts missed (refuse resp) := by
  simp only [refuse, perform_bind, Adds.call_iff, pure_eq, Adds.ret_iff]
  intro _ _ _
  funext counter
  cases counter <;> simp [missed, Op.adds, MetricsCall.adds, Reply.adds, Response.adds, hverdict]

/-- Recording the tokens of the key is not counted. -/
theorem recordUsage_adds {m : Counter → UInt64} (resp : ChatResponse)
    {F : Unit → (Counter → UInt64) → Prop} (hF : F () m) :
    Adds (fun _ => True) (fun ev : Event Op Op.Res => ev.1.adds) m (recordUsage req resp) F := by
  unfold recordUsage
  split
  · rwa [pure_eq, Adds.ret_iff]
  · simpa [perform, Op.adds] using fun _ => hF

theorem settle_counts (resp : ChatResponse) : Counts missed (settle req decision resp) := by
  simp only [settle, perform_bind, Adds.call_iff]
  intro cost _ now _ _ _
  apply Adds.bind
  apply recordUsage_adds
  simp only [Adds.call_iff]
  intro _ _ _ _ stored _
  cases stored with
  | false =>
      simp only [Bool.false_eq_true, if_false, pure_eq, Adds.ret_iff]
      intro hgoes
      cases hgoes
  | true =>
      simp only [if_true, pure_eq, Adds.ret_iff]
      intro _
      funext counter
      cases counter <;> simp [missed, Op.adds, MetricsCall.adds, Reply.adds, Response.adds,
        missResponse_verdict, missResponse_totalTokens]

/-- The provider calls are not counted. -/
theorem callProviders_adds {m : Counter → UInt64} (provider : Provider)
    {F : CallEnd → (Counter → UInt64) → Prop} (hF : ∀ finish, F finish m) :
    Adds (fun _ => True) (fun ev : Event Op Op.Res => ev.1.adds) m
      (callProviders req decision provider) F := by
  refine Adds.of_weightless (callProviders_uses provider) (fun o ho r => ?_) hF
  cases o <;> first | rfl | cases ho

theorem callStep_counts (provider : Provider) : Counts missed (callStep req decision provider) := by
  apply Adds.bind
  apply callProviders_adds
  intro finish
  cases finish with
  | answered resp => exact settle_counts resp
  | failed =>
      apply refuse_counts
      rw [makeError_verdict, if_pos (by decide)]
  | crashed =>
      rw [pure_eq, Adds.ret_iff]
      intro hgoes
      cases hgoes

theorem routeStep_counts : Counts missed (routeStep req) := by
  have hrefused : ∀ message, (makeError 503 message).verdict = .failed := fun message => by
    rw [makeError_verdict, if_pos (by decide)]
  simp only [routeStep, perform_bind, Adds.call_iff]
  intro decision _
  have hweight : missed + Op.adds (.route req) = missed := add_zero missed
  rw [hweight]
  split
  · exact refuse_counts (hrefused _)
  · simp only [Adds.call_iff]
    intro provider _
    have hweight : missed + Op.adds (.getProvider decision.provider) = missed := add_zero missed
    rw [hweight]
    cases provider with
    | none => exact refuse_counts (hrefused _)
    | some provider => exact callStep_counts provider

theorem cacheStep_counts : Counts (Op.adds (.count .incRequests)) (cacheStep req) := by
  simp only [cacheStep, perform_bind, Adds.call_iff]
  intro cached _
  have hweight : ∀ m : Counter → UInt64, m + Op.adds (.cacheGet req) = m := add_zero
  rw [hweight]
  cases cached with
  | some cached =>
      simp only [Adds.call_iff, pure_eq, Adds.ret_iff]
      intro _ _ _
      funext counter
      cases counter <;> simp [Op.adds, MetricsCall.adds, Reply.adds, Response.adds,
        hitResponse_verdict]
  | none =>
      simp only [Adds.call_iff]
      exact fun _ _ => routeStep_counts

/-- A request that is turned away before the cache was counted once. -/
theorem rejected_counts {resp : Response} (hverdict : resp.verdict = .rejected) :
    Counts (Op.adds (.count .incRequests)) (ret (.response resp)) := by
  rw [Counts, Adds.ret_iff]
  intro _
  funext counter
  cases counter <;> simp [Op.adds, MetricsCall.adds, Reply.adds, Response.adds, hverdict]

theorem limitStep_counts : Counts (Op.adds (.count .incRequests)) (limitStep P req) := by
  unfold limitStep
  split
  · exact cacheStep_counts
  · simp only [perform_bind, Adds.call_iff]
    intro _ _ checked _
    have hweight : ∀ (m : Counter → UInt64) (estimated : ℤ),
        m + Op.adds (.authenticate req.apiKey) + Op.adds (.checkRequest req.apiKey estimated) = m :=
      fun m _ => (add_zero _).trans (add_zero m)
    rw [hweight]
    split
    · exact rejected_counts (throttled_verdict checked)
    · exact cacheStep_counts

theorem chatCompletions_counts (draw : UInt64) (http : HttpRequest) :
    Counts 0 (chatCompletions P draw http) := by
  have hrejected : ∀ message, (makeError 400 message).verdict = .rejected := fun message => by
    rw [makeError_verdict, if_neg (by decide)]
  simp only [chatCompletions, perform_bind, Adds.call_iff, zero_add]
  intro _ _
  cases http.body with
  | none => exact rejected_counts (hrejected _)
  | some body =>
      rcases hread : readRequest (generateRequestId draw) body with e | _ | req
      · simp only [hread, pure_eq, Adds.ret_iff]
        intro _
        funext counter
        cases counter <;> rfl
      · simp only [hread]
        exact rejected_counts (hrejected _)
      · simp only [hread]
        exact limitStep_counts

end Handler

/-- **What a handler counts can be read off its answer.** -/
theorem Request.handler_counts (P : Platform) (startTime : Time) (request : Request) :
    Adds (fun _ => True) (fun ev : Event Op Op.Res => ev.1.adds) 0 (request.handler P startTime)
      fun answer m => answer.goesOn = true → m = request.adds answer := by
  have hquiet : ∀ {allowed : Op → Bool} {p : Program Answer}, Uses (fun o => allowed o) p →
      (∀ c, allowed (.count c) = false) →
      Adds (fun _ => True) (fun ev : Event Op Op.Res => ev.1.adds) 0 p
        fun answer m => answer.goesOn = true → m = (0 : Counter → UInt64) := by
    intro allowed p huses hcount
    refine Adds.of_weightless huses (fun o ho r => ?_) fun _ _ => rfl
    cases o with
    | count c => rw [hcount c] at ho; cases ho
    | _ => rfl
  have huses := request.handler_uses P startTime
  cases request with
  | completions draw http =>
      apply Adds.bind
      exact (Handler.chatCompletions_counts draw http).mono fun reply m hm => Adds.ret_iff.mpr hm
  | _ => exact hquiet huses fun _ => rfl

/-- **No count is lost and none is made twice.**  However the requests of a service
interleave, when all of them are answered every counter has grown by the sum of what
the clients read off their replies. -/
theorem counters_balance {ι : Type} [Fintype ι] [DecidableEq ι] (P : Platform) (startTime : Time)
    (s : Server) (requests : ι → Request) (sched : List (ι × Moment)) (answers : ι → Answer)
    (hdone : ∀ i, (Service.after P startTime s requests sched).threads i = ret (answers i))
    (hgoes : ∀ i, (answers i).goesOn = true) (counter : Counter) :
    (Service.after P startTime s requests sched).shared.metrics.load counter =
      s.metrics.load counter + ∑ i, (requests i).adds (answers i) counter := by
  have hlaw : Lawful (Op.exec P) (fun _ => True) (fun _ : Server => True) fun _ => True :=
    ⟨fun _ _ _ _ _ => trivial, fun _ _ _ _ _ => trivial⟩
  obtain ⟨m, hm, hsum⟩ := (Service.explained P startTime s requests sched).balance
    (μ := fun t => t.metrics.load) hlaw (fun i => uses_all _) trivial
    (fun e o t _ => Op.load_exec P e o t)
    (fun i => (requests i).handler_counts P startTime) hdone
  have hfinal := congrFun hsum counter
  rw [Pi.add_apply, Finset.sum_apply] at hfinal
  refine hfinal.trans ?_
  congr 1
  exact Finset.sum_congr rfl fun i _ => by rw [hm i (hgoes i)]

/-! ## Two requests at a time -/

/-- A moment at which no provider can be reached. -/
def offline : Moment where
  upstream _ _ _ := ⟨.failed [], 0⟩

/-- A greeting, for the default model. -/
def greeting : HttpRequest where
  body := some (.object [(str "messages", .array [.object [(str "content", .string (str "hi"))]])])

def twoRequests : Fin 2 → Request := ![.completions 1 ⟨[], none⟩, .completions 2 greeting]

def twoAnswers : Fin 2 → Answer :=
  ![.of (.response (makeError 400 (str "Invalid JSON body"))),
    .of (.response (makeError 503 (str "No available providers for model: gpt-4o-mini")))]

/-- The second request is under way when the first one is answered. -/
def twoTurns : List (Fin 2 × Moment) := [1, 1, 0, 1, 1, 1].map fun i => (i, offline)

theorem counters_balance_two :
    (Service.after (cLocale fnv1a) 0 (.init {}) twoRequests twoTurns).shared.metrics.load .requests =
      0 + ∑ i, (twoRequests i).adds (twoAnswers i) .requests :=
  counters_balance (cLocale fnv1a) 0 (.init {}) twoRequests twoTurns twoAnswers
    (Fin.forall_fin_two.mpr ⟨rfl, rfl⟩) (Fin.forall_fin_two.mpr ⟨rfl, rfl⟩) .requests

end Gateway
