import LlmGateway.CounterAccounts
import LlmGateway.HandlerCalls
import LlmGateway.Summary

/-!
# The ledger under interleaving

A request that a provider answers is recorded in one step and priced in another,
with other requests in between.  The prices do not change while the server runs,
so the record says what the client is told; and every client that is told of a cost
finds exactly one record behind it (`ledger_balance`), whatever order the requests
take their turns in.
-/

namespace Gateway

open Interleaving Prog

/-! ## What a client reads off its reply -/

/-- The member at the end of a path. -/
def Response.field (path : List String) (resp : Response) : Option Json :=
  path.foldl (fun j key => j.bind fun j => j.find? (str key)) (some resp.body)

def Response.text (path : List String) (resp : Response) : Str :=
  match resp.field path with
  | some (.string s) => s
  | _ => []

def Response.number (path : List String) (resp : Response) : ℤ :=
  match resp.field path with
  | some (.integer n) => n
  | _ => 0

def Response.amount (path : List String) (resp : Response) : Double :=
  match resp.field path with
  | some (.float x) => x
  | _ => 0

/-- What a client knows of a request that a provider answered. -/
structure Receipt where
  requestId : Str
  apiKey : Str
  provider : Str
  model : Str
  promptTokens : ℤ
  completionTokens : ℤ
  latencyMs : Double
  costUsd : Double
  deriving DecidableEq, Repr

/-- The receipt that a response is, for a client with this key. -/
def Response.receipt (apiKey : Str) (resp : Response) : Receipt where
  requestId := resp.text ["id"]
  apiKey := apiKey
  provider := resp.text ["x_gateway", "provider"]
  model := resp.text ["model"]
  promptTokens := resp.number ["usage", "prompt_tokens"]
  completionTokens := resp.number ["usage", "completion_tokens"]
  latencyMs := resp.amount ["x_gateway", "latency_ms"]
  costUsd := resp.amount ["x_gateway", "cost_usd"]

/-- The receipts of a reply: one if a provider answered. -/
def Reply.receipts (apiKey : Str) : Reply → Multiset Receipt
  | .response resp => if resp.verdict = .miss then {resp.receipt apiKey} else 0
  | _ => 0

/-- The receipts of an answered request. -/
def Request.receipts : Request → Answer → Multiset Receipt
  | completions _ http, .of reply => reply.receipts http.authorization
  | _, _ => 0

/-- What a record says to the client. -/
def RequestMetrics.receipt (m : RequestMetrics) : Receipt :=
  ⟨m.requestId, m.apiKey, m.provider, m.model, m.promptTokens, m.completionTokens, m.latencyMs,
    m.costUsd⟩

/-! ## What the methods do to the ledger -/

/-- The metrics that a method records. -/
def Op.recordOf : Op → Option RequestMetrics
  | .record metrics => some metrics
  | _ => none

theorem Op.exec_recordAll (P : Platform) (e : Moment) (o : Op) (s : Server) :
    (o.exec P e s).2.costs = s.costs.recordAll o.recordOf.toList := by
  rw [exec_costs]
  cases o <;> rfl

/-- The ledger is what was recorded, in the order of the calls. -/
theorem Replays.costs {ι : Type} {P : Platform} {s s' : Server}
    {log : List (Entry ι Moment Op Op.Res)} (h : Replays (Op.exec P) s log s') :
    s'.costs = s.costs.recordAll (log.filterMap fun en => en.event.1.recordOf) := by
  induction log generalizing s with
  | nil =>
      cases h
      rfl
  | cons en log ih =>
      have hhead := Op.exec_recordAll P en.input en.event.1 s
      rw [ih h.2, hhead, CostTracker.recordAll, CostTracker.recordAll, ← List.foldl_append]
      congr 1
      cases hrecord : en.event.1.recordOf with
      | none => simp [hrecord]
      | some metrics => simp [hrecord]

theorem CostTracker.estimateCost_of_pricing {t t' : CostTracker} (h : t.pricing = t'.pricing)
    (provider model : Str) (inputTokens outputTokens : ℤ) :
    t.estimateCost provider model inputTokens outputTokens =
      t'.estimateCost provider model inputTokens outputTokens := by
  unfold estimateCost
  rw [h]

theorem CostTracker.pricing_recordAll (t : CostTracker) (metrics : List RequestMetrics) :
    (t.recordAll metrics).pricing = t.pricing := by
  induction metrics generalizing t with
  | nil => rfl
  | cons m metrics ih => exact ih (t.record m)

/-- An estimate is that of the prices the server started with. -/
def EstimatedBy (costs : CostTracker) : Event Op Op.Res → Prop
  | ⟨.estimateCost provider model input output, cost⟩ =>
      cost = costs.estimateCost provider model input output
  | _ => True

/-- **Prices do not change while the server runs.** -/
theorem lawful_pricing (P : Platform) (costs : CostTracker) :
    Lawful (Op.exec P) (fun _ => True) (fun s => s.costs.pricing = costs.pricing)
      (EstimatedBy costs) where
  keeps e o s _ hs := by
    rw [Op.exec_recordAll, CostTracker.pricing_recordAll, hs]
  answers e o s _ hs := by
    cases o with
    | estimateCost provider model input output =>
        exact CostTracker.estimateCost_of_pricing hs provider model input output
    | _ => trivial

/-! ## What the handlers record -/

/-- The receipts of what a method records. -/
def receiptsOf (costs : CostTracker) (ev : Event Op Op.Res) : Multiset Receipt :=
  ev.1.recordOf.elim 0 fun metrics => {(costs.priced metrics).receipt}

/-- The records of a program are the receipts of its reply. -/
abbrev Receipts (costs : CostTracker) (apiKey : Str) (p : Program Reply) : Prop :=
  Adds (EstimatedBy costs) (receiptsOf costs) 0 p
    fun reply m => reply.goesOn = true → m = reply.receipts apiKey

/-- The record of a priced response says what the client is told. -/
theorem priced_receipt (costs : CostTracker) (now : Time) (req : ChatRequest) (resp : ChatResponse)
    (decision : RouteDecision) :
    (costs.priced (metricsOf now req (priceResponse costs req resp))).receipt =
      (missResponse req.requestId (priceResponse costs req resp) decision).receipt req.apiKey := by
  have hcost := CostTracker.priced_costUsd now req resp costs
  have hsame : costs.priced (metricsOf now req (priceResponse costs req resp)) =
      metricsOf now req (priceResponse costs req resp) := by
    unfold CostTracker.priced at hcost ⊢
    split at hcost
    · rfl
    · simp only at hcost ⊢
      rw [hcost]
      rfl
  rw [hsame]
  rfl

namespace Handler

variable {P : Platform} {req : ChatRequest} {decision : RouteDecision} {costs : CostTracker}

/-- Methods other than `record` leave no receipt. -/
theorem receiptsOf_eq_zero {allowed : Op → Bool} {o : Op} (ho : allowed o = true)
    (hrecord : ∀ metrics, allowed (.record metrics) = false) (r : o.Res) :
    receiptsOf costs ⟨o, r⟩ = 0 := by
  cases o with
  | record metrics => rw [hrecord metrics] at ho; cases ho
  | _ => rfl

theorem recordUsage_receipts {m : Multiset Receipt} (resp : ChatResponse)
    {F : Unit → Multiset Receipt → Prop} (hF : F () m) :
    Adds (EstimatedBy costs) (receiptsOf costs) m (recordUsage req resp) F := by
  unfold recordUsage
  split
  · rwa [pure_eq, Adds.ret_iff]
  · simpa [perform, receiptsOf, Op.recordOf] using fun _ _ => hF

theorem settle_receipts (resp : ChatResponse) :
    Receipts costs req.apiKey (settle req decision resp) := by
  simp only [settle, perform_bind, Adds.call_iff, receiptsOf, Op.recordOf, Option.elim_none,
    Option.elim_some, add_zero, zero_add]
  intro cost hcost now _ _ _
  cases (hcost : cost = costs.estimateCost _ _ _ _)
  apply Adds.bind
  apply recordUsage_receipts
  simp only [Adds.call_iff, receiptsOf, Op.recordOf, Option.elim_none, add_zero]
  intro _ _ _ _ stored _
  cases stored with
  | false =>
      simp only [Bool.false_eq_true, if_false, pure_eq, Adds.ret_iff]
      intro hgoes
      cases hgoes
  | true =>
      simp only [if_true, pure_eq, Adds.ret_iff]
      intro _
      simp only [Reply.receipts, missResponse_verdict, if_true]
      exact congrArg _ (priced_receipt costs now req resp decision)

theorem refuse_receipts {apiKey : Str} {resp : Response} (hverdict : resp.verdict ≠ .miss) :
    Receipts costs apiKey (refuse resp) := by
  simp only [refuse, perform_bind, Adds.call_iff, pure_eq, Adds.ret_iff]
  intro _ _ _
  simp [Reply.receipts, hverdict, receiptsOf, Op.recordOf]

theorem callStep_receipts (provider : Provider) :
    Receipts costs req.apiKey (callStep req decision provider) := by
  apply Adds.bind
  refine Adds.of_weightless (callProviders_uses provider)
    (fun o ho => receiptsOf_eq_zero ho fun _ => rfl) fun finish => ?_
  cases finish with
  | answered resp => exact settle_receipts resp
  | failed =>
      apply refuse_receipts
      rw [makeError_verdict, if_pos (by decide)]
      decide
  | crashed =>
      rw [pure_eq, Adds.ret_iff]
      intro hgoes
      cases hgoes

theorem routeStep_receipts : Receipts costs req.apiKey (routeStep req) := by
  have hrefused : ∀ message, (makeError 503 message).verdict ≠ .miss := fun message => by
    rw [makeError_verdict, if_pos (by decide)]
    decide
  simp only [routeStep, perform_bind, Adds.call_iff, receiptsOf, Op.recordOf, Option.elim_none,
    add_zero]
  intro decision _
  split
  · exact refuse_receipts (hrefused _)
  · simp only [Adds.call_iff, receiptsOf, Op.recordOf, Option.elim_none, add_zero]
    intro provider _
    cases provider with
    | none => exact refuse_receipts (hrefused _)
    | some provider => exact callStep_receipts provider

/-- A reply that is no miss leaves no receipt. -/
theorem ret_receipts {apiKey : Str} {resp : Response} (hverdict : resp.verdict ≠ .miss) :
    Receipts costs apiKey (ret (.response resp)) := by
  rw [Receipts, Adds.ret_iff]
  intro _
  simp [Reply.receipts, hverdict]

theorem cacheStep_receipts : Receipts costs req.apiKey (cacheStep req) := by
  simp only [cacheStep, perform_bind, Adds.call_iff, receiptsOf, Op.recordOf, Option.elim_none,
    add_zero]
  intro cached _
  cases cached with
  | some cached =>
      simp only [Adds.call_iff, receiptsOf, Op.recordOf, Option.elim_none, add_zero]
      intro _ _
      apply ret_receipts
      rw [hitResponse_verdict]
      decide
  | none =>
      simp only [Adds.call_iff, receiptsOf, Op.recordOf, Option.elim_none, add_zero]
      exact fun _ _ => routeStep_receipts

theorem limitStep_receipts : Receipts costs req.apiKey (limitStep P req) := by
  unfold limitStep
  split
  · exact cacheStep_receipts
  · simp only [perform_bind, Adds.call_iff, receiptsOf, Op.recordOf, Option.elim_none, add_zero]
    intro _ _ checked _
    split
    · apply ret_receipts
      rw [throttled_verdict]
      decide
    · exact cacheStep_receipts

theorem chatCompletions_receipts (draw : UInt64) (http : HttpRequest) :
    Receipts costs http.authorization (chatCompletions P draw http) := by
  have hrejected : ∀ message, (makeError 400 message).verdict ≠ .miss := fun message => by
    rw [makeError_verdict, if_neg (by decide)]
    decide
  simp only [chatCompletions, perform_bind, Adds.call_iff, receiptsOf, Op.recordOf,
    Option.elim_none, add_zero]
  intro _ _
  cases http.body with
  | none => exact ret_receipts (hrejected _)
  | some body =>
      rcases hread : readRequest (generateRequestId draw) body with e | _ | req
      · simp only [hread, pure_eq, Adds.ret_iff]
        intro _
        rfl
      · simp only [hread]
        exact ret_receipts (hrejected _)
      · simp only [hread]
        exact limitStep_receipts

end Handler

/-- **What a handler records can be read off its answer.** -/
theorem Request.handler_receipts (P : Platform) (startTime : Time) (costs : CostTracker)
    (request : Request) :
    Adds (EstimatedBy costs) (receiptsOf costs) 0 (request.handler P startTime)
      fun answer m => answer.goesOn = true → m = request.receipts answer := by
  have hquiet : ∀ {allowed : Op → Bool} {p : Program Answer}, Uses (fun o => allowed o) p →
      (∀ metrics, allowed (.record metrics) = false) →
      Adds (EstimatedBy costs) (receiptsOf costs) 0 p
        fun answer m => answer.goesOn = true → m = (0 : Multiset Receipt) :=
    fun huses hrecord => Adds.of_weightless huses
      (fun o ho => Handler.receiptsOf_eq_zero ho hrecord) fun _ _ => rfl
  have huses := request.handler_uses P startTime
  cases request with
  | completions draw http =>
      apply Adds.bind
      exact (Handler.chatCompletions_receipts draw http).mono fun reply m hm =>
        Adds.ret_iff.mpr hm
  | _ => exact hquiet huses fun _ => rfl

/-- What the calls of a log record, as receipts. -/
theorem sum_receiptsOf {ι : Type} (costs : CostTracker) (log : List (Entry ι Moment Op Op.Res)) :
    (log.map fun en => receiptsOf costs en.event).sum =
      (((log.filterMap fun en => en.event.1.recordOf).map costs.priced).map
        RequestMetrics.receipt : Multiset Receipt) := by
  induction log with
  | nil => rfl
  | cons en log ih =>
      rw [List.map_cons, List.sum_cons, ih]
      cases hrecord : en.event.1.recordOf with
      | none => simp [receiptsOf, hrecord]
      | some metrics => simp [receiptsOf, hrecord]

/-- **The ledger agrees with the clients.**  However the requests of a service
interleave, when all of them are answered there is a list of records, one for each
client that was told of a cost and with what that client was told, such that the
history holds the latest of them and every key has spent their sum. -/
theorem ledger_balance {ι : Type} [Fintype ι] [DecidableEq ι] (P : Platform) (startTime : Time)
    (s : Server) (hlength : s.costs.history.length ≤ CostTracker.maxHistory)
    (requests : ι → Request) (sched : List (ι × Moment)) (answers : ι → Answer)
    (hdone : ∀ i, (Service.after P startTime s requests sched).threads i = ret (answers i))
    (hgoes : ∀ i, (answers i).goesOn = true) :
    ∃ records : List RequestMetrics,
      (records.map RequestMetrics.receipt : Multiset Receipt) =
          ∑ i, (requests i).receipts (answers i) ∧
        (Service.after P startTime s requests sched).shared.costs.history =
          (s.costs.history ++ records).rtake CostTracker.maxHistory ∧
        ∀ key, key ≠ [] →
          (Service.after P startTime s requests sched).shared.costs.getSpend key =
            s.costs.getSpend key +
              ((records.filter fun m => m.apiKey = key).map RequestMetrics.costUsd).sum := by
  have hrun := Service.explained P startTime s requests sched
  have hanswers := (hrun.lawful (lawful_pricing P s.costs) (fun i => uses_all _) rfl).2
  obtain ⟨m, hm, hsum⟩ := hrun.totals hanswers
    (fun i => (requests i).handler_receipts P startTime s.costs) hdone
  have hcosts := Replays.costs hrun.replays
  refine ⟨((Service.after P startTime s requests sched).log.filterMap
    fun en => en.event.1.recordOf).map s.costs.priced, ?_, ?_, fun key hne => ?_⟩
  · rw [sum_receiptsOf] at hsum
    exact hsum.trans (Finset.sum_congr rfl fun i _ => hm i (hgoes i))
  · rw [hcosts]
    exact CostTracker.recordAll_history hlength _
  · rw [hcosts]
    exact CostTracker.recordAll_getSpend hne s.costs _

/-! ## The same request twice at a time -/

/-- A moment at which every provider answers with an empty object. -/
def online : Moment where
  upstream _ _ _ := ⟨.answered 200 [] (.ok (.object [])), 0⟩

/-- The same greeting from two clients. -/
def twoGreetings (i : Fin 2) : Request := .completions i.val.toUInt64 greeting

/-- What each of them is told. -/
def greetingAnswer (i : Fin 2) : Answer :=
  .of (.response (missResponse (generateRequestId i.val.toUInt64)
    { requestId := generateRequestId i.val.toUInt64, provider := str "groq",
      model := str "gemma2-9b-it", rawResponse := .object [] } groqDecision))

/-- They take turns, so neither finds the other's answer in the cache. -/
def alternating : List (Fin 2 × Moment) :=
  (List.replicate 13 (List.finRange 2)).flatten.map fun i => (i, online)

set_option maxRecDepth 4096 in
theorem twoGreetings_done (i : Fin 2) :
    (Service.after (cLocale fnv1a) 0 (oneProvider 10) twoGreetings alternating).threads i =
      ret (greetingAnswer i) := by
  match i with
  | 0 => with_unfolding_all rfl
  | 1 => with_unfolding_all rfl

theorem ledger_balance_alternating :
    ∃ records : List RequestMetrics,
      (records.map RequestMetrics.receipt : Multiset Receipt) =
          ∑ i, (twoGreetings i).receipts (greetingAnswer i) ∧
        (Service.after (cLocale fnv1a) 0 (oneProvider 10) twoGreetings
            alternating).shared.costs.history =
          ([] ++ records).rtake CostTracker.maxHistory ∧
        ∀ key, key ≠ [] →
          (Service.after (cLocale fnv1a) 0 (oneProvider 10) twoGreetings
              alternating).shared.costs.getSpend key =
            (oneProvider 10).costs.getSpend key +
              ((records.filter fun m => m.apiKey = key).map RequestMetrics.costUsd).sum :=
  ledger_balance (cLocale fnv1a) 0 (oneProvider 10) (Nat.zero_le _) twoGreetings alternating
    greetingAnswer twoGreetings_done fun _ => rfl

end Gateway
