import LlmGateway.SharedLedger
import LlmGateway.HealthRecords
import LlmGateway.RouterRuns

/-!
# The health map under interleaving

A completion request calls a provider in one step and reports on it in the next,
and requests of other clients come in between.  The reports behind the health map
are nevertheless the calls that were made for completion requests: none is reported
twice, none is made up, and when all requests are answered none is missing
(`reports_of_calls`).  What `/chat` finds out about a provider is reported by nobody.

The record of a provider can therefore be read off the calls: one that is marked
unavailable has failed at least six of them (`record_of_calls`).
-/

namespace Gateway

open Interleaving Prog

/-! ## Calls and reports -/

/-- What is found out about a provider: the latency of its answer, or that it gave
none. -/
abbrev Finding := Str × Option Double

/-- What a provider call finds out. -/
def findingsOf : Event Op Op.Res → Multiset Finding
  | ⟨.callProvider name _ _, .answered resp⟩ => {(name, some resp.latencyMs)}
  | ⟨.callProvider name _ _, .threw _⟩ => {(name, none)}
  | _ => 0

/-- What a method reports. -/
def Op.reports : Op → Multiset Finding
  | .reportSuccess provider latencyMs => {(provider, some latencyMs)}
  | .reportFailure provider => {(provider, none)}
  | _ => 0

/-- What the calls of a thread find out. -/
def findings (tr : List (Event Op Op.Res)) : Multiset Finding := (tr.map findingsOf).sum

/-- What the calls of a thread report. -/
def reported (tr : List (Event Op Op.Res)) : Multiset Finding := (tr.map fun ev => ev.1.reports).sum

/-- What a request finds out and has to report. -/
def Request.findings : Request → List (Event Op Op.Res) → Multiset Finding
  | completions .., tr => Gateway.findings tr
  | _, _ => 0

/-- A report as a finding. -/
def Report.finding (report : Report) : Finding := (report.provider, report.latencyMs)

/-- Of what was found out, this is still to be reported. -/
def Owed (tr : List (Event Op Op.Res)) (m : Multiset Finding) : Prop := findings tr = reported tr + m

/-- The program reports what it finds out, nothing else, and at its end everything. -/
abbrev Reporting {α : Type} (past : List (Event Op Op.Res)) (p : Program α) : Prop :=
  After (fun _ => True) past p fun tr x => reported tr ≤ findings tr ∧ (x.isSome → Owed tr 0)

theorem Owed.le {tr : List (Event Op Op.Res)} {m : Multiset Finding} (h : Owed tr m) :
    reported tr ≤ findings tr := h ▸ Multiset.le_add_right _ m

theorem reported_append_singleton (tr : List (Event Op Op.Res)) (ev : Event Op Op.Res) :
    reported (tr ++ [ev]) = reported tr + ev.1.reports := by
  simp [reported]

theorem owed_nil : Owed [] 0 := rfl

/-- One call more. -/
theorem Owed.append {tr : List (Event Op Op.Res)} {m m' : Multiset Finding} (h : Owed tr m)
    {ev : Event Op Op.Res} (hev : m + findingsOf ev = ev.1.reports + m') :
    Owed (tr ++ [ev]) m' := by
  have hfound : findings (tr ++ [ev]) = findings tr + findingsOf ev := by simp [findings]
  rw [Owed, hfound, reported_append_singleton, h, add_assoc, hev, add_assoc]

/-- A method that neither finds out nor reports anything. -/
def Op.silent : Op → Bool
  | .callProvider .. | .reportSuccess .. | .reportFailure _ => false
  | _ => true

theorem Op.reports_of_silent {o : Op} (ho : o.silent = true) : o.reports = 0 := by
  cases o <;> first | rfl | cases ho

theorem Owed.silent {tr : List (Event Op Op.Res)} {m : Multiset Finding} (h : Owed tr m) {o : Op}
    (ho : o.silent = true) (r : o.Res) : Owed (tr ++ [⟨o, r⟩]) m := by
  have hfound : findingsOf ⟨o, r⟩ = 0 := by cases o <;> first | rfl | cases ho
  refine h.append ?_
  rw [hfound, Op.reports_of_silent ho, add_zero, zero_add]

/-! ## What the handlers report -/

namespace Handler

variable {P : Platform} {req : ChatRequest} {decision : RouteDecision}
  {past : List (Event Op Op.Res)} {m : Multiset Finding}

section
variable {α : Type}

theorem ret_reporting (hpast : Owed past 0) (a : α) : Reporting past (ret a) := by
  rw [Reporting, After.ret_iff]
  exact ⟨hpast.le, fun _ => hpast⟩

/-- A call in front of a program. -/
theorem call_reporting (hpast : Owed past m) {o : Op} {k : o.Res → Program α}
    (m' : o.Res → Multiset Finding) (hm : ∀ r, m + findingsOf ⟨o, r⟩ = o.reports + m' r)
    (hk : ∀ r, Owed (past ++ [⟨o, r⟩]) (m' r) → Reporting (past ++ [⟨o, r⟩]) (k r)) :
    Reporting past (call o k) := by
  rw [Reporting, After.call_iff]
  exact ⟨⟨hpast.le, fun h => by cases h⟩, fun r _ => hk r (hpast.append (hm r))⟩

/-- A provider call owes its report. -/
theorem provider_reporting (hpast : Owed past 0) {name : Str} {provider : Provider}
    {asked : ChatRequest} {k : ChatOutcome → Program α}
    (hk : ∀ outcome : ChatOutcome, ∀ tr,
      Owed tr (findingsOf ⟨.callProvider name provider asked, outcome⟩) → Reporting tr (k outcome)) :
    Reporting past (call (.callProvider name provider asked) k) :=
  call_reporting hpast (o := .callProvider name provider asked)
    (fun outcome => findingsOf ⟨.callProvider name provider asked, outcome⟩)
    (fun _ => (zero_add _).trans (zero_add _).symm) fun outcome => hk outcome _

/-- The report that was owed. -/
theorem report_reporting {report : Op} (hpast : Owed past report.reports)
    (hquiet : ∀ r, findingsOf ⟨report, r⟩ = 0) {k : report.Res → Program α}
    (hk : ∀ r tr, Owed tr 0 → Reporting tr (k r)) : Reporting past (call report k) :=
  call_reporting hpast (fun _ => 0) (fun r => by rw [hquiet]) fun r => hk r _

/-- A program that calls no provider. -/
theorem silent_reporting {p : Program α} (hpast : Owed past 0)
    (huses : Uses (fun o => o.silent = true) p) : Reporting past p :=
  After.mono (After.of_uses (J := fun tr => Owed tr 0) huses hpast
    fun _ _ r ho h => h.silent ho r) fun _ _ h => ⟨h.le, fun _ => h⟩

/-- A call of another method. -/
theorem silent_call_reporting (hpast : Owed past 0) {o : Op} (ho : o.silent = true)
    {k : o.Res → Program α} (hk : ∀ r tr, Owed tr 0 → Reporting tr (k r)) :
    Reporting past (call o k) := by
  rw [Reporting, After.call_iff]
  exact ⟨⟨hpast.le, fun h => by cases h⟩, fun r _ => hk r _ (hpast.silent ho r)⟩

/-- Programs in sequence. -/
theorem bind_reporting {β : Type} {p : Program α} {f : α → Program β}
    (h : Reporting past p) (hf : ∀ a tr, Owed tr 0 → Reporting tr (f a)) :
    Reporting past (p >>= f) := by
  refine After.bind (After.mono h fun tr x hx => ?_)
  cases x with
  | none => exact ⟨hx.1, fun h => by cases h⟩
  | some a => exact hf a tr (hx.2 rfl)

end

theorem tryFallbacks_reporting (chain : List Str) (hpast : Owed past 0) :
    Reporting past (tryFallbacks req chain) := by
  induction chain generalizing past with
  | nil => exact ret_reporting hpast _
  | cons fbName chain ih =>
      simp only [tryFallbacks, perform_bind]
      refine silent_call_reporting hpast rfl fun (fb : Option Provider) tr hpast => ?_
      cases fb with
      | none => exact ih hpast
      | some fb =>
          simp only
          split
          · exact ih hpast
          · refine provider_reporting hpast fun outcome tr howed => ?_
            cases outcome with
            | answered resp =>
                exact report_reporting howed (fun _ => rfl) fun _ _ hpaid => ret_reporting hpaid _
            | threw e => exact report_reporting howed (fun _ => rfl) fun _ _ hpaid => ih hpaid
            | nullException => exact ret_reporting howed _

theorem callProviders_reporting (provider : Provider) (hpast : Owed past 0) :
    Reporting past (callProviders req decision provider) := by
  simp only [callProviders, perform_bind]
  refine provider_reporting hpast fun outcome tr howed => ?_
  cases outcome with
  | answered resp =>
      exact report_reporting howed (fun _ => rfl) fun _ _ hpaid => ret_reporting hpaid _
  | threw e =>
      exact report_reporting howed (fun _ => rfl) fun _ _ hpaid => tryFallbacks_reporting _ hpaid
  | nullException => exact ret_reporting howed _

theorem recordUsage_silent (resp : ChatResponse) :
    Uses (fun o => o.silent = true) (recordUsage req resp) := by
  unfold recordUsage
  split
  · trivial
  · exact ⟨rfl, fun _ => trivial⟩

theorem settle_silent (resp : ChatResponse) :
    Uses (fun o => o.silent = true) (settle req decision resp) := by
  refine ⟨rfl, fun cost => ⟨rfl, fun now => ⟨rfl, fun _ => ?_⟩⟩⟩
  refine (recordUsage_silent _).bind fun _ => ⟨rfl, fun _ => ⟨rfl, fun _ => ⟨rfl, fun stored => ?_⟩⟩⟩
  cases stored <;> trivial

theorem refuse_silent (resp : Response) : Uses (fun o => o.silent = true) (refuse resp) :=
  ⟨rfl, fun _ => trivial⟩

theorem callStep_reporting (provider : Provider) (hpast : Owed past 0) :
    Reporting past (callStep req decision provider) := by
  refine bind_reporting (callProviders_reporting provider hpast) fun finish tr hpast => ?_
  cases finish with
  | answered resp => exact silent_reporting hpast (settle_silent resp)
  | failed => exact silent_reporting hpast (refuse_silent _)
  | crashed => exact ret_reporting hpast _

theorem routeStep_reporting (hpast : Owed past 0) : Reporting past (routeStep req) := by
  simp only [routeStep, perform_bind]
  refine silent_call_reporting hpast rfl fun (decision : RouteDecision) tr hpast => ?_
  split
  · exact silent_reporting hpast (refuse_silent _)
  · refine silent_call_reporting hpast rfl fun (provider : Option Provider) tr hpast => ?_
    cases provider with
    | none => exact silent_reporting hpast (refuse_silent _)
    | some provider => exact callStep_reporting provider hpast

theorem cacheStep_reporting (hpast : Owed past 0) : Reporting past (cacheStep req) := by
  simp only [cacheStep, perform_bind]
  refine silent_call_reporting hpast rfl fun (found : Option ChatResponse) tr hpast => ?_
  cases found with
  | some resp => exact silent_reporting hpast ⟨rfl, fun _ => trivial⟩
  | none => exact silent_call_reporting hpast rfl fun _ _ hpast => routeStep_reporting hpast

theorem limitStep_reporting (hpast : Owed past 0) : Reporting past (limitStep P req) := by
  unfold limitStep
  split
  · exact cacheStep_reporting hpast
  · simp only [perform_bind]
    refine silent_call_reporting hpast rfl fun _ tr hpast => ?_
    refine silent_call_reporting hpast rfl fun (checked : RateLimitResult) tr hpast => ?_
    split
    · exact ret_reporting hpast _
    · exact cacheStep_reporting hpast

theorem chatCompletions_reporting (draw : UInt64) (http : HttpRequest) :
    Reporting [] (chatCompletions P draw http) := by
  simp only [chatCompletions, perform_bind]
  refine silent_call_reporting owed_nil rfl fun _ tr hpast => ?_
  cases http.body with
  | none => exact ret_reporting hpast _
  | some body =>
      rcases hread : readRequest (generateRequestId draw) body with e | _ | req
      · simp only [hread]
        exact ret_reporting hpast _
      · simp only [hread]
        exact ret_reporting hpast _
      · simp only [hread]
        exact limitStep_reporting hpast

end Handler

/-- Only completion requests report. -/
theorem Request.reports_eq_zero {request : Request} {o : Op} (ho : request.allows o = true)
    (hother : ∀ draw http, request ≠ completions draw http) : o.reports = 0 := by
  cases request with
  | completions draw http => exact absurd rfl (hother draw http)
  | _ => cases o <;> first | rfl | cases ho

/-- **What a handler reports is what it found out.** -/
theorem Request.handler_reporting (P : Platform) (startTime : Time) (request : Request) :
    Meets (fun _ => True) (request.handler P startTime) fun tr x =>
      reported tr ≤ request.findings tr ∧ (x.isSome → reported tr = request.findings tr) := by
  rw [← After.nil_iff]
  by_cases hcompletions : ∃ draw http, request = completions draw http
  · obtain ⟨draw, http, rfl⟩ := hcompletions
    have hreporting := Handler.bind_reporting (f := fun reply => ret (Answer.of reply))
      (Handler.chatCompletions_reporting (P := P) draw http)
      fun reply tr hpast => Handler.ret_reporting hpast _
    exact hreporting.mono fun tr x h => ⟨h.1, fun hx => ((h.2 hx).trans (add_zero _)).symm⟩
  · have hother : ∀ draw http, request ≠ completions draw http :=
      fun draw http heq => hcompletions ⟨draw, http, heq⟩
    have hnone : ∀ tr, request.findings tr = 0 := fun tr => by
      cases request with
      | completions draw http => exact absurd rfl (hother draw http)
      | _ => rfl
    have hreports : After (fun _ => True) [] (request.handler P startTime)
        fun tr _ => reported tr = 0 :=
      After.of_uses (request.handler_uses P startTime) rfl fun tr o r ho htr => by
        rw [reported_append_singleton, htr, reports_eq_zero ho hother, add_zero]
    refine hreports.mono fun tr x htr => ?_
    rw [htr, hnone]
    exact ⟨le_rfl, fun _ => rfl⟩

/-! ## The reports of a log -/

section
variable {ι : Type}

/-- The report that a call makes. -/
def reportOf (en : Entry ι Moment Op Op.Res) : Option Report :=
  match en.event.1 with
  | .reportSuccess provider latencyMs => some (.success en.input.now provider latencyMs)
  | .reportFailure provider => some (.failure en.input.now provider)
  | _ => none

theorem Op.exec_health (P : Platform) (i : ι) (e : Moment) (o : Op) (r : o.Res) (s : Server) :
    (o.exec P e s).2.router.health =
      (s.router.afterReports (reportOf ⟨i, e, ⟨o, r⟩⟩).toList).health := by
  rw [exec_router]
  cases o with
  | route req => exact (Router.route_router e.walk e.sort req).1
  | _ => rfl

/-- The health map is what the reports make of it, in the order of the calls. -/
theorem Replays.health {P : Platform} {s s' : Server} {log : List (Entry ι Moment Op Op.Res)}
    (h : Replays (Op.exec P) s log s') :
    s'.router.health = (s.router.afterReports (log.filterMap reportOf)).health := by
  induction log generalizing s with
  | nil =>
      cases h
      rfl
  | cons en log ih =>
      have hstep := Op.exec_health P en.thread en.input en.event.1 en.event.2 s
      have hrest := Router.afterReports_congr hstep (log.filterMap reportOf)
      rw [ih h.2, hrest, ← Router.afterReports_append]
      cases hreport : reportOf en with
      | none => simp [hreport]
      | some report => simp [hreport]

theorem reports_eq (en : Entry ι Moment Op Op.Res) :
    en.event.1.reports = (reportOf en).elim 0 fun report => {report.finding} := by
  obtain ⟨i, e, ⟨o, r⟩⟩ := en
  cases o <;> rfl

/-- What the calls of a log report. -/
theorem sum_reports (log : List (Entry ι Moment Op Op.Res)) :
    (log.map fun en => en.event.1.reports).sum =
      ((log.filterMap reportOf).map Report.finding : Multiset Finding) := by
  induction log with
  | nil => rfl
  | cons en log ih =>
      rw [List.map_cons, List.sum_cons, ih, reports_eq]
      cases hreport : reportOf en with
      | none => simp [hreport]
      | some report => simp [hreport]

/-- What the requests of a service have found out about the providers. -/
def Service.findings [Fintype ι] [DecidableEq ι] (requests : ι → Request) (c : Service ι) :
    Multiset Finding :=
  ∑ i, (requests i).findings (traceOf i c.log)

variable [Fintype ι] [DecidableEq ι]

/-- **The reports are the calls.**  In every state of a service the health map is that
of a list of reports, one for each of some of the findings of the requests, and for
each of all the findings when all requests have their answers. -/
theorem reports_of_calls (P : Platform) (startTime : Time) (s : Server) (requests : ι → Request)
    (sched : List (ι × Moment)) :
    ∃ reports : List Report,
      (∀ p, (Service.after P startTime s requests sched).shared.router.healthRecord p =
        (s.router.healthRecord p).after (reportsOn p reports)) ∧
      (reports.map Report.finding : Multiset Finding) ≤
        (Service.after P startTime s requests sched).findings requests ∧
      ((∀ i, ((Service.after P startTime s requests sched).threads i).result.isSome) →
        (reports.map Report.finding : Multiset Finding) =
          (Service.after P startTime s requests sched).findings requests) := by
  have hrun := Service.explained P startTime s requests sched
  have hthread := fun i => hrun.guarantees ((requests i).handler_reporting P startTime)
  have hsum : ((((Service.after P startTime s requests sched).log.filterMap reportOf).map
      Report.finding : List Finding) : Multiset Finding) =
      ∑ i, reported (traceOf i (Service.after P startTime s requests sched).log) :=
    (sum_reports _).symm.trans (sum_traces (fun ev : Event Op Op.Res => ev.1.reports) _).symm
  refine ⟨(Service.after P startTime s requests sched).log.filterMap reportOf, fun p => ?_, ?_, ?_⟩
  · rw [← Router.healthRecord_afterReports, Router.healthRecord, Replays.health hrun.replays]
    rfl
  · rw [hsum]
    exact Finset.sum_le_sum fun i _ => (hthread i).1
  · intro hdone
    rw [hsum]
    exact Finset.sum_congr rfl fun i _ => (hthread i).2 (hdone i)

end

/-! ## What a record says about the calls -/

/-- A record follows from what was found out about its provider: the error rate is at
most a tenth of the failures, only six of them mark it unavailable, and the average
latency is within those of the answers. -/
structure ProviderHealth.Founded (h : ProviderHealth) (p : Str) (found : Multiset Finding) :
    Prop where
  rate_nonneg : 0 ≤ h.errorRate
  rate_le_one : h.errorRate ≤ 1
  rate_le : h.errorRate ≤ found.count (p, none) / 10
  down : h.available = false → 6 ≤ found.count (p, none)
  latency : ∀ low high, (∀ ms, (p, some ms) ∈ found → low ≤ ms ∧ ms ≤ high) →
    h.avgLatencyMs = 0 ∨ low ≤ h.avgLatencyMs ∧ h.avgLatencyMs ≤ high

theorem failures_reportsOn (p : Str) (reports : List Report) :
    failures (reportsOn p reports) =
      (reports.map Report.finding : Multiset Finding).count (p, none) := by
  induction reports with
  | nil => rfl
  | cons report reports ih =>
      have hfinding : (p, none) = report.finding ↔
          report.provider = p ∧ report.latencyMs = none := by
        rw [Report.finding, Prod.mk.injEq, eq_comm, @eq_comm _ none]
      rw [reportsOn_cons, List.map_cons, ← Multiset.cons_coe, Multiset.count_cons, ← ih]
      by_cases hp : report.provider = p
      · by_cases hms : report.latencyMs = none
        · rw [if_pos hp, if_pos (hfinding.mpr ⟨hp, hms⟩)]
          simp [failures, hms]
        · rw [if_pos hp, if_neg fun h => hms (hfinding.mp h).2]
          simp [failures, Option.isNone_iff_eq_none, hms]
      · rw [if_neg hp, if_neg fun h => hp (hfinding.mp h).1, add_zero]

theorem mem_latencies_reportsOn {p : Str} {reports : List Report} {ms : Double}
    (h : ms ∈ latencies (reportsOn p reports)) : (p, some ms) ∈ reports.map Report.finding := by
  obtain ⟨report, hreport, hms⟩ := List.mem_filterMap.mp h
  obtain ⟨hmem, hp⟩ := List.mem_filter.mp hreport
  have hname : report.provider = p := of_decide_eq_true hp
  exact List.mem_map.mpr ⟨report, hmem, by rw [Report.finding, hname, hms]⟩

/-- **The health map is founded on the calls** in every state of a service that
started without any records. -/
theorem record_of_calls {ι : Type} [Fintype ι] [DecidableEq ι] (P : Platform) (startTime : Time)
    (cfg : GatewayConfig) (requests : ι → Request) (sched : List (ι × Moment)) (p : Str) :
    ((Service.after P startTime (.init cfg) requests sched).shared.router.healthRecord p).Founded p
      ((Service.after P startTime (.init cfg) requests sched).findings requests) := by
  obtain ⟨reports, hrecord, hle, -⟩ := reports_of_calls P startTime (.init cfg) requests sched
  have htracked := ProviderHealth.tracked_nil.after (reportsOn p reports)
  have hstart : (Server.init cfg).router.healthRecord p = {} := Router.healthRecord_init cfg p
  rw [List.nil_append, ← hstart, ← hrecord] at htracked
  have hcount := Multiset.count_le_of_le (p, none) hle
  rw [← failures_reportsOn] at hcount
  have hrate : (failures (reportsOn p reports) : Double) ≤
      ((Service.after P startTime (.init cfg) requests sched).findings requests).count (p, none) :=
    Nat.cast_le.mpr hcount
  refine
    { rate_nonneg := htracked.rate_nonneg
      rate_le_one := htracked.rate_le_one
      rate_le := htracked.rate_le.trans (by linarith)
      down := fun hdown => (htracked.down hdown).trans hcount
      latency := fun low high hwithin => ?_ }
  by_cases hsilent : latencies (reportsOn p reports) = []
  · exact .inl (htracked.silent hsilent)
  · refine .inr (htracked.latency low high (fun ms hms => hwithin ms ?_) hsilent)
    exact Multiset.mem_of_le hle (mem_latencies_reportsOn hms)

end Gateway
