import LlmGateway.HealthReports
import Mathlib.Tactic.Linarith
import Mathlib.Tactic.NormNum

/-!
# The record of one provider

The reports on a provider alone determine its record (`healthRecord_afterReports`),
so what the two formulas of `report_success` and `report_failure` do can be
followed on a single record.  `Tracked` ties the record to the reports so far: the
error rate is at most a tenth of the failures, and the average latency is within
the reported ones.

A success marks its provider available whatever the error rate is after the
decay, so the circuit breaker of the design holds over exactly those runs in
which no success comes while the decayed rate is still above one half.
-/

namespace Gateway

namespace Report

/-- What a report makes of the record of its provider. -/
def update (h : ProviderHealth) : Report → ProviderHealth
  | success now name ms =>
      { h with
        name := name
        available := true
        requestsLastMinute := wrap32 (h.requestsLastMinute + 1)
        lastSuccess := now
        avgLatencyMs := if h.avgLatencyMs = 0 then ms else h.avgLatencyMs * 0.9 + ms * 0.1
        errorRate := h.errorRate * 0.95 }
  | failure now name =>
      { h with
        name := name
        errorsLastMinute := wrap32 (h.errorsLastMinute + 1)
        lastError := now
        errorRate := min 1 (h.errorRate + 0.1)
        available := h.available && !(min 1 (h.errorRate + 0.1) > (0.5 : Double)) }

/-- A report updates the record of its provider. -/
theorem apply_eq_update (report : Report) (r : Router) :
    report.apply r =
      { r with
        health := r.health.insert report.provider
          (report.update (r.healthRecord report.provider)) } := by
  cases report <;> rfl

end Report

/-- A record after a run of reports, the oldest first. -/
def ProviderHealth.after (h : ProviderHealth) (reports : List Report) : ProviderHealth :=
  reports.foldl (fun h report => report.update h) h

/-- The failures among the reports. -/
def failures (reports : List Report) : Nat := reports.countP fun report => report.latencyMs.isNone

/-- The latencies that the reports bring along. -/
def latencies (reports : List Report) : List Double := reports.filterMap Report.latencyMs

/-- The reports on one provider. -/
def reportsOn (p : Str) (reports : List Report) : List Report :=
  reports.filter fun report => report.provider = p

theorem reportsOn_cons (p : Str) (report : Report) (reports : List Report) :
    reportsOn p (report :: reports) =
      if report.provider = p then report :: reportsOn p reports else reportsOn p reports := by
  unfold reportsOn
  by_cases hp : report.provider = p <;> simp [hp]

namespace Router

theorem healthRecord_apply (report : Report) (r : Router) (p : Str) :
    (report.apply r).healthRecord p =
      if report.provider = p then report.update (r.healthRecord p) else r.healthRecord p := by
  rw [Report.apply_eq_update]
  unfold healthRecord
  by_cases hp : report.provider = p
  · subst hp
    rw [if_pos rfl, AList.lookup_insert, Option.getD_some]
  · rw [if_neg hp, AList.lookup_insert_ne (Ne.symm hp)]

theorem healthRecord_apply_self (report : Report) (r : Router) :
    (report.apply r).healthRecord report.provider =
      report.update (r.healthRecord report.provider) := by
  rw [healthRecord_apply, if_pos rfl]

theorem healthRecord_apply_of_ne (report : Report) {q : Str} (hne : report.provider ≠ q)
    (r : Router) : (report.apply r).healthRecord q = r.healthRecord q := by
  rw [healthRecord_apply, if_neg hne]

/-- The record of a provider is what its own reports make of it. -/
theorem healthRecord_afterReports (r : Router) (reports : List Report) (p : Str) :
    (r.afterReports reports).healthRecord p =
      (r.healthRecord p).after (reportsOn p reports) := by
  induction reports generalizing r with
  | nil => rfl
  | cons report reports ih =>
      rw [afterReports_cons, ih, healthRecord_apply, reportsOn_cons]
      by_cases hp : report.provider = p
      · rw [if_pos hp, if_pos hp]
        rfl
      · rw [if_neg hp, if_neg hp]

/-- A provider without a record counts as available, like the default one. -/
theorem isAvailable_eq (r : Router) (p : Str) :
    r.isAvailable p = (r.healthRecord p).available := by
  unfold isAvailable healthRecord
  cases r.health.lookup p <;> rfl

theorem healthRecord_init (cfg : GatewayConfig) (p : Str) : (init cfg).healthRecord p = {} := rfl

end Router

/-! ### The formulas on one record -/

namespace ProviderHealth

/-- The record after these reports, from a new one. -/
structure Tracked (h : ProviderHealth) (reports : List Report) : Prop where
  rate_nonneg : 0 ≤ h.errorRate
  rate_le_one : h.errorRate ≤ 1
  rate_le : h.errorRate ≤ failures reports / 10
  down : h.available = false → 6 ≤ failures reports
  silent : latencies reports = [] → h.avgLatencyMs = 0
  latency : ∀ low high, (∀ ms ∈ latencies reports, low ≤ ms ∧ ms ≤ high) →
    latencies reports ≠ [] → low ≤ h.avgLatencyMs ∧ h.avgLatencyMs ≤ high

theorem tracked_nil : Tracked {} [] where
  rate_nonneg := le_rfl
  rate_le_one := by norm_num
  rate_le := by simp [failures]
  down h := by cases h
  silent _ := rfl
  latency _ _ _ hne := absurd rfl hne

/-- A success decays the rate and averages the latency. -/
theorem Tracked.success {h : ProviderHealth} {reports : List Report} (ht : Tracked h reports)
    (now : Time) (name : Str) (ms : Double) :
    Tracked ((Report.success now name ms).update h) (reports ++ [.success now name ms]) := by
  have hfailures : failures (reports ++ [.success now name ms]) = failures reports := by
    simp [failures, Report.latencyMs]
  have hlatencies : latencies (reports ++ [.success now name ms]) = latencies reports ++ [ms] := by
    simp [latencies, Report.latencyMs]
  obtain ⟨hnonneg, hone, hle, hdown, hsilent, hlatency⟩ := ht
  simp only [Report.update]
  refine ⟨?_, ?_, ?_, ?_, ?_, ?_⟩
  · simp only
    linarith
  · simp only
    linarith
  · rw [hfailures]
    simp only
    linarith
  · intro h
    cases h
  · intro hnone
    simp [hlatencies] at hnone
  · intro low high hwithin _
    rw [hlatencies] at hwithin
    obtain ⟨hlow, hhigh⟩ := hwithin ms (by simp)
    by_cases hzero : h.avgLatencyMs = 0
    · -- the average starts, or starts again, at the reported latency
      simp only [hzero, if_true]
      exact ⟨hlow, hhigh⟩
    · have hsome : latencies reports ≠ [] := fun hnone => hzero (hsilent hnone)
      obtain ⟨hlow', hhigh'⟩ := hlatency low high
        (fun ms' hms' => hwithin ms' (List.mem_append_left _ hms')) hsome
      simp only [hzero, if_false]
      constructor <;> linarith

/-- A failure adds a tenth to the rate, up to one. -/
theorem Tracked.failure {h : ProviderHealth} {reports : List Report} (ht : Tracked h reports)
    (now : Time) (name : Str) :
    Tracked ((Report.failure now name).update h) (reports ++ [.failure now name]) := by
  have hfailures : failures (reports ++ [.failure now name]) = failures reports + 1 := by
    simp [failures, Report.latencyMs]
  have hlatencies : latencies (reports ++ [.failure now name]) = latencies reports := by
    simp [latencies, Report.latencyMs]
  obtain ⟨hnonneg, hone, hle, hdown, hsilent, hlatency⟩ := ht
  have hsum : min 1 (h.errorRate + 0.1) ≤ (failures reports + 1 : Nat) / 10 := by
    have := min_le_right 1 (h.errorRate + 0.1)
    push_cast
    linarith
  simp only [Report.update]
  refine ⟨?_, min_le_left _ _, ?_, ?_, ?_, ?_⟩
  · apply le_min
    · norm_num
    · linarith
  · rw [hfailures]
    exact hsum
  · intro hunavailable
    rw [hfailures]
    rcases Bool.and_eq_false_iff.mp hunavailable with hbefore | hnow
    · have := hdown hbefore
      omega
    · have hover : (0.5 : Double) < min 1 (h.errorRate + 0.1) := by simpa using hnow
      have hmany : (5 : ℚ) < (failures reports + 1 : Nat) := by linarith
      have : 5 < failures reports + 1 := by exact_mod_cast hmany
      omega
  · rw [hlatencies]
    exact hsilent
  · rw [hlatencies]
    exact hlatency

theorem Tracked.update {h : ProviderHealth} {reports : List Report} (ht : Tracked h reports)
    (report : Report) : Tracked (report.update h) (reports ++ [report]) := by
  cases report with
  | success now name ms => exact ht.success now name ms
  | failure now name => exact ht.failure now name

theorem Tracked.after {h : ProviderHealth} {reports : List Report} (ht : Tracked h reports)
    (later : List Report) : Tracked (h.after later) (reports ++ later) := by
  induction later generalizing h reports with
  | nil =>
      rw [List.append_nil]
      exact ht
  | cons report later ih =>
      have hnext := ih (ht.update report)
      rw [List.append_assoc] at hnext
      exact hnext

theorem after_append (h : ProviderHealth) (reports later : List Report) :
    h.after (reports ++ later) = (h.after reports).after later := List.foldl_append

/-- Failures in a row drive the rate up, a tenth each until it is one. -/
theorem rate_after_failures {h : ProviderHealth} (hnonneg : 0 ≤ h.errorRate)
    {last : List Report} (hfail : ∀ report ∈ last, report.latencyMs = none) :
    min 1 (h.errorRate + last.length / 10) ≤ (h.after last).errorRate := by
  induction last generalizing h with
  | nil => simp [after]
  | cons report last ih =>
      have hthis := hfail report List.mem_cons_self
      cases report with
      | success now name ms => cases hthis
      | failure now name =>
          have hnext : 0 ≤ ((Report.failure now name).update h).errorRate := by
            apply le_min
            · norm_num
            · linarith
          have hrest := ih hnext fun later hlater => hfail later (List.mem_cons_of_mem _ hlater)
          refine le_trans ?_ hrest
          have hgrow : (0 : ℚ) ≤ last.length / 10 := by positivity
          refine le_min (min_le_left _ _) ?_
          show min 1 (h.errorRate + ((last.length + 1 : Nat) : ℚ) / 10) ≤
            min 1 (h.errorRate + 0.1) + last.length / 10
          rcases le_total 1 (h.errorRate + 0.1) with hfull | hroom
          · rw [min_eq_left hfull]
            exact (min_le_left _ _).trans (by linarith)
          · rw [min_eq_right hroom]
            refine (min_le_right _ _).trans ?_
            push_cast
            linarith

/-- The sixth failure in a row leaves the provider unavailable, and so does each
one after it. -/
theorem down_after_failures {h : ProviderHealth} (hnonneg : 0 ≤ h.errorRate)
    {last : List Report} (hfail : ∀ report ∈ last, report.latencyMs = none)
    (hsix : 6 ≤ last.length) : (h.after last).available = false := by
  have hne : last ≠ [] := by
    rintro rfl
    cases hsix
  have hsplit := List.dropLast_append_getLast hne
  have hlast := hfail _ (List.getLast_mem hne)
  have hbefore : min 1 (h.errorRate + last.dropLast.length / 10) ≤
      (h.after last.dropLast).errorRate :=
    rate_after_failures hnonneg fun report hreport =>
      hfail report (List.mem_of_mem_dropLast hreport)
  have hfive : (5 : ℚ) ≤ (last.dropLast.length : ℚ) := by
    rw [List.length_dropLast]
    have : 5 ≤ last.length - 1 := by omega
    exact_mod_cast this
  have hhalf : (1 / 2 : ℚ) ≤ (h.after last.dropLast).errorRate := by
    refine le_trans (le_min ?_ ?_) hbefore
    · norm_num
    · linarith
  rw [← hsplit, after_append]
  cases hfinal : last.getLast hne with
  | success now name ms =>
      rw [hfinal] at hlast
      cases hlast
  | failure now name =>
      have hover : (0.5 : Double) < min 1 ((h.after last.dropLast).errorRate + 0.1) := by
        apply lt_min
        · norm_num
        · linarith
      show ((h.after last.dropLast).available && !decide _) = false
      rw [decide_eq_true hover, Bool.not_true, Bool.and_false]

end ProviderHealth

/-! ### Runs of reports -/

namespace Router

variable {cfg : GatewayConfig} {p : Str}

theorem tracked_afterReports (cfg : GatewayConfig) (reports : List Report) (p : Str) :
    (((init cfg).afterReports reports).healthRecord p).Tracked (reportsOn p reports) := by
  rw [healthRecord_afterReports, healthRecord_init]
  exact ProviderHealth.tracked_nil.after (reportsOn p reports)

/-- A list with an element has a least and a greatest one. -/
theorem exists_extremes {l : List Double} (hne : l ≠ []) :
    ∃ low ∈ l, ∃ high ∈ l, ∀ x ∈ l, low ≤ x ∧ x ≤ high := by
  have hsome : l.toFinset.Nonempty := List.toFinset_nonempty_iff l |>.mpr hne
  obtain ⟨low, hlow, hleast⟩ := l.toFinset.exists_min_image id hsome
  obtain ⟨high, hhigh, hgreatest⟩ := l.toFinset.exists_max_image id hsome
  refine ⟨low, List.mem_toFinset.mp hlow, high, List.mem_toFinset.mp hhigh, fun x hx => ?_⟩
  exact ⟨hleast x (List.mem_toFinset.mpr hx), hgreatest x (List.mem_toFinset.mpr hx)⟩

/-- **The bounds of health.**  After every run of reports, for every provider: the
error rate is in `[0, 1]`; the average latency is between the smallest and the
largest latency reported so far, once there is one; it is unavailable only after
six failures at least; and any six failures in a row, whatever came before, leave
it unavailable. -/
theorem health_bounds (cfg : GatewayConfig) (reports : List Report) (p : Str) :
    (0 ≤ (((init cfg).afterReports reports).healthRecord p).errorRate ∧
        (((init cfg).afterReports reports).healthRecord p).errorRate ≤ 1) ∧
      (latencies (reportsOn p reports) ≠ [] →
        ∃ low ∈ latencies (reportsOn p reports), ∃ high ∈ latencies (reportsOn p reports),
          (∀ ms ∈ latencies (reportsOn p reports), low ≤ ms ∧ ms ≤ high) ∧
          low ≤ (((init cfg).afterReports reports).healthRecord p).avgLatencyMs ∧
          (((init cfg).afterReports reports).healthRecord p).avgLatencyMs ≤ high) ∧
      (((init cfg).afterReports reports).isAvailable p = false →
        6 ≤ failures (reportsOn p reports)) ∧
      ∀ earlier last, reports = earlier ++ last →
        (∀ report ∈ reportsOn p last, report.latencyMs = none) →
        6 ≤ (reportsOn p last).length →
          ((init cfg).afterReports reports).isAvailable p = false := by
  have htracked := tracked_afterReports cfg reports p
  refine ⟨⟨htracked.rate_nonneg, htracked.rate_le_one⟩, fun hsome => ?_, fun hdown => ?_, ?_⟩
  · obtain ⟨low, hlow, high, hhigh, hwithin⟩ := exists_extremes hsome
    exact ⟨low, hlow, high, hhigh, hwithin, htracked.latency low high hwithin hsome⟩
  · rw [isAvailable_eq] at hdown
    exact htracked.down hdown
  · intro earlier last hsplit hfail hsix
    have hnonneg := (tracked_afterReports cfg earlier p).rate_nonneg
    rw [hsplit, afterReports_append, isAvailable_eq, healthRecord_afterReports]
    exact ProviderHealth.down_after_failures hnonneg hfail hsix

/-! ### The circuit breaker -/

/-- The rule of the design: an error rate above one half means unavailable. -/
def CircuitRule (r : Router) : Prop :=
  ∀ p h, r.health.lookup p = some h → 0.5 < h.errorRate → h.available = false

/-- The rule on the record of each provider. -/
theorem circuitRule_iff {r : Router} :
    CircuitRule r ↔
      ∀ p, 0.5 < (r.healthRecord p).errorRate → (r.healthRecord p).available = false := by
  unfold CircuitRule healthRecord
  constructor
  · intro hrule p hrate
    cases hl : r.health.lookup p with
    | none =>
        rw [hl] at hrate
        norm_num at hrate
    | some h =>
        rw [hl] at hrate
        exact hrule p h hl hrate
  · intro hrule p h hl hrate
    have := hrule p
    rw [hl] at this
    exact this hrate

/-- A failure keeps the rule. -/
theorem CircuitRule.failure {r : Router} (h : CircuitRule r) (now : Time) (p : Str) :
    CircuitRule ((Report.failure now p).apply r) := by
  rw [circuitRule_iff] at h ⊢
  intro q hrate
  by_cases hq : p = q
  · subst hq
    have hself := healthRecord_apply_self (.failure now p) r
    simp only [Report.provider] at hself
    rw [hself] at hrate ⊢
    have hover : min 1 ((r.healthRecord p).errorRate + 0.1) > (0.5 : Double) := hrate
    show (_ && !decide _) = false
    rw [decide_eq_true hover, Bool.not_true, Bool.and_false]
  · have hother : ((Report.failure now p).apply r).healthRecord q = r.healthRecord q :=
      healthRecord_apply_of_ne (.failure now p) hq r
    rw [hother] at hrate ⊢
    exact h q hrate

/-- A success keeps the rule exactly when the decayed rate is no longer above one
half. -/
theorem CircuitRule.success_iff {r : Router} (h : CircuitRule r) (now : Time) (p : Str)
    (ms : Double) :
    CircuitRule ((Report.success now p ms).apply r) ↔
      (r.healthRecord p).errorRate * 0.95 ≤ 0.5 := by
  have hself := healthRecord_apply_self (.success now p ms) r
  simp only [Report.provider] at hself
  rw [circuitRule_iff] at h ⊢
  constructor
  · intro hafter
    by_contra hhigh
    have hrecord := hafter p
    rw [hself] at hrecord
    cases hrecord (not_le.mp hhigh)
  · intro hlow q hrate
    by_cases hq : p = q
    · subst hq
      rw [hself] at hrate
      exact absurd hrate (not_lt.mpr hlow)
    · have hother : ((Report.success now p ms).apply r).healthRecord q = r.healthRecord q :=
        healthRecord_apply_of_ne (.success now p ms) hq r
      rw [hother] at hrate ⊢
      exact h q hrate

/-- **The circuit breaker.**  The rule holds in every state that a run of reports
comes through exactly when every success of the run finds its provider with an
error rate that its decay brings down to one half. -/
theorem circuit_rule_iff (cfg : GatewayConfig) (reports : List Report) :
    (∀ earlier, earlier <+: reports → CircuitRule ((init cfg).afterReports earlier)) ↔
      ∀ earlier now p ms, earlier ++ [.success now p ms] <+: reports →
        (((init cfg).afterReports earlier).healthRecord p).errorRate * 0.95 ≤ 0.5 := by
  have hstep : ∀ earlier report, (init cfg).afterReports (earlier ++ [report]) =
      report.apply ((init cfg).afterReports earlier) :=
    fun earlier report => afterReports_append (init cfg) earlier [report]
  constructor
  · intro hrule earlier now p ms hinitial
    have hbefore := hrule earlier ((List.prefix_append _ _).trans hinitial)
    have hafter := hrule _ hinitial
    rw [hstep] at hafter
    exact (hbefore.success_iff now p ms).mp hafter
  · intro hcond earlier
    induction earlier using List.reverseRecOn with
    | nil =>
        intro _ p h hl
        cases hl
    | append_singleton earlier report ih =>
        intro hinitial
        have hbefore := ih ((List.prefix_append _ _).trans hinitial)
        rw [hstep]
        cases report with
        | success now p ms =>
            exact (hbefore.success_iff now p ms).mpr (hcond earlier now p ms hinitial)
        | failure now p => exact hbefore.failure now p

/-- Six failures and a success. -/
def sixFailuresThenSuccess : List Report :=
  List.replicate 6 (.failure 0 (str "groq")) ++ [.success 0 (str "groq") 100]

/-- One success brings a provider back whose error rate is still `0.57`. -/
theorem success_closes_the_circuit_early :
    ¬ ∀ (cfg : GatewayConfig) (reports : List Report),
      CircuitRule ((init cfg).afterReports reports) := by
  intro h
  have hrule := circuitRule_iff.mp (h {} sixFailuresThenSuccess) (str "groq")
    (by with_unfolding_all decide)
  revert hrule
  decide

end Router

end Gateway
