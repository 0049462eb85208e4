import LlmGateway.Router

/-!
# The health map as a run of reports

The health map starts empty and only `report_success` and `report_failure`
write to it, each for one provider.  A run of reports therefore determines it,
and what every report preserves holds of every map that can be reached: the
latencies stay below a bound that the reported ones keep, and only providers
that were called have a record.
-/

namespace Gateway

/-- What the handler tells the router about one call. -/
inductive Report where
  | success (now : Time) (provider : Str) (latencyMs : Double)
  | failure (now : Time) (provider : Str)
  deriving DecidableEq, Repr

namespace Report

/-- The provider a report is about. -/
def provider : Report → Str
  | success _ name _ => name
  | failure _ name => name

/-- The latency a report brings along. -/
def latencyMs : Report → Option Double
  | success _ _ ms => some ms
  | failure _ _ => none

/-- Hand a report to the router. -/
def apply : Report → Router → Router
  | success now name ms, r => r.reportSuccess now name ms
  | failure now name, r => r.reportFailure now name

end Report

namespace Router

/-- The router after a run of reports, the oldest first. -/
def afterReports (r : Router) (reports : List Report) : Router :=
  reports.foldl (fun r report => report.apply r) r

@[simp] theorem afterReports_nil (r : Router) : r.afterReports [] = r := rfl

@[simp] theorem afterReports_cons (r : Router) (report : Report) (reports : List Report) :
    r.afterReports (report :: reports) = (report.apply r).afterReports reports := rfl

/-- A report writes one record, and nothing else. -/
theorem apply_eq (report : Report) (r : Router) :
    ∃ h : ProviderHealth, report.apply r =
        { r with health := r.health.insert report.provider h } ∧
      (h.avgLatencyMs = (r.healthRecord report.provider).avgLatencyMs ∨
        ∃ ms, report.latencyMs = some ms ∧
          (h.avgLatencyMs = ms ∨
            h.avgLatencyMs = (r.healthRecord report.provider).avgLatencyMs * 0.9 + ms * 0.1)) := by
  cases report with
  | failure now name => exact ⟨_, rfl, .inl rfl⟩
  | success now name ms =>
      refine ⟨_, rfl, .inr ⟨ms, rfl, ?_⟩⟩
      by_cases hzero : (r.healthRecord name).avgLatencyMs = 0
      · exact .inl (if_pos hzero)
      · exact .inr (if_neg hzero)

/-- Every averaged latency of the map is below the bound. -/
def LatenciesBelow (bound : Double) (health : UnorderedMap Str ProviderHealth) : Prop :=
  ∀ name h, health.lookup name = some h → h.avgLatencyMs < bound

theorem LatenciesBelow.healthRecord {bound : Double} (hpos : 0 < bound) {r : Router}
    (h : LatenciesBelow bound r.health) (name : Str) :
    (r.healthRecord name).avgLatencyMs < bound := by
  unfold Router.healthRecord
  cases hl : r.health.lookup name with
  | none => exact hpos
  | some record => exact h name record hl

/-- The average of latencies below a bound is below it. -/
theorem LatenciesBelow.apply {bound : Double} (hpos : 0 < bound) {r : Router}
    (h : LatenciesBelow bound r.health) {report : Report}
    (hms : ∀ ms ∈ report.latencyMs, ms < bound) :
    LatenciesBelow bound (report.apply r).health := by
  obtain ⟨record, happly, havg⟩ := apply_eq report r
  have hold := h.healthRecord hpos report.provider
  have hnew : record.avgLatencyMs < bound := by
    rcases havg with hsame | ⟨ms, hreported, hfirst | hmixed⟩
    · rw [hsame]
      exact hold
    · rw [hfirst]
      exact hms ms hreported
    · have hlt := hms ms hreported
      rw [hmixed]
      linarith
  rw [happly]
  intro name record' hl
  by_cases hname : name = report.provider
  · subst hname
    rw [AList.lookup_insert] at hl
    cases hl
    exact hnew
  · rw [AList.lookup_insert_ne hname] at hl
    exact h name record' hl

/-- Reported latencies below a bound keep the map below it. -/
theorem LatenciesBelow.afterReports {bound : Double} (hpos : 0 < bound) {r : Router}
    (h : LatenciesBelow bound r.health) {reports : List Report}
    (hms : ∀ report ∈ reports, ∀ ms ∈ report.latencyMs, ms < bound) :
    LatenciesBelow bound (r.afterReports reports).health := by
  induction reports generalizing r with
  | nil => exact h
  | cons report reports ih =>
      apply ih
      · exact h.apply hpos (hms report List.mem_cons_self)
      · exact fun later hlater => hms later (List.mem_cons_of_mem _ hlater)

theorem latenciesBelow_empty (bound : Double) :
    LatenciesBelow bound (∅ : UnorderedMap Str ProviderHealth) := by
  intro name h hl
  rw [AList.lookup_empty] at hl
  cases hl

/-! ### Who has a record -/

/-- What a report writes depends on the health map alone. -/
theorem apply_congr {r r' : Router} (h : r'.health = r.health) (report : Report) :
    (report.apply r').health = (report.apply r).health := by
  obtain ⟨health, counter, strategy⟩ := r
  obtain ⟨health', counter', strategy'⟩ := r'
  subst h
  cases report with
  | success now name ms => rfl
  | failure now name => rfl

theorem afterReports_congr {r r' : Router} (h : r'.health = r.health) (reports : List Report) :
    (r'.afterReports reports).health = (r.afterReports reports).health := by
  induction reports generalizing r r' with
  | nil => exact h
  | cons report reports ih => exact ih (apply_congr h report)

theorem afterReports_append (r : Router) (reports later : List Report) :
    r.afterReports (reports ++ later) = (r.afterReports reports).afterReports later :=
  List.foldl_append

/-- A provider with a record had one before or was reported on. -/
theorem lookup_afterReports {r : Router} {reports : List Report} {name : Str}
    (h : ((r.afterReports reports).health.lookup name).isSome) :
    (r.health.lookup name).isSome ∨ ∃ report ∈ reports, report.provider = name := by
  induction reports generalizing r with
  | nil => exact .inl h
  | cons report reports ih =>
      rw [afterReports_cons] at h
      rcases ih h with hbefore | ⟨later, hlater, hname⟩
      · obtain ⟨record, happly, -⟩ := apply_eq report r
        rw [happly] at hbefore
        by_cases hname : name = report.provider
        · exact .inr ⟨report, List.mem_cons_self, hname.symm⟩
        · rw [AList.lookup_insert_ne hname] at hbefore
          exact .inl hbefore
      · exact .inr ⟨later, List.mem_cons_of_mem _ hlater, hname⟩

end Router

end Gateway
