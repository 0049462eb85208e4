import LlmGateway.Metrics
import LlmGateway.Lib.Samples

/-!
# The latency window

The latencies that `Metrics` keeps are the latest of those observed, trimmed in
batches of five thousand, whatever else is counted in between.  A snapshot gives
their mean and the element at rank `p99_idx` of the sorted window;
`snapshot_of_observed` says that this is a 99th percentile.
-/

namespace Gateway

/-- A call on `Metrics`. -/
inductive MetricsCall where
  | incRequests
  | incErrors
  | incCacheHits
  | incCacheMisses
  | observeLatency (ms : Double)
  | observeTokens (count : ℤ)
  deriving DecidableEq, Repr

namespace MetricsCall

/-- The metrics after a call. -/
def step (m : Metrics) : MetricsCall → Metrics
  | incRequests => m.incRequests
  | incErrors => m.incErrors
  | incCacheHits => m.incCacheHits
  | incCacheMisses => m.incCacheMisses
  | observeLatency ms => m.observeLatency ms
  | observeTokens count => m.observeTokens count

/-- The latency a call observes. -/
def latency : MetricsCall → Option Double
  | observeLatency ms => some ms
  | _ => none

/-- The metrics after a run of calls, in the order they are made. -/
def run (calls : List MetricsCall) : Metrics := calls.foldl step {}

/-- The latencies a run observes, in order. -/
def observed (calls : List MetricsCall) : List Double := calls.filterMap latency

/-- The window is filled with the observed latencies. -/
theorem latencies_run (calls : List MetricsCall) :
    (run calls).latencies = Samples.fill 10000 5000 (observed calls) := by
  induction calls using List.reverseRecOn with
  | nil => rfl
  | append_singleton calls call ih =>
      unfold run observed Samples.fill at ih ⊢
      rw [List.foldl_append, List.filterMap_append, List.foldl_append, ← ih]
      cases call with
      | observeLatency ms => rfl
      | incRequests => rfl
      | incErrors => rfl
      | incCacheHits => rfl
      | incCacheMisses => rfl
      | observeTokens count => rfl

end MetricsCall

namespace Metrics

/-! ## The snapshot -/

/-- Of a list of numbers, at least 99 in a hundred are at most this one and at
least one in a hundred is at least this one. -/
structure IsP99 (latencies : List Double) (x : Double) : Prop where
  mem : x ∈ latencies
  below : 99 * latencies.length ≤ 100 * latencies.countP fun a => a ≤ x
  above : latencies.length ≤ 100 * latencies.countP fun a => x ≤ a

theorem ascending_perm (latencies : List Double) : (ascending latencies).Perm latencies :=
  List.perm_insertionSort _ _

theorem ascending_sorted (latencies : List Double) : (ascending latencies).Pairwise (· ≤ ·) :=
  List.pairwise_insertionSort _ _

/-- The rank is the whole part of 0.99 times the size. -/
theorem p99Idx_eq (size : Nat) : p99Idx size = 99 * size / 100 := by
  have hratio : (size : Double) * 0.99 = ((99 * size : Nat) : ℚ) / ((100 : Nat) : ℚ) := by
    push_cast
    ring
  have hfloor : ((size : Double) * 0.99).floor = ((99 * size / 100 : Nat) : ℤ) := by
    rw [hratio]
    exact Rat.floor_natCast_div_natCast _ _
  rw [p99Idx, hfloor]
  exact Int.toNat_natCast _

theorem p99Idx_lt {size : Nat} (h : 0 < size) : p99Idx size < size := by
  rw [p99Idx_eq]
  omega

theorem snapshot_avg {m : Metrics} (hne : m.latencies ≠ []) (startTime now : Time) :
    (m.snapshot startTime now).avgLatencyMs = m.latencies.sum / m.latencies.length := by
  have hnot : ¬ m.latencies.isEmpty = true := by rwa [List.isEmpty_iff]
  rw [snapshot, if_neg hnot, List.sum_eq_foldl]

/-- The rank is never cut down to the last element. -/
theorem snapshot_p99 {m : Metrics} (hne : m.latencies ≠ []) (startTime now : Time)
    (hidx : p99Idx m.latencies.length < (ascending m.latencies).length) :
    (m.snapshot startTime now).p99LatencyMs =
      (ascending m.latencies)[p99Idx m.latencies.length] := by
  have hnot : ¬ m.latencies.isEmpty = true := by rwa [List.isEmpty_iff]
  have hmin : min (p99Idx m.latencies.length) ((ascending m.latencies).length - 1) =
      p99Idx m.latencies.length := min_eq_left (by omega)
  have hlength := (ascending_perm m.latencies).length_eq
  simp only [snapshot, if_neg hnot, hlength] at hmin ⊢
  rw [hmin, List.getD_eq_getElem?_getD, List.getElem?_eq_getElem hidx, Option.getD_some]

/-- The percentile of a window, for every length of it and with ties. -/
theorem isP99_snapshot {m : Metrics} (hne : m.latencies ≠ []) (startTime now : Time) :
    IsP99 m.latencies (m.snapshot startTime now).p99LatencyMs := by
  have hperm := ascending_perm m.latencies
  have hidx : p99Idx m.latencies.length < (ascending m.latencies).length := by
    rw [hperm.length_eq]
    exact p99Idx_lt (List.length_pos_of_ne_nil hne)
  obtain ⟨hmem, hbelow, habove⟩ := Samples.rank_of_sorted hperm (ascending_sorted _) hidx
  have hrank := p99Idx_eq m.latencies.length
  rw [snapshot_p99 hne startTime now hidx]
  refine ⟨hmem, ?_, ?_⟩
  · omega
  · omega

/-- What a snapshot says after a run: its window is the latest of the latencies
that the run observed, and it gives the mean and a 99th percentile of it. -/
structure Summarizes (observed : List Double) (m : Metrics) (s : Snapshot) : Prop where
  suffix : m.latencies <:+ observed
  whole : observed.length ≤ 10000 → m.latencies.length = observed.length
  trimmed : 10000 < observed.length → 5001 ≤ m.latencies.length ∧ m.latencies.length ≤ 10000
  avg : s.avgLatencyMs = m.latencies.sum / m.latencies.length
  inRange : p99Idx m.latencies.length < m.latencies.length
  p99 : IsP99 m.latencies s.p99LatencyMs

/-- **The latency snapshot.**  After every run of calls that observes a latency,
whatever else it counts. -/
theorem snapshot_of_observed (calls : List MetricsCall)
    (hne : MetricsCall.observed calls ≠ []) (startTime now : Time) :
    Summarizes (MetricsCall.observed calls) (MetricsCall.run calls)
      ((MetricsCall.run calls).snapshot startTime now) := by
  have hretains : Samples.Retains 10000 5000 (MetricsCall.observed calls)
      (MetricsCall.run calls).latencies := by
    rw [MetricsCall.latencies_run]
    exact Samples.fill_retains (Nat.succ_pos _) _
  have hwindow : (MetricsCall.run calls).latencies ≠ [] := by
    intro hnil
    rcases le_or_gt (MetricsCall.observed calls).length 10000 with hle | hgt
    · exact hne ((hretains.whole hle).symm.trans hnil)
    · have htrimmed := (hretains.trimmed hgt).1
      rw [hnil, List.length_nil] at htrimmed
      omega
  exact
    { suffix := hretains.suffix
      whole := fun hle => congrArg List.length (hretains.whole hle)
      trimmed := hretains.trimmed
      avg := snapshot_avg hwindow startTime now
      inRange := p99Idx_lt (List.length_pos_of_ne_nil hwindow)
      p99 := isP99_snapshot hwindow startTime now }

/-- Three latencies: the percentile is the largest. -/
theorem snapshot_of_three :
    Summarizes [30, 10, 20] (MetricsCall.run [.observeLatency 30, .incRequests,
        .observeLatency 10, .observeLatency 20])
      ((MetricsCall.run [.observeLatency 30, .incRequests, .observeLatency 10,
        .observeLatency 20]).snapshot 0 0) :=
  snapshot_of_observed [.observeLatency 30, .incRequests, .observeLatency 10,
    .observeLatency 20] (List.cons_ne_nil _ _) 0 0

end Metrics

end Gateway
