import LlmGateway.Identity
import LlmGateway.Ledger

/-!
# The spend summary

The ledger keeps two accounts of the same records: a running total for each key,
and a bounded history that `get_summary` adds up again whenever it is asked.
Every number of a summary is a sum over the records it counts (`summarize_eq`),
so its parts by provider, by model and by key are sums over fibers, and as long
as nothing has been dropped from the history the running totals are the
summaries of their keys.
-/

namespace Gateway

/-- The numbers of a summary: spend, savings, requests and cached requests. -/
def SpendSummary.totals (s : SpendSummary) : Double × Double × ℤ × ℤ :=
  (s.totalUsd, s.cacheSavingsUsd, s.totalRequests, s.cachedRequests)

/-- What one record adds to the numbers of a summary. -/
def RequestMetrics.share (m : RequestMetrics) : Double × Double × ℤ × ℤ :=
  (m.costUsd, if m.cacheHit then m.costUsd else 0, 1, if m.cacheHit then 1 else 0)

namespace CostTracker

/-- The tracker after a run of records, the oldest first. -/
def recordAll (t : CostTracker) (metrics : List RequestMetrics) : CostTracker :=
  metrics.foldl (fun t m => t.record m) t

/-- The summary of a list of records. -/
def summarize (records : List RequestMetrics) : SpendSummary :=
  records.foldl SpendSummary.count {}

/-- The summary of the records with a key, the empty one included. -/
def keySummary (key : Str) (t : CostTracker) : SpendSummary :=
  if key.isEmpty then summarize (t.history.filter fun m => m.apiKey.isEmpty)
  else t.getSummary key

/-! ### One summary -/

/-- Every number of a summary is a sum over the records. -/
theorem foldl_count (records : List RequestMetrics) (s : SpendSummary) :
    (records.foldl SpendSummary.count s).totals =
        s.totals + (records.map RequestMetrics.share).sum ∧
      (records.foldl SpendSummary.count s).byProvider =
        Tally.fill RequestMetrics.provider RequestMetrics.costUsd records s.byProvider ∧
      (records.foldl SpendSummary.count s).byModel =
        Tally.fill RequestMetrics.model RequestMetrics.costUsd records s.byModel := by
  induction records generalizing s with
  | nil => exact ⟨(add_zero _).symm, rfl, rfl⟩
  | cons m records ih =>
      obtain ⟨htotals, hprovider, hmodel⟩ := ih (s.count m)
      have hone : (s.count m).totals = s.totals + m.share := by
        cases hhit : m.cacheHit <;>
          simp [SpendSummary.totals, SpendSummary.count, RequestMetrics.share, hhit]
      refine ⟨?_, hprovider, hmodel⟩
      rw [List.foldl_cons, htotals, hone, List.map_cons, List.sum_cons, add_assoc]

theorem summarize_eq (records : List RequestMetrics) :
    (summarize records).totals = (records.map RequestMetrics.share).sum ∧
      (summarize records).byProvider =
        Tally.fill RequestMetrics.provider RequestMetrics.costUsd records ∅ ∧
      (summarize records).byModel =
        Tally.fill RequestMetrics.model RequestMetrics.costUsd records ∅ := by
  obtain ⟨htotals, hprovider, hmodel⟩ := foldl_count records {}
  exact ⟨htotals.trans (zero_add _), hprovider, hmodel⟩

/-- The first number of a summary is the cost of its records. -/
theorem summarize_totalUsd (records : List RequestMetrics) :
    (summarize records).totalUsd = (records.map RequestMetrics.costUsd).sum := by
  have hshares : ∀ records : List RequestMetrics,
      (records.map RequestMetrics.share).sum.1 = (records.map RequestMetrics.costUsd).sum := by
    intro records
    induction records with
    | nil => rfl
    | cons m records ih =>
        rw [List.map_cons, List.sum_cons, List.map_cons, List.sum_cons, Prod.fst_add, ih]
        rfl
  rw [← hshares, ← (summarize_eq records).1]
  rfl

/-- A provider's and a model's amount is the cost of its own records. -/
theorem summarize_amount (records : List RequestMetrics) (name : Str) :
    Tally.amount name (summarize records).byProvider =
        ((records.filter fun m => m.provider = name).map RequestMetrics.costUsd).sum ∧
      Tally.amount name (summarize records).byModel =
        ((records.filter fun m => m.model = name).map RequestMetrics.costUsd).sum := by
  obtain ⟨-, hprovider, hmodel⟩ := summarize_eq records
  rw [hprovider, hmodel, Tally.amount_fill, Tally.amount_fill, Tally.amount_empty, zero_add,
    zero_add]
  exact ⟨rfl, rfl⟩

/-- The sums by provider and by model both add up to the total. -/
theorem summarize_parts (records : List RequestMetrics) :
    Tally.total (summarize records).byProvider = (summarize records).totalUsd ∧
      Tally.total (summarize records).byModel = (summarize records).totalUsd := by
  obtain ⟨-, hprovider, hmodel⟩ := summarize_eq records
  rw [hprovider, hmodel, Tally.total_fill, Tally.total_fill, Tally.total_empty, zero_add,
    summarize_totalUsd]
  exact ⟨rfl, rfl⟩

/-- `get_summary` summarizes the records that its filter lets through. -/
theorem getSummary_eq (key : Str) (t : CostTracker) :
    t.getSummary key =
      summarize (t.history.filter fun m => !(!key.isEmpty && m.apiKey ≠ key)) := by
  unfold getSummary summarize
  rw [List.foldl_filter]
  congr 1
  funext s m
  cases hskip : !key.isEmpty && m.apiKey ≠ key <;> simp

theorem getSummary_nil (t : CostTracker) : t.getSummary [] = summarize t.history := by
  rw [getSummary_eq]
  congr 1
  exact List.filter_eq_self.mpr fun m _ => rfl

theorem getSummary_of_ne {key : Str} (hne : key ≠ []) (t : CostTracker) :
    t.getSummary key = summarize (t.history.filter fun m => m.apiKey = key) := by
  rw [getSummary_eq]
  congr 2
  funext m
  simp [hne]

theorem keySummary_eq (key : Str) (t : CostTracker) :
    t.keySummary key = summarize (t.history.filter fun m => m.apiKey = key) := by
  unfold keySummary
  by_cases hkey : key = []
  · subst hkey
    rw [if_pos List.isEmpty_nil]
    congr 2
    funext m
    cases m.apiKey <;> rfl
  · rw [if_neg (by simpa using hkey), getSummary_of_ne hkey]

/-- The summaries of all keys add up to the summary without a filter. -/
theorem keySummary_totals {t : CostTracker} {keys : List Str} (hnodup : keys.Nodup)
    (hcovered : ∀ m ∈ t.history, m.apiKey ∈ keys) :
    (keys.map fun key => (t.keySummary key).totals).sum = (t.getSummary []).totals := by
  have hkey : ∀ key, (t.keySummary key).totals =
      ((t.history.filter fun m => m.apiKey = key).map RequestMetrics.share).sum := by
    intro key
    rw [keySummary_eq]
    exact (summarize_eq _).1
  simp only [hkey]
  rw [getSummary_nil, (summarize_eq _).1]
  exact Tally.sum_fibers RequestMetrics.apiKey RequestMetrics.share hnodup t.history hcovered

/-! ### A run of records -/

theorem rtake_min {α : Type} (n : Nat) (l : List α) : l.rtake (min l.length n) = l.rtake n := by
  unfold List.rtake
  congr 1
  omega

/-- Recording leaves the prices alone. -/
theorem priced_record (m m' : RequestMetrics) (t : CostTracker) :
    (t.record m).priced m' = t.priced m' := rfl

theorem priced_apiKey (m : RequestMetrics) (t : CostTracker) : (t.priced m).apiKey = m.apiKey := by
  unfold priced
  split <;> rfl

/-- The history after a run of records. -/
theorem recordAll_history {t : CostTracker} (h : t.history.length ≤ maxHistory)
    (metrics : List RequestMetrics) :
    (t.recordAll metrics).history = (t.history ++ metrics.map t.priced).rtake maxHistory := by
  induction metrics generalizing t with
  | nil => simp [recordAll, rtake_of_length_le h]
  | cons m metrics ih =>
      have hlength : (t.record m).history.length ≤ maxHistory := by
        rw [record_history h, List.rtake, List.length_drop]
        omega
      have hpriced : (t.record m).priced = t.priced := funext fun m' => priced_record m m' t
      show ((t.record m).recordAll metrics).history = _
      rw [ih hlength, record_history h, rtake_append_rtake, hpriced, List.map_cons,
        List.append_assoc, List.singleton_append]

/-- The running total of a key after a run of records. -/
theorem recordAll_getSpend {key : Str} (hne : key ≠ []) (t : CostTracker)
    (metrics : List RequestMetrics) :
    (t.recordAll metrics).getSpend key = t.getSpend key +
      (((metrics.map t.priced).filter fun m => m.apiKey = key).map RequestMetrics.costUsd).sum := by
  induction metrics generalizing t with
  | nil => simp [recordAll]
  | cons m metrics ih =>
      have hpriced : (t.record m).priced = t.priced := funext fun m' => priced_record m m' t
      show ((t.record m).recordAll metrics).getSpend key = _
      rw [ih (t.record m), getSpend_record_eq hne, hpriced, List.map_cons, add_assoc]
      by_cases hkey : m.apiKey = key
      · rw [if_pos hkey, List.filter_cons_of_pos (by simpa [priced_apiKey] using hkey),
          List.map_cons, List.sum_cons]
      · rw [if_neg hkey, List.filter_cons_of_neg (by simpa [priced_apiKey] using hkey), zero_add]

/-- **The algebra of the ledger.**  After every sequence of records: the history
is the last `min(n, MAX_HISTORY)` of them in order; the sums by provider and by
model of every summary add up to its total; the summaries of the distinct keys of
the history add up to the summary of all; and until the history is full, the
spend of a key is the total of its summary. -/
theorem ledger_algebra (cfg : GatewayConfig) (metrics : List RequestMetrics) :
    ((init cfg).recordAll metrics).history =
        (metrics.map (init cfg).priced).rtake (min metrics.length maxHistory) ∧
      (∀ key, Tally.total (((init cfg).recordAll metrics).getSummary key).byProvider =
          (((init cfg).recordAll metrics).getSummary key).totalUsd ∧
        Tally.total (((init cfg).recordAll metrics).getSummary key).byModel =
          (((init cfg).recordAll metrics).getSummary key).totalUsd) ∧
      (∀ keys : List Str, keys.Nodup →
        (∀ key, key ∈ keys ↔ ∃ m ∈ ((init cfg).recordAll metrics).history, m.apiKey = key) →
          (keys.map fun key => (((init cfg).recordAll metrics).keySummary key).totals).sum =
            (((init cfg).recordAll metrics).getSummary []).totals) ∧
      (metrics.length ≤ maxHistory → ∀ key, key ≠ [] →
        ((init cfg).recordAll metrics).getSpend key =
          (((init cfg).recordAll metrics).getSummary key).totalUsd) := by
  have hhistory : ((init cfg).recordAll metrics).history =
      (metrics.map (init cfg).priced).rtake maxHistory :=
    recordAll_history (Nat.zero_le _) metrics
  refine ⟨?_, fun key => ?_, fun keys hnodup hkeys => ?_, fun hlength key hne => ?_⟩
  · rw [hhistory, ← rtake_min maxHistory, List.length_map]
  · rw [getSummary_eq]
    exact summarize_parts _
  · exact keySummary_totals hnodup fun m hm => (hkeys m.apiKey).mpr ⟨m, hm, rfl⟩
  · rw [recordAll_getSpend hne, getSummary_of_ne hne, summarize_totalUsd, hhistory,
      rtake_of_length_le (by rwa [List.length_map])]
    exact zero_add _

end CostTracker

end Gateway
