import Mathlib.Algebra.BigOperators.Group.Finset.Basic
import Mathlib.Algebra.Order.BigOperators.Group.Finset
import Mathlib.Data.Int.Interval
import Mathlib.Tactic

/-!
# Counting events by their windows

Events happen in windows of a given length, of which different ones start at
least that length apart.  An interval of `k` lengths meets at most `k + 1` of
them, so if no window holds more than `R` events the interval holds at most
`(k + 1) * R`.

A counter that starts a window lazily, with the first use that finds the old one
over, and counts up to a limit within each, keeps its events in such windows:
`Tallied` is its invariant.
-/

namespace WindowCount

variable {α : Type*} (time start : α → ℤ) (length : ℤ)

/-- Every event lies in its window, and different windows start at least their
length apart. -/
structure Windowed (log : List α) : Prop where
  inside : ∀ e ∈ log, start e ≤ time e ∧ time e < start e + length
  apart : ∀ e ∈ log, ∀ e' ∈ log, start e < start e' → start e + length ≤ start e'

variable {time start length} {log : List α}

/-- An event at a time that a window of the log covers lies in that window. -/
theorem Windowed.start_eq (h : Windowed time start length log) {e e' : α} (he : e ∈ log)
    (he' : e' ∈ log) (hlow : start e ≤ time e') (hhigh : time e' < start e + length) :
    start e' = start e := by
  obtain ⟨hbegun, hopen⟩ := h.inside e' he'
  rcases lt_trichotomy (start e') (start e) with hlt | hsame | hlt
  · have := h.apart e' he' e he hlt
    omega
  · exact hsame
  · have := h.apart e he e' he' hlt
    omega

/-- The events of a log, counted window by window. -/
theorem length_le_of_starts {R : Nat} (hcount : ∀ s, log.countP (start · = s) ≤ R) :
    log.length ≤ (log.map start).toFinset.card * R := by
  have hone : ∀ s ∈ (log.map start).toFinset, (log.map start).count s ≤ R := by
    intro s _
    rw [List.count_eq_countP, List.countP_map]
    refine le_trans (le_of_eq ?_) (hcount s)
    congr 1
  calc log.length = (log.map start).length := by rw [List.length_map]
    _ = ∑ s ∈ (log.map start).toFinset, (log.map start).count s :=
        (List.sum_toFinset_count_eq_length _).symm
    _ ≤ (log.map start).toFinset.card • R := Finset.sum_le_card_nsmul _ _ _ hone
    _ = (log.map start).toFinset.card * R := smul_eq_mul _ _

/-- Starts that are a length apart and lie in an open interval of `k + 1`
lengths are at most `k + 1` many. -/
theorem card_starts_le (hlength : 0 < length) {starts : Finset ℤ}
    (hapart : ∀ s ∈ starts, ∀ s' ∈ starts, s < s' → s + length ≤ s') {a : ℤ} {k : Nat}
    (hin : ∀ s ∈ starts, a < s ∧ s < a + (k + 1) * length) : starts.card ≤ k + 1 := by
  have hindex : ∀ s ∈ starts, (s - a) / length ∈ Finset.Icc (0 : ℤ) k := by
    intro s hs
    obtain ⟨hlow, hhigh⟩ := hin s hs
    rw [Finset.mem_Icc]
    refine ⟨Int.ediv_nonneg (by omega) hlength.le, ?_⟩
    have hlt : (s - a) / length < k + 1 := Int.ediv_lt_of_lt_mul hlength (by linarith)
    omega
  have hmono : ∀ s ∈ starts, ∀ s' ∈ starts, s < s' → (s - a) / length < (s' - a) / length := by
    intro s hs s' hs' hlt
    have hgap := hapart s hs s' hs' hlt
    calc (s - a) / length < (s - a) / length + 1 := Int.lt_succ _
      _ = (s - a + 1 * length) / length := (Int.add_mul_ediv_right _ _ hlength.ne').symm
      _ ≤ (s' - a) / length := Int.ediv_le_ediv hlength (by omega)
  have hinj : Set.InjOn (fun s => (s - a) / length) starts := by
    intro s hs s' hs' heq
    rcases lt_trichotomy s s' with hlt | hsame | hlt
    · exact absurd heq (hmono s hs s' hs' hlt).ne
    · exact hsame
    · exact absurd heq (hmono s' hs' s hs hlt).ne'
  calc starts.card ≤ (Finset.Icc (0 : ℤ) k).card := Finset.card_le_card_of_injOn _ hindex hinj
    _ = k + 1 := by simp

/-- **Any interval.**  If no window holds more than `R` events, an interval of
`k` lengths holds at most `(k + 1) * R` of them. -/
theorem countP_interval_le (hlength : 0 < length) (h : Windowed time start length log) {R : Nat}
    (hcount : ∀ s, log.countP (start · = s) ≤ R) (a : ℤ) (k : Nat) :
    log.countP (fun e => a ≤ time e ∧ time e < a + k * length) ≤ (k + 1) * R := by
  let inside := log.filter fun e => a ≤ time e ∧ time e < a + k * length
  have hinside : ∀ e ∈ inside, e ∈ log ∧ a ≤ time e ∧ time e < a + k * length := by
    intro e he
    obtain ⟨hlog, hkept⟩ := List.mem_filter.mp he
    exact ⟨hlog, of_decide_eq_true hkept⟩
  have hfew : ∀ s, inside.countP (start · = s) ≤ R :=
    fun s => (List.Sublist.countP_le List.filter_sublist).trans (hcount s)
  have hstarts : (inside.map start).toFinset.card ≤ k + 1 := by
    refine card_starts_le (a := a - length) hlength ?_ ?_
    · intro s hs s' hs' hlt
      obtain ⟨e, he, rfl⟩ := List.mem_map.mp (List.mem_toFinset.mp hs)
      obtain ⟨e', he', rfl⟩ := List.mem_map.mp (List.mem_toFinset.mp hs')
      exact h.apart e (hinside e he).1 e' (hinside e' he').1 hlt
    · intro s hs
      obtain ⟨e, he, rfl⟩ := List.mem_map.mp (List.mem_toFinset.mp hs)
      obtain ⟨hlog, hlow, hhigh⟩ := hinside e he
      obtain ⟨hfirst, hlast⟩ := h.inside e hlog
      constructor
      · omega
      · linarith
  rw [List.countP_eq_length_filter]
  exact (length_le_of_starts hfew).trans (Nat.mul_le_mul_right R hstarts)

/-! ### The counter -/

/-- A window of the counter: its start and the events counted in it. -/
structure Window where
  start : ℤ
  count : ℤ
  deriving DecidableEq, Repr

/-- An event that was let in, with the start of its window. -/
structure Event where
  time : ℤ
  start : ℤ
  deriving DecidableEq, Repr

/-- The window in progress. -/
def current (length now : ℤ) : Option Window → Window
  | none => ⟨now, 0⟩
  | some w => if w.start + length ≤ now then ⟨now, 0⟩ else w

/-- The events up to `now` lie in windows, of which the latest is the one with
this start. -/
structure Placed (length : ℤ) (log : List Event) (now latest : ℤ) : Prop where
  begun : latest ≤ now
  windowed : Windowed Event.time Event.start length log
  last : ∀ e ∈ log, e.start = latest ∨ e.start + length ≤ latest

/-- Besides, the latest window counts its events, and none has more than the
limit. -/
structure Tallied (length limit : ℤ) (log : List Event) (now : ℤ) (w : Window) : Prop extends
    Placed length log now w.start where
  counted : (log.countP (Event.start · = w.start) : ℤ) ≤ w.count
  bounded : ∀ s, (log.countP (Event.start · = s) : ℤ) ≤ limit

variable {limit now : ℤ} {events : List Event} {w : Window}

namespace Placed

theorem fresh (length now : ℤ) : Placed length [] now now where
  begun := le_rfl
  windowed := ⟨by simp, by simp⟩
  last := by simp

theorem later {latest : ℤ} (h : Placed length events now latest) {now' : ℤ} (hle : now ≤ now') :
    Placed length events now' latest :=
  { h with begun := h.begun.trans hle }

/-- The window in progress is the latest one. -/
theorem current (hlength : 0 < length) (h : Placed length events now w.start) :
    Placed length events now (WindowCount.current length now (some w)).start := by
  by_cases hover : w.start + length ≤ now
  · rw [WindowCount.current, if_pos hover]
    refine ⟨le_rfl, h.windowed, fun e he => ?_⟩
    rcases h.last e he with hsame | hold
    · exact .inr (by rw [hsame]; exact hover)
    · exact .inr (by dsimp only; omega)
  · rw [WindowCount.current, if_neg hover]
    exact h

/-- One more event in an open window. -/
theorem enter {latest : ℤ} (h : Placed length events now latest) (hopen : now < latest + length) :
    Placed length (⟨now, latest⟩ :: events) now latest := by
  refine ⟨h.begun, ⟨?_, ?_⟩, ?_⟩
  · intro e he
    rcases List.mem_cons.mp he with rfl | he
    · exact ⟨h.begun, hopen⟩
    · exact h.windowed.inside e he
  · intro e he e' he' hlt
    rcases List.mem_cons.mp he with rfl | hold
    · rcases List.mem_cons.mp he' with rfl | hold'
      · exact absurd hlt (lt_irrefl _)
      · have hlast := h.last e' hold'
        have hin := h.windowed.inside e' hold'
        dsimp only at hlt ⊢
        omega
    · rcases List.mem_cons.mp he' with rfl | hold'
      · have hlast := h.last e hold
        dsimp only at hlt ⊢
        omega
      · exact h.windowed.apart e hold e' hold' hlt
  · intro e he
    rcases List.mem_cons.mp he with rfl | he
    · exact .inl rfl
    · exact h.last e he

end Placed

/-- A window is open right after it was looked up. -/
theorem current_open (hlength : 0 < length) (now : ℤ) (latest : Option Window) :
    now < (current length now latest).start + length := by
  cases latest with
  | none =>
      change now < now + length
      omega
  | some w =>
      by_cases hover : w.start + length ≤ now
      · rw [current, if_pos hover]
        dsimp only
        omega
      · rw [current, if_neg hover]
        omega

namespace Tallied

theorem fresh (hlimit : 0 ≤ limit) (now : ℤ) : Tallied length limit [] now ⟨now, 0⟩ where
  toPlaced := .fresh length now
  counted := by simp
  bounded := by simpa using hlimit

theorem later (h : Tallied length limit events now w) {now' : ℤ} (hle : now ≤ now') :
    Tallied length limit events now' w :=
  { h with toPlaced := h.toPlaced.later hle }

/-- A new window starts without events. -/
theorem current (hlength : 0 < length) (h : Tallied length limit events now w) :
    Tallied length limit events now (WindowCount.current length now (some w)) := by
  refine ⟨h.toPlaced.current hlength, ?_, h.bounded⟩
  by_cases hover : w.start + length ≤ now
  · rw [WindowCount.current, if_pos hover]
    have hnone : events.countP (Event.start · = now) = 0 := by
      rw [List.countP_eq_zero]
      intro e he
      have hlast := h.last e he
      rw [decide_eq_true_eq]
      omega
    simp [hnone]
  · rw [WindowCount.current, if_neg hover]
    exact h.counted

/-- One more event in an open window below the limit. -/
theorem enter (h : Tallied length limit events now w) (hopen : now < w.start + length)
    (hroom : w.count < limit) :
    Tallied length limit (⟨now, w.start⟩ :: events) now ⟨w.start, w.count + 1⟩ := by
  have hcounted := h.counted
  refine ⟨h.toPlaced.enter hopen, ?_, ?_⟩
  · rw [List.countP_cons_of_pos (by simp)]
    push_cast
    omega
  · intro s
    by_cases hs : w.start = s
    · rw [List.countP_cons_of_pos (by simpa using hs), ← hs]
      push_cast
      omega
    · rw [List.countP_cons_of_neg (by simpa using hs)]
      exact h.bounded s

end Tallied

/-- **The counter in any interval.** -/
theorem Tallied.countP_le (hlength : 0 < length) (hlimit : 0 ≤ limit)
    (h : Tallied length limit events now w) (a : ℤ) (k : Nat) :
    (events.countP (fun e => a ≤ e.time ∧ e.time < a + k * length) : ℤ) ≤ (k + 1) * limit := by
  have hcount : ∀ s, events.countP (Event.start · = s) ≤ limit.toNat := by
    intro s
    have := h.bounded s
    omega
  have hle := countP_interval_le hlength h.windowed hcount a k
  calc (events.countP (fun e => a ≤ e.time ∧ e.time < a + k * length) : ℤ)
      ≤ ((k + 1) * limit.toNat : Nat) := by exact_mod_cast hle
    _ = (k + 1) * limit := by
        push_cast
        rw [Int.toNat_of_nonneg hlimit]

end WindowCount
