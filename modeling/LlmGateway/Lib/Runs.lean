import Mathlib.Algebra.Order.Floor.Div
import Mathlib.Algebra.BigOperators.Group.List.Basic
import Mathlib.Tactic

/-!
# Cutting runs into pieces

A list with separators is a row of runs of elements that are none, and a run is
cut into pieces of a fixed size of which the last may be short.  `cost` counts
the pieces from left to right with the length of the open run as its state, as a
scan does it; it is the sum over the maximal runs, and cutting a list in two opens
at most one more piece.
-/

namespace Runs

variable {α : Type*} (sep : α → Bool) {n : ℕ}

/-- The maximal runs of elements that are no separators. -/
def runs (l : List α) : List (List α) := (l.splitOnP sep).filter fun run => !run.isEmpty

/-- The pieces of size `n` of a list, when a run of length `k` is open in front of
it. -/
def cost (n : ℕ) : ℕ → List α → ℕ
  | k, [] => k ⌈/⌉ n
  | k, c :: l => if sep c then k ⌈/⌉ n + cost n 0 l else cost n (k + 1) l

/-! ## Pieces of a length -/

theorem ceilDiv_mono (hn : 0 < n) {a b : ℕ} (h : a ≤ b) : a ⌈/⌉ n ≤ b ⌈/⌉ n :=
  (gc_mul_ceilDiv hn).monotone_l h

theorem ceilDiv_add_le (hn : 0 < n) (a b : ℕ) : (a + b) ⌈/⌉ n ≤ a ⌈/⌉ n + b ⌈/⌉ n := by
  rw [ceilDiv_le_iff_le_mul hn, Nat.mul_add]
  exact Nat.add_le_add ((gc_mul_ceilDiv hn).le_u_l a) ((gc_mul_ceilDiv hn).le_u_l b)

/-- The last piece of a length is not empty. -/
theorem lt_of_ceilDiv_eq_succ (hn : 0 < n) {a c : ℕ} (h : a ⌈/⌉ n = c + 1) : n * c < a := by
  by_contra! hle
  have hshort := (ceilDiv_le_iff_le_mul hn).mpr hle
  omega

/-- Two lengths joined lose a piece at most. -/
theorem le_ceilDiv_add (hn : 0 < n) (a b : ℕ) : a ⌈/⌉ n + b ⌈/⌉ n ≤ (a + b) ⌈/⌉ n + 1 := by
  cases ha : a ⌈/⌉ n with
  | zero =>
      have hmono := ceilDiv_mono hn (Nat.le_add_left b a)
      omega
  | succ p =>
      cases hb : b ⌈/⌉ n with
      | zero =>
          have hmono := ceilDiv_mono hn (Nat.le_add_right a b)
          omega
      | succ q =>
          have hpa := lt_of_ceilDiv_eq_succ hn ha
          have hqb := lt_of_ceilDiv_eq_succ hn hb
          have hcover := (gc_mul_ceilDiv hn).le_u_l (a + b)
          have hlt : n * (p + q) < n * ((a + b) ⌈/⌉ n) := by
            rw [Nat.mul_add]
            omega
          have hpieces := Nat.lt_of_mul_lt_mul_left hlt
          omega

/-! ## The sum over the runs -/

/-- An empty chunk has no pieces. -/
theorem sum_filter_chunks (chunks : List (List α)) :
    ((chunks.filter fun run => !run.isEmpty).map fun run => run.length ⌈/⌉ n).sum =
      (chunks.map fun run => run.length ⌈/⌉ n).sum := by
  induction chunks with
  | nil => rfl
  | cons chunk chunks ih =>
      cases chunk with
      | nil =>
          rw [List.filter_cons_of_neg (by simp), List.map_cons, List.sum_cons, ih,
            List.length_nil, zero_ceilDiv, Nat.zero_add]
      | cons c chunk =>
          rw [List.filter_cons_of_pos (by simp), List.map_cons, List.map_cons, List.sum_cons,
            List.sum_cons, ih]

/-- The open run goes on with the first chunk. -/
theorem cost_eq_chunks (l : List α) :
    ∃ first rest, l.splitOnP sep = first :: rest ∧ ∀ k, cost sep n k l =
      (k + first.length) ⌈/⌉ n + (rest.map fun run => run.length ⌈/⌉ n).sum := by
  induction l with
  | nil => exact ⟨[], [], rfl, fun k => rfl⟩
  | cons c l ih =>
      obtain ⟨first, rest, hsplit, hcost⟩ := ih
      by_cases hsep : sep c = true
      · refine ⟨[], first :: rest, ?_, fun k => ?_⟩
        · rw [List.splitOnP_cons_eq_if_modifyHead, if_pos hsep, hsplit]
        · rw [cost, if_pos hsep, hcost, List.map_cons, List.sum_cons, Nat.zero_add,
            List.length_nil, Nat.add_zero]
      · refine ⟨c :: first, rest, ?_, fun k => ?_⟩
        · rw [List.splitOnP_cons_eq_if_modifyHead, if_neg hsep, hsplit]
          rfl
        · rw [cost, if_neg hsep, hcost, List.length_cons, Nat.add_right_comm, Nat.add_assoc]

/-- The pieces of a list are those of its maximal runs. -/
theorem cost_eq_sum (n : ℕ) (l : List α) :
    cost sep n 0 l = ((runs sep l).map fun run => run.length ⌈/⌉ n).sum := by
  obtain ⟨first, rest, hsplit, hcost⟩ := cost_eq_chunks sep (n := n) l
  rw [hcost, runs, sum_filter_chunks, hsplit, List.map_cons, List.sum_cons, Nat.zero_add]

/-! ## Cutting a list in two -/

variable {sep}

/-- A longer open run costs no more than its additional length does by itself. -/
theorem cost_add_le (hn : 0 < n) (j k : ℕ) (l : List α) :
    cost sep n (j + k) l ≤ j ⌈/⌉ n + cost sep n k l := by
  induction l generalizing k with
  | nil => exact ceilDiv_add_le hn j k
  | cons c l ih =>
      by_cases hsep : sep c = true
      · have hadd := ceilDiv_add_le hn j k
        rw [cost, cost, if_pos hsep, if_pos hsep]
        omega
      · rw [cost, cost, if_neg hsep, if_neg hsep, Nat.add_assoc]
        exact ih (k + 1)

/-- It saves a piece at most. -/
theorem le_cost_add (hn : 0 < n) (j k : ℕ) (l : List α) :
    j ⌈/⌉ n + cost sep n k l ≤ cost sep n (j + k) l + 1 := by
  induction l generalizing k with
  | nil => exact le_ceilDiv_add hn j k
  | cons c l ih =>
      by_cases hsep : sep c = true
      · have hadd := le_ceilDiv_add hn j k
        rw [cost, cost, if_pos hsep, if_pos hsep]
        omega
      · rw [cost, cost, if_neg hsep, if_neg hsep, Nat.add_assoc]
        exact ih (k + 1)

/-- The open run is among what is counted. -/
theorem ceilDiv_le_cost (hn : 0 < n) (k : ℕ) (l : List α) : k ⌈/⌉ n ≤ cost sep n k l := by
  induction l generalizing k with
  | nil => exact le_rfl
  | cons c l ih =>
      by_cases hsep : sep c = true
      · rw [cost, if_pos hsep]
        exact Nat.le_add_right _ _
      · rw [cost, if_neg hsep]
        exact (ceilDiv_mono hn (Nat.le_succ k)).trans (ih (k + 1))

/-- A scan of the first part leaves a number of pieces and an open run. -/
theorem cost_append (sep : α → Bool) (n k : ℕ) (a : List α) :
    ∃ closed pending, ∀ b, cost sep n k (a ++ b) = closed + cost sep n pending b := by
  induction a generalizing k with
  | nil => exact ⟨0, k, fun b => (Nat.zero_add _).symm⟩
  | cons c a ih =>
      by_cases hsep : sep c = true
      · obtain ⟨closed, pending, hrest⟩ := ih 0
        refine ⟨k ⌈/⌉ n + closed, pending, fun b => ?_⟩
        rw [List.cons_append, cost, if_pos hsep, hrest, Nat.add_assoc]
      · obtain ⟨closed, pending, hrest⟩ := ih (k + 1)
        refine ⟨closed, pending, fun b => ?_⟩
        rw [List.cons_append, cost, if_neg hsep, hrest]

/-- **Cutting a list.**  The pieces of a list are at most those of its two parts
and at least one fewer, and at least those of the first part. -/
theorem cost_append_bounds (sep : α → Bool) (hn : 0 < n) (a b : List α) :
    cost sep n 0 (a ++ b) ≤ cost sep n 0 a + cost sep n 0 b ∧
      cost sep n 0 a + cost sep n 0 b ≤ cost sep n 0 (a ++ b) + 1 ∧
      cost sep n 0 a ≤ cost sep n 0 (a ++ b) := by
  obtain ⟨closed, pending, hcost⟩ := cost_append sep n 0 a
  have hfirst : cost sep n 0 a = closed + pending ⌈/⌉ n := by
    have hnil := hcost []
    rwa [List.append_nil] at hnil
  have hle : cost sep n pending b ≤ pending ⌈/⌉ n + cost sep n 0 b :=
    cost_add_le hn pending 0 b
  have hge : pending ⌈/⌉ n + cost sep n 0 b ≤ cost sep n pending b + 1 :=
    le_cost_add hn pending 0 b
  have hopen : pending ⌈/⌉ n ≤ cost sep n pending b := ceilDiv_le_cost hn pending b
  rw [hcost b, hfirst]
  refine ⟨?_, ?_, ?_⟩
  · omega
  · omega
  · omega

end Runs
