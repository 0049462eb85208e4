import Mathlib.Data.List.Sort
import Mathlib.Tactic

/-!
# Samples

A window on a stream of samples that loses its oldest ones a batch at a time, and
the rank of an element in a sorted list.  The length of the window is not a
function of its capacity, but it stays within a batch of it; `Retains` is the
invariant of one push, and `fill_retains` the result for a whole stream.
-/

namespace Samples

variable {α : Type*} {capacity batch : ℕ} {samples window : List α}

/-- Append a sample; a window that outgrows its capacity loses a batch. -/
def push (capacity batch : ℕ) (window : List α) (a : α) : List α :=
  if (window ++ [a]).length > capacity then (window ++ [a]).drop batch else window ++ [a]

/-- The window after a stream. -/
def fill (capacity batch : ℕ) (samples : List α) : List α :=
  samples.foldl (push capacity batch) []

/-- What a window holds of the samples it was filled with: all of them up to its
capacity, and then the latest ones. -/
structure Retains (capacity batch : ℕ) (samples window : List α) : Prop where
  suffix : window <:+ samples
  whole : samples.length ≤ capacity → window = samples
  trimmed : capacity < samples.length →
    capacity + 1 - batch ≤ window.length ∧ window.length ≤ capacity

theorem Retains.length_le (h : Retains capacity batch samples window) :
    window.length ≤ capacity := by
  rcases le_or_gt samples.length capacity with hle | hlt
  · rw [h.whole hle]
    exact hle
  · exact (h.trimmed hlt).2

theorem Retains.push (hbatch : 0 < batch) (h : Retains capacity batch samples window) (a : α) :
    Retains capacity batch (samples ++ [a]) (push capacity batch window a) := by
  have hsuffix : window ++ [a] <:+ samples ++ [a] := by
    obtain ⟨older, rfl⟩ := h.suffix
    exact ⟨older, (List.append_assoc older window [a]).symm⟩
  have hlength := h.length_le
  unfold Samples.push
  by_cases hover : (window ++ [a]).length > capacity
  · -- the window was full, so there were as many samples as it holds or more
    rw [if_pos hover]
    rw [List.length_append, List.length_singleton] at hover
    refine ⟨(List.drop_suffix batch _).trans hsuffix, fun hle => ?_, fun _ => ?_⟩
    · rw [List.length_append, List.length_singleton] at hle
      rw [h.whole (by omega)] at hover
      omega
    · rw [List.length_drop, List.length_append, List.length_singleton]
      omega
  · rw [if_neg hover]
    rw [List.length_append, List.length_singleton] at hover
    refine ⟨hsuffix, fun hle => ?_, fun hgt => ?_⟩
    · rw [List.length_append, List.length_singleton] at hle
      rw [h.whole (by omega)]
    · rw [List.length_append, List.length_singleton] at hgt ⊢
      rcases lt_or_ge capacity samples.length with hlt | hge
      · have htrimmed := h.trimmed hlt
        omega
      · rw [h.whole hge] at hover
        omega

/-- After every stream. -/
theorem fill_retains (hbatch : 0 < batch) (samples : List α) :
    Retains capacity batch samples (fill capacity batch samples) := by
  induction samples using List.reverseRecOn with
  | nil => exact ⟨List.suffix_refl [], fun _ => rfl, fun hlt => absurd hlt (Nat.not_lt_zero _)⟩
  | append_singleton samples a ih =>
      unfold fill at ih ⊢
      rw [List.foldl_append]
      exact ih.push hbatch a

/-! ## Ranks -/

variable [LinearOrder α] {sorted l : List α} {i : ℕ}

/-- What stands in front of a rank is no larger. -/
theorem succ_le_countP_le (hsorted : sorted.Pairwise (· ≤ ·)) (hi : i < sorted.length) :
    i + 1 ≤ sorted.countP fun a => a ≤ sorted[i] := by
  have hfront : ∀ a ∈ sorted.take (i + 1), decide (a ≤ sorted[i]) = true := by
    intro a ha
    obtain ⟨j, hj, rfl⟩ := List.mem_take_iff_getElem.mp ha
    have hji : j ≤ i := by omega
    rcases hji.lt_or_eq with hlt | rfl
    · exact decide_eq_true (List.pairwise_iff_getElem.mp hsorted j i (by omega) hi hlt)
    · exact decide_eq_true le_rfl
  have hcount := List.countP_eq_length.mpr hfront
  have hsub := (List.take_sublist (i + 1) sorted).countP_le (p := fun a => decide (a ≤ sorted[i]))
  rw [hcount, List.length_take] at hsub
  omega

/-- What stands behind a rank is no smaller. -/
theorem sub_le_countP_ge (hsorted : sorted.Pairwise (· ≤ ·)) (hi : i < sorted.length) :
    sorted.length - i ≤ sorted.countP fun a => sorted[i] ≤ a := by
  have hback : ∀ a ∈ sorted.drop i, decide (sorted[i] ≤ a) = true := by
    intro a ha
    obtain ⟨j, hj, rfl⟩ := List.mem_drop_iff_getElem.mp ha
    rcases Nat.eq_zero_or_pos j with rfl | hpos
    · exact decide_eq_true le_rfl
    · exact decide_eq_true
        (List.pairwise_iff_getElem.mp hsorted i (i + j) hi (by omega) (by omega))
  have hcount := List.countP_eq_length.mpr hback
  have hsub := (List.drop_sublist i sorted).countP_le (p := fun a => decide (sorted[i] ≤ a))
  rwa [hcount, List.length_drop] at hsub

/-- The element of a rank in the sorted list, among the unsorted ones. -/
theorem rank_of_sorted (hperm : sorted.Perm l) (hsorted : sorted.Pairwise (· ≤ ·))
    (hi : i < sorted.length) :
    sorted[i] ∈ l ∧ i + 1 ≤ l.countP (fun a => a ≤ sorted[i]) ∧
      l.length - i ≤ l.countP fun a => sorted[i] ≤ a := by
  rw [← hperm.countP_eq, ← hperm.countP_eq, ← hperm.length_eq]
  exact ⟨hperm.mem_iff.mp (List.getElem_mem hi), succ_le_countP_le hsorted hi,
    sub_le_countP_ge hsorted hi⟩

end Samples
