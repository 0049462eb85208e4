import Mathlib.Data.Nat.ModEq

/-!
# Taking turns

A counter that goes up by one serves the position of its value modulo `n`.  Over
`n` values in a row every position has its turn exactly once
(`covers_consecutive`).  A counter that jumps in between, from the value after
the last of one block to the first of another, keeps this exactly when the jump
is a multiple of `n` (`covers_jumping_iff`).
-/

namespace Rotation

/-- The first `n` turns serve every position below `n` once. -/
def Covers (n : ℕ) (turn : ℕ → ℕ) : Prop := ∀ p < n, ∃! k, k < n ∧ turn k = p

/-- A counter that starts at `x` and stands at `y` after `a` steps. -/
def jumping (x y a k : ℕ) : ℕ := if k < a then x + k else y + (k - a)

variable {n x y a : ℕ}

theorem Covers.congr {turn turn' : ℕ → ℕ} (h : ∀ k < n, turn k = turn' k) :
    Covers n turn ↔ Covers n turn' := by
  have hiff : ∀ p k, (k < n ∧ turn k = p) ↔ (k < n ∧ turn' k = p) := by
    intro p k
    constructor
    · intro hk
      exact ⟨hk.1, (h k hk.1).symm.trans hk.2⟩
    · intro hk
      exact ⟨hk.1, (h k hk.1).trans hk.2⟩
  unfold Covers
  simp only [hiff]

/-- No position has two turns. -/
theorem Covers.injective {turn : ℕ → ℕ} (h : Covers n turn) {j k : ℕ} (hj : j < n) (hk : k < n)
    (hlt : turn j < n) (heq : turn j = turn k) : j = k :=
  (h (turn j) hlt).unique ⟨hj, rfl⟩ ⟨hk, heq.symm⟩

/-- Two values less than `n` apart serve different positions. -/
theorem eq_of_modEq_add {j k : ℕ} (hj : j < n) (hk : k < n) (h : x + j ≡ x + k [MOD n]) : j = k :=
  (Nat.ModEq.add_left_cancel' x h).eq_of_lt_of_lt hj hk

/-- In a row, every position has one turn. -/
theorem covers_consecutive (n x : ℕ) : Covers n fun k => (x + k) % n := by
  intro p hp
  have hn : 0 < n := (Nat.zero_le p).trans_lt hp
  have hturn : x + (p + (n - x % n)) % n ≡ p [MOD n] := by
    have hx : x % n < n := Nat.mod_lt x hn
    calc x + (p + (n - x % n)) % n ≡ x + (p + (n - x % n)) [MOD n] :=
          (Nat.mod_modEq _ n).add_left x
      _ ≡ x % n + (p + (n - x % n)) [MOD n] := (Nat.mod_modEq x n).symm.add_right _
      _ = p + n := by omega
      _ ≡ p [MOD n] := Nat.add_mod_right p n
  refine ⟨(p + (n - x % n)) % n, ⟨Nat.mod_lt _ hn, ?_⟩, ?_⟩
  · calc (x + (p + (n - x % n)) % n) % n = p % n := hturn
      _ = p := Nat.mod_eq_of_lt hp
  · intro k hk
    obtain ⟨hlt, hserved⟩ := hk
    have hserved : x + k ≡ p [MOD n] := hserved.trans (Nat.mod_eq_of_lt hp).symm
    exact eq_of_modEq_add hlt (Nat.mod_lt _ hn) (hserved.trans hturn.symm)

theorem jumping_of_lt {k : ℕ} (h : k < a) : jumping x y a k = x + k := if_pos h

theorem jumping_of_le {k : ℕ} (h : a ≤ k) : jumping x y a k = y + (k - a) := if_neg (not_lt.mpr h)

/-- A block that goes up by one has no jump in the first `n` turns. -/
theorem covers_jumping_of_le (h : n ≤ a) : Covers n fun k => jumping x y a k % n := by
  refine (Covers.congr fun k hk => ?_).mpr (covers_consecutive n x)
  show jumping x y a k % n = (x + k) % n
  rw [jumping_of_lt (hk.trans_le h)]

/-- When the position that the counter would have reached has its turn later than
the jump, one in front of it has two. -/
theorem exists_repeat {k : ℕ} (ha : 0 < a) (hlater : a < k) (hk : k < n)
    (hserved : y + (k - a) ≡ x + a [MOD n]) :
    ∃ i j, i < j ∧ j < n ∧ jumping x y a i ≡ jumping x y a j [MOD n] := by
  by_cases hshort : k - a ≤ a
  · refine ⟨a - (k - a), a, by omega, by omega, ?_⟩
    rw [jumping_of_lt (by omega), jumping_of_le le_rfl, Nat.sub_self, Nat.add_zero]
    refine Nat.ModEq.add_right_cancel' (k - a) ?_
    rw [Nat.add_assoc, Nat.sub_add_cancel hshort]
    exact hserved.symm
  · refine ⟨0, k - a, by omega, by omega, ?_⟩
    rw [jumping_of_lt ha, jumping_of_le (by omega), Nat.add_zero]
    refine Nat.ModEq.add_right_cancel' a ?_
    rw [Nat.add_assoc, Nat.sub_add_cancel (by omega)]
    exact hserved.symm

/-- Across a jump, every position has one turn exactly when the counter goes on
at the position it would have reached. -/
theorem covers_jumping_iff (ha : 0 < a) (han : a < n) :
    Covers n (fun k => jumping x y a k % n) ↔ x + a ≡ y [MOD n] := by
  have hn : 0 < n := ha.trans han
  constructor
  · intro h
    -- the turn of the position that the counter would have reached
    obtain ⟨k, ⟨hk, hturn⟩, -⟩ := h ((x + a) % n) (Nat.mod_lt _ hn)
    have hserved : jumping x y a k ≡ x + a [MOD n] := hturn
    by_cases hbefore : k < a
    · rw [jumping_of_lt hbefore] at hserved
      exact absurd (eq_of_modEq_add hk han hserved) hbefore.ne
    · have hle : a ≤ k := not_lt.mp hbefore
      rw [jumping_of_le hle] at hserved
      rcases hle.eq_or_lt with rfl | hlater
      · rw [Nat.sub_self, Nat.add_zero] at hserved
        exact hserved.symm
      · obtain ⟨i, j, hij, hj, hrepeat⟩ := exists_repeat ha hlater hk hserved
        exact absurd (h.injective (hij.trans hj) hj (Nat.mod_lt _ hn) hrepeat) hij.ne
  · intro h
    refine (Covers.congr fun k _ => ?_).mpr (covers_consecutive n x)
    show jumping x y a k % n = (x + k) % n
    by_cases hbefore : k < a
    · rw [jumping_of_lt hbefore]
    · have hle : a ≤ k := not_lt.mp hbefore
      rw [jumping_of_le hle]
      have hshift : y + (k - a) ≡ x + a + (k - a) [MOD n] := h.symm.add_right _
      rw [Nat.add_assoc, Nat.add_sub_cancel' hle] at hshift
      exact hshift

/-- Where the first block is long enough there is no jump to ask about. -/
theorem covers_jumping_iff_of_pos (ha : 0 < a) :
    Covers n (fun k => jumping x y a k % n) ↔ (a < n → x + a ≡ y [MOD n]) := by
  by_cases han : a < n
  · rw [covers_jumping_iff ha han]
    exact ⟨fun h _ => h, fun h => h han⟩
  · exact iff_of_true (covers_jumping_of_le (not_lt.mp han)) fun h => absurd h han

end Rotation
