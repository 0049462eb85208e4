import Mathlib.Data.List.Infix

/-!
# Trying one after another

The attempts of a loop that stops at its first success, as a prefix of the
attempts it would make if none succeeded.
-/

namespace Attempts

variable {α : Type*} (p : α → Prop) [DecidablePred p]

/-- A list up to its first element with the property, which is kept. -/
def upToFirst : List α → List α
  | [] => []
  | a :: l => if p a then [a] else a :: upToFirst l

variable {p} {a : α} {l : List α}

theorem upToFirst_of_pos (h : p a) : upToFirst p (a :: l) = [a] := if_pos h

theorem upToFirst_of_neg (h : ¬ p a) : upToFirst p (a :: l) = a :: upToFirst p l := if_neg h

/-- The attempts that are made are the first of those that would be. -/
theorem upToFirst_initial (l : List α) : upToFirst p l <+: l := by
  induction l with
  | nil => exact List.prefix_refl []
  | cons a l ih =>
      by_cases h : p a
      · rw [upToFirst_of_pos h]
        exact ⟨l, rfl⟩
      · rw [upToFirst_of_neg h]
        exact (List.prefix_cons_inj a).mpr ih

/-- Stopping early misses no success. -/
theorem exists_mem_upToFirst : (∃ a ∈ upToFirst p l, p a) ↔ ∃ a ∈ l, p a := by
  constructor
  · intro h
    obtain ⟨a, ha, hp⟩ := h
    exact ⟨a, (upToFirst_initial l).subset ha, hp⟩
  · intro h
    induction l with
    | nil =>
        obtain ⟨a, ha, -⟩ := h
        cases ha
    | cons b l ih =>
        by_cases hb : p b
        · exact ⟨b, by rw [upToFirst_of_pos hb]; exact List.mem_cons_self, hb⟩
        · obtain ⟨a, ha, hp⟩ := h
          have hrest : a ∈ l := (List.mem_cons.mp ha).resolve_left fun heq => hb (heq ▸ hp)
          obtain ⟨c, hc, hpc⟩ := ih ⟨a, hrest, hp⟩
          exact ⟨c, by rw [upToFirst_of_neg hb]; exact List.mem_cons_of_mem b hc, hpc⟩

end Attempts
