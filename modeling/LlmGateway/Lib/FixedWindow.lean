import Mathlib.Data.Int.Notation
import Mathlib.Order.Defs.LinearOrder
import Mathlib.Tactic.ByContra

/-!
# Fixed windows

Events that are counted in windows: a window starts with an event, and the next
one starts with the first event that finds the current window expired.  The rank
of an event is the number of events before it in its window.
-/

namespace FixedWindow

/-- The latest event: the start of its window and its rank there. -/
structure Latest (τ : Type) where
  start : τ
  rank : Nat
  deriving DecidableEq, Repr

variable {τ : Type} (expired : τ → τ → Prop) [DecidableRel expired]

/-- The next event, after the latest one if there is one. -/
def enter (now : τ) : Option (Latest τ) → Latest τ
  | none => ⟨now, 0⟩
  | some l => if expired l.start now then ⟨now, 0⟩ else ⟨l.start, l.rank + 1⟩

/-- The ranks of the events at these times. -/
def ranks : Option (Latest τ) → List τ → List Nat
  | _, [] => []
  | latest, now :: times =>
      (enter expired now latest).rank :: ranks (some (enter expired now latest)) times

/-- The rank that the next event has if the window has not expired by then. -/
def nextRank : Option (Latest τ) → Nat
  | none => 0
  | some l => l.rank + 1

theorem enter_rank (now : τ) (latest : Option (Latest τ)) :
    (enter expired now latest).rank = nextRank latest ∨ (enter expired now latest).rank = 0 := by
  cases latest with
  | none => exact .inl rfl
  | some l =>
      by_cases h : expired l.start now
      · exact .inr (by rw [enter, if_pos h])
      · exact .inl (by rw [enter, if_neg h, nextRank])

/-- Ranks are given out one after another: below a rank, every rank from the
next one on occurs. -/
theorem mem_ranks_of_le {latest : Option (Latest τ)} {times : List τ} {r r' : Nat}
    (hr : r ∈ ranks expired latest times) (hle : r' ≤ r) (hnext : nextRank latest ≤ r') :
    r' ∈ ranks expired latest times := by
  induction times generalizing latest with
  | nil => cases hr
  | cons now times ih =>
      have hhead := enter_rank expired now latest
      rw [ranks, List.mem_cons] at hr ⊢
      by_cases heq : r' = (enter expired now latest).rank
      · exact .inl heq
      · rcases hr with hr | hr
        · exact absurd hr (by omega)
        · by_cases hlater : (enter expired now latest).rank + 1 ≤ r'
          · exact .inr (ih hr hlater)
          · exact absurd hlater (by omega)

/-- Two limits give every event the same verdict exactly when they are the same
or every rank is below both. -/
theorem verdicts_agree_iff {times : List τ} {m n : ℤ} (hpos : 0 < n) :
    (∀ r ∈ ranks expired none times, ((r : ℤ) < m ↔ (r : ℤ) < n)) ↔
      m = n ∨ ∀ r ∈ ranks expired none times, (r : ℤ) < m ∧ (r : ℤ) < n := by
  constructor
  · intro h
    by_cases heq : m = n
    · exact .inl heq
    · refine .inr fun r hr => ?_
      by_contra hhigh
      -- the first rank that the lower limit turns away
      have hfirst : (max (min m n) 0).toNat ∈ ranks expired none times :=
        mem_ranks_of_le expired hr (by omega) (Nat.zero_le _)
      have := h _ hfirst
      omega
  · intro h r hr
    rcases h with rfl | hlow
    · exact Iff.rfl
    · have := hlow r hr
      omega

end FixedWindow
