import Mathlib.Data.List.Basic

/-!
# Unwinding

A machine that serves several domains: every input belongs to one of them, and
is answered.  If an answer and what becomes of a domain depend on the view of
that domain alone, and inputs of other domains leave the view alone, then what
a domain sees of a run is what it sees of its own inputs run by themselves.

Runs are lists of inputs, the newest first.
-/

/-- A machine whose inputs belong to domains. -/
structure Machine (σ ι ο δ : Type) where
  init : σ
  step : ι → σ → ο × σ
  domain : ι → δ

namespace Machine

variable {σ ι ο δ β : Type}

/-- The state after a run. -/
def after (m : Machine σ ι ο δ) : List ι → σ
  | [] => m.init
  | i :: older => (m.step i (m.after older)).2

variable [DecidableEq δ]

/-- The answers to the inputs of a domain. -/
def answers (m : Machine σ ι ο δ) (d : δ) : List ι → List ο
  | [] => []
  | i :: older =>
      if m.domain i = d then (m.step i (m.after older)).1 :: m.answers d older
      else m.answers d older

/-- The inputs of a domain. -/
def own (m : Machine σ ι ο δ) (d : δ) (run : List ι) : List ι :=
  run.filter fun i => m.domain i = d

omit [DecidableEq δ] in
/-- The unwinding conditions for a view of the state from every domain. -/
structure Unwinds (m : Machine σ ι ο δ) (view : δ → σ → β) : Prop where
  answer : ∀ i s s', view (m.domain i) s = view (m.domain i) s' → (m.step i s).1 = (m.step i s').1
  consistent : ∀ i s s', view (m.domain i) s = view (m.domain i) s' →
    view (m.domain i) (m.step i s).2 = view (m.domain i) (m.step i s').2
  respects : ∀ i s d, m.domain i ≠ d → view d (m.step i s).2 = view d s

variable {m : Machine σ ι ο δ} {view : δ → σ → β}

/-- A domain sees the state that its own inputs lead to. -/
theorem Unwinds.view_own (h : m.Unwinds view) (d : δ) (run : List ι) :
    view d (m.after run) = view d (m.after (m.own d run)) := by
  induction run with
  | nil => rfl
  | cons i older ih =>
      by_cases hown : m.domain i = d
      · subst hown
        rw [own, List.filter_cons_of_pos (by simp)]
        exact h.consistent i _ _ ih
      · rw [own, List.filter_cons_of_neg (by simpa using hown)]
        exact (h.respects i _ d hown).trans ih

/-- **Noninterference.**  A domain gets the answers that it gets by itself. -/
theorem Unwinds.answers_own (h : m.Unwinds view) (d : δ) (run : List ι) :
    m.answers d run = m.answers d (m.own d run) := by
  induction run with
  | nil => rfl
  | cons i older ih =>
      by_cases hown : m.domain i = d
      · have hanswer := h.answer i (m.after older) (m.after (m.own d older))
          (by rw [hown]; exact h.view_own d older)
        rw [own, List.filter_cons_of_pos (by simpa using hown), answers, answers, if_pos hown,
          if_pos hown, hanswer, ih]
        rfl
      · rw [own, List.filter_cons_of_neg (by simpa using hown), answers, if_neg hown]
        exact ih

end Machine
