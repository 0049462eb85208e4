import Mathlib.Data.List.Pairwise
import Mathlib.Data.Setoid.Basic

/-!
# Writes that may fail

A statement reads a part of a state, may write that part, and may throw.  A
block of statements stops at the first that throws and leaves behind what was
written until then.

If the statements work on parts that are apart from each other, then such a
block leaves the state as it was, up to a given equivalence, exactly when every
value it wrote was there before (`runAll_equiv_iff`).
-/

/-- A statement that works on a part of the state `σ`.  Its effect, from the part
as it is, is the value it writes, if it writes, and the exception it throws, if
it throws. -/
structure Write (σ ε : Type) where
  Part : Type
  get : σ → Part
  set : Part → σ → σ
  effect : Part → Option Part × Option ε

namespace Write

variable {σ ε : Type}

/-- The state after a statement, and what it throws. -/
def run (w : Write σ ε) (s : σ) : σ × Option ε :=
  ((w.effect (w.get s)).1.elim s fun v => w.set v s, (w.effect (w.get s)).2)

/-- A block of statements stops at the first that throws. -/
def runAll : List (Write σ ε) → σ → σ × Option ε
  | [], s => (s, none)
  | w :: rest, s =>
      match (w.run s).2 with
      | some e => ((w.run s).1, some e)
      | none => runAll rest (w.run s).1

/-- The second statement leaves the part of the first alone. -/
def Apart (w w' : Write σ ε) : Prop := ∀ v s, w.get (w'.set v s) = w.get s

/-- The statement writes what is there. -/
def Agrees (w : Write σ ε) (s : σ) : Prop := ∀ v ∈ (w.effect (w.get s)).1, v = w.get s

/-- Every statement of a block up to the first that throws writes what is there. -/
def Undisturbed : List (Write σ ε) → σ → Prop
  | [], _ => True
  | w :: rest, s => w.Agrees s ∧ ((w.effect (w.get s)).2 = none → Undisturbed rest s)

/-- The statement works on a part: what is written is read back, and writing
back what was read changes nothing. -/
structure Lawful [Setoid σ] (w : Write σ ε) : Prop where
  get_congr : ∀ s s' : σ, s ≈ s' → w.get s = w.get s'
  set_congr : ∀ v (s s' : σ), s ≈ s' → w.set v s ≈ w.set v s'
  get_set : ∀ v s, w.get (w.set v s) = v
  set_get : ∀ s, w.set (w.get s) s ≈ s

theorem agrees_of_none {w : Write σ ε} {s : σ} (h : (w.effect (w.get s)).1 = none) :
    w.Agrees s := fun v hv => by
  rw [h] at hv
  cases hv

theorem agrees_iff_of_some {w : Write σ ε} {s : σ} {v : w.Part}
    (h : (w.effect (w.get s)).1 = some v) : w.Agrees s ↔ v = w.get s := by
  constructor
  · exact fun hagrees => hagrees v h
  · intro hsame v' hv'
    rw [h] at hv'
    cases hv'
    exact hsame

theorem run_of_none {w : Write σ ε} {s : σ} (h : (w.effect (w.get s)).1 = none) :
    (w.run s).1 = s := by
  unfold run
  rw [h]
  rfl

theorem run_of_some {w : Write σ ε} {s : σ} {v : w.Part} (h : (w.effect (w.get s)).1 = some v) :
    (w.run s).1 = w.set v s := by
  unfold run
  rw [h]
  rfl

theorem runAll_of_thrown {w : Write σ ε} {s : σ} {e : ε} (h : (w.effect (w.get s)).2 = some e)
    (rest : List (Write σ ε)) : runAll (w :: rest) s = ((w.run s).1, some e) := by
  have hrun : (w.run s).2 = some e := h
  rw [runAll, hrun]

theorem runAll_of_passed {w : Write σ ε} {s : σ} (h : (w.effect (w.get s)).2 = none)
    (rest : List (Write σ ε)) : runAll (w :: rest) s = runAll rest (w.run s).1 := by
  have hrun : (w.run s).2 = none := h
  rw [runAll, hrun]

/-- A block in two halves: the second runs if the first does not throw. -/
theorem runAll_append (first second : List (Write σ ε)) (s : σ) :
    runAll (first ++ second) s =
      if (runAll first s).2 = none then runAll second (runAll first s).1 else runAll first s := by
  induction first generalizing s with
  | nil => simp [runAll]
  | cons w rest ih =>
      rw [List.cons_append]
      cases hthrown : (w.effect (w.get s)).2 with
      | none => rw [runAll_of_passed hthrown, runAll_of_passed hthrown, ih]
      | some e => simp [runAll_of_thrown hthrown]

/-- A part stays as it is while statements apart from it run. -/
theorem get_run {part w : Write σ ε} (h : part.Apart w) (s : σ) :
    part.get (w.run s).1 = part.get s := by
  cases hwritten : (w.effect (w.get s)).1 with
  | none => rw [run_of_none hwritten]
  | some v => rw [run_of_some hwritten, h]

theorem get_runAll {part : Write σ ε} {ws : List (Write σ ε)} (h : ∀ w ∈ ws, part.Apart w)
    (s : σ) : part.get (runAll ws s).1 = part.get s := by
  induction ws generalizing s with
  | nil => rfl
  | cons w rest ih =>
      have hw := get_run (h w List.mem_cons_self) s
      cases hthrown : (w.effect (w.get s)).2 with
      | none =>
          rw [runAll_of_passed hthrown, ih fun w' hw' => h w' (List.mem_cons_of_mem w hw'), hw]
      | some e => rw [runAll_of_thrown hthrown, hw]

/-- The statement throws unless `p`, whatever the state. -/
def Requires (w : Write σ ε) (p : Prop) : Prop := ∀ v, (w.effect v).2 = none ↔ p

/-- A block passes when everything it requires holds. -/
theorem runAll_passes_iff {ws : List (Write σ ε)} {ps : List Prop}
    (h : List.Forall₂ Requires ws ps) (s : σ) : (runAll ws s).2 = none ↔ ∀ p ∈ ps, p := by
  induction h generalizing s with
  | nil => simp [runAll]
  | @cons w p ws ps hw _ ih =>
      rw [List.forall_mem_cons]
      cases hthrown : (w.effect (w.get s)).2 with
      | none =>
          rw [runAll_of_passed hthrown, ih]
          exact (and_iff_right ((hw _).mp hthrown)).symm
      | some e =>
          rw [runAll_of_thrown hthrown]
          refine iff_of_false (by simp) fun hall => ?_
          rw [(hw _).mpr hall.1] at hthrown
          cases hthrown

/-- Two halves pass one after the other. -/
theorem runAll_append_passes_iff (first second : List (Write σ ε)) (s : σ) :
    (runAll (first ++ second) s).2 = none ↔
      (runAll first s).2 = none ∧ (runAll second (runAll first s).1).2 = none := by
  rw [runAll_append]
  split
  · next hpassed => exact (and_iff_right hpassed).symm
  · next hthrown => simp [hthrown]

/-! ### What the statements read -/

/-- What a statement reads: whether it can be read, and whether it says what is in the
state already. -/
structure Reading where
  fits : Prop
  agrees : Prop

/-- The readings say what is in the state already, up to and with the first that does not
fit, of which a part may be read. -/
def Reading.AllAgree (rs : List Reading) : Prop :=
  ∀ before r after, rs = before ++ r :: after → (∀ r' ∈ before, r'.fits) → r.agrees

theorem Reading.allAgree_nil : AllAgree [] := fun before r after hsplit _ => by
  cases before <;> cases hsplit

theorem Reading.allAgree_cons {r : Reading} {rs : List Reading} :
    AllAgree (r :: rs) ↔ r.agrees ∧ (r.fits → AllAgree rs) := by
  constructor
  · intro h
    refine ⟨h [] r rs rfl (List.forall_mem_nil _), fun hfits before r' after hsplit hbefore => ?_⟩
    exact h (r :: before) r' after (by rw [hsplit, List.cons_append])
      (List.forall_mem_cons.mpr ⟨hfits, hbefore⟩)
  · intro h before r' after hsplit hbefore
    cases before with
    | nil =>
        cases hsplit
        exact h.1
    | cons first before =>
        cases hsplit
        obtain ⟨hfits, hbefore⟩ := List.forall_mem_cons.mp hbefore
        exact h.2 hfits before r' after rfl hbefore

/-- The statement throws unless what it reads fits, and writes what is there when the
reading says so. -/
structure Reads (s : σ) (w : Write σ ε) (r : Reading) : Prop where
  passes : (w.effect (w.get s)).2 = none ↔ r.fits
  agrees : w.Agrees s ↔ r.agrees

/-- A reading may be put in other words. -/
theorem Reads.congr {s : σ} {w : Write σ ε} {r r' : Reading} (h : Reads s w r)
    (hfits : r.fits ↔ r'.fits) (hagrees : r.agrees ↔ r'.agrees) : Reads s w r' :=
  ⟨h.passes.trans hfits, h.agrees.trans hagrees⟩

/-- A block is undisturbed when what it reads, up to the first that does not fit, is in
the state already. -/
theorem undisturbed_iff_allAgree {ws : List (Write σ ε)} {rs : List Reading} {s : σ}
    (h : List.Forall₂ (Reads s) ws rs) : Undisturbed ws s ↔ Reading.AllAgree rs := by
  induction h with
  | nil => exact iff_of_true trivial Reading.allAgree_nil
  | cons hread _ ih => rw [Undisturbed, Reading.allAgree_cons, hread.agrees, hread.passes, ih]

/-! ### Blocks that could have read first -/

/-- From the state that `pre` makes, the block makes the one that `apply` makes of all
that was read, and it throws what reading throws. -/
structure Carries {α : Type} (pre : σ → σ) (ws : List (Write σ ε)) (read : Except ε α)
    (apply : α → σ → σ) : Prop where
  passes : ∀ a s, read = .ok a → runAll ws (pre s) = (apply a s, none)
  throws : ∀ e s, read = .error e → (runAll ws (pre s)).2 = some e

theorem Carries.done {α : Type} {pre : σ → σ} {a : α} {apply : α → σ → σ}
    (h : ∀ s, apply a s = pre s) : Carries pre ([] : List (Write σ ε)) (.ok a) apply where
  passes a' s heq := by
    cases heq
    rw [h, runAll]
  throws e s heq := by cases heq

/-- One statement. -/
theorem Carries.statement {α : Type} {pre : σ → σ} {w : Write σ ε} {read : Except ε α}
    (v : α → σ → w.Part)
    (hpass : ∀ a s, read = .ok a → w.effect (w.get (pre s)) = (some (v a s), none))
    (hthrow : ∀ e s, read = .error e → (w.effect (w.get (pre s))).2 = some e) :
    Carries pre [w] read fun a s => w.set (v a s) (pre s) where
  passes a s heq := by
    have heffect := hpass a s heq
    rw [runAll_of_passed (by rw [heffect]), run_of_some (by rw [heffect]), runAll]
  throws e s heq := by rw [runAll_of_thrown (hthrow e s heq)]

/-- A block in two halves: the second is read when the first has been. -/
theorem Carries.next {α β : Type} {pre : σ → σ} {ws ws' : List (Write σ ε)} {read : Except ε α}
    {rest : α → Except ε β} {mid : α → σ → σ} {apply : β → σ → σ} (h : Carries pre ws read mid)
    (h' : ∀ a, Carries (mid a) ws' (rest a) apply) :
    Carries pre (ws ++ ws') (read >>= rest) apply where
  passes b s heq := by
    cases read with
    | error e => cases heq
    | ok a => rw [runAll_append, h.passes a s rfl, if_pos rfl, (h' a).passes b s heq]
  throws e s heq := by
    cases read with
    | error e' =>
        cases heq
        have hthrown := h.throws e s rfl
        rw [runAll_append, if_neg (by rw [hthrown]; simp), hthrown]
    | ok a => rw [runAll_append, h.passes a s rfl, if_pos rfl, (h' a).throws e s heq]

/-- The same block from another state. -/
theorem Carries.from {α : Type} {ws : List (Write σ ε)} {read : Except ε α} {apply : α → σ → σ}
    (h : Carries id ws read apply) (pre : σ → σ) :
    Carries pre ws read fun a s => apply a (pre s) :=
  ⟨fun a s => h.passes a (pre s), fun e s => h.throws e (pre s)⟩

variable [Setoid σ] {w : Write σ ε} {ws : List (Write σ ε)} {s s' : σ}

theorem Lawful.agrees_congr (h : w.Lawful) (hsame : s ≈ s') : w.Agrees s ↔ w.Agrees s' := by
  unfold Agrees
  rw [h.get_congr s s' hsame]

/-- A statement that writes what is there leaves the state as it is. -/
theorem Lawful.run_equiv (h : w.Lawful) (hagrees : w.Agrees s) : (w.run s).1 ≈ s := by
  cases hwritten : (w.effect (w.get s)).1 with
  | none => rw [run_of_none hwritten]
  | some v =>
      rw [run_of_some hwritten, hagrees v hwritten]
      exact h.set_get s

/-- A part of a part is a part. -/
theorem Lawful.within (h : w.Lawful) {α : Type} (g : w.Part → α) (f : α → w.Part → w.Part)
    (effect : α → Option α × Option ε) (hgf : ∀ v p, g (f v p) = v)
    (hfg : ∀ p, f (g p) p = p) :
    Lawful { Part := α
             get := fun s => g (w.get s)
             set := fun v s => w.set (f v (w.get s)) s
             effect := effect : Write σ ε } where
  get_congr s s' hsame := congrArg g (h.get_congr s s' hsame)
  set_congr v s s' hsame := by
    show w.set (f v (w.get s)) s ≈ w.set (f v (w.get s')) s'
    rw [h.get_congr s s' hsame]
    exact h.set_congr _ s s' hsame
  get_set v s := by
    show g (w.get (w.set (f v (w.get s)) s)) = v
    rw [h.get_set, hgf]
  set_get s := by
    show w.set (f (g (w.get s)) (w.get s)) s ≈ s
    rw [hfg]
    exact h.set_get s

theorem undisturbed_congr (hlawful : ∀ w ∈ ws, w.Lawful) (hsame : s ≈ s') :
    Undisturbed ws s ↔ Undisturbed ws s' := by
  induction ws with
  | nil => exact Iff.rfl
  | cons w rest ih =>
      have hw := hlawful w List.mem_cons_self
      rw [Undisturbed, Undisturbed, hw.agrees_congr hsame, hw.get_congr s s' hsame,
        ih fun w' hw' => hlawful w' (List.mem_cons_of_mem w hw')]

/-- **What a block leaves behind.**  A block of statements on parts apart from
each other leaves the state as it was exactly when every value it writes was
there before. -/
theorem runAll_equiv_iff (hlawful : ∀ w ∈ ws, w.Lawful) (hapart : ws.Pairwise Apart) (s : σ) :
    (runAll ws s).1 ≈ s ↔ Undisturbed ws s := by
  induction ws generalizing s with
  | nil => exact iff_of_true (Setoid.refl s) trivial
  | cons w rest ih =>
      obtain ⟨hfirst, hapart⟩ := List.pairwise_cons.mp hapart
      have hw := hlawful w List.mem_cons_self
      have hrest : ∀ w' ∈ rest, w'.Lawful := fun w' hw' => hlawful w' (List.mem_cons_of_mem w hw')
      -- what the statement wrote is still there at the end
      have hkept : (runAll (w :: rest) s).1 ≈ s → w.Agrees s := by
        intro hsame v hv
        have hend : w.get (runAll (w :: rest) s).1 = v := by
          cases hthrown : (w.effect (w.get s)).2 with
          | none =>
              rw [runAll_of_passed hthrown, get_runAll hfirst, run_of_some hv, hw.get_set]
          | some e => rw [runAll_of_thrown hthrown, run_of_some hv, hw.get_set]
        rw [← hend]
        exact hw.get_congr _ _ hsame
      have hstep : w.Agrees s → ((runAll (w :: rest) s).1 ≈ s ↔
          ((w.effect (w.get s)).2 = none → Undisturbed rest s)) := by
        intro hagrees
        have hrun := hw.run_equiv hagrees
        cases hthrown : (w.effect (w.get s)).2 with
        | none =>
            rw [runAll_of_passed hthrown, ← undisturbed_congr hrest hrun, ← ih hrest hapart]
            simp only [true_imp_iff]
            exact ⟨fun h => Setoid.trans h (Setoid.symm hrun), fun h => Setoid.trans h hrun⟩
        | some e =>
            rw [runAll_of_thrown hthrown]
            exact iff_of_true hrun fun h => by cases h
      rw [Undisturbed]
      constructor
      · intro hsame
        exact ⟨hkept hsame, (hstep (hkept hsame)).mp hsame⟩
      · intro h
        exact (hstep h.1).mpr h.2

end Write
