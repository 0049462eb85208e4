import Mathlib.Algebra.BigOperators.Group.List.Basic

/-!
# Programs over atomic operations

A program calls operations one at a time and goes on with their answers.  `alone`
runs it against an implementation of the operations, and `Steps` says through
which calls it goes on to another program, whoever gives the answers.

`Meets` is the precondition of a program for a property of its calls and of its
result, when the answers satisfy what the program relies on.  A program is proved
to meet a property by its own cases, and in sequence by `Meets.bind`.
-/

namespace Interleaving

/-- A program: it has its result, or it calls an operation and goes on with the
answer. -/
inductive Prog (Op : Type) (Res : Op → Type) (α : Type) : Type where
  | ret (a : α)
  | call (o : Op) (k : Res o → Prog Op Res α)

/-- An operation that was called, with its answer. -/
abbrev Event (Op : Type) (Res : Op → Type) := Σ o : Op, Res o

variable {Op : Type} {Res : Op → Type} {α β : Type}

namespace Prog

/-- Run a program, then the one that its result decides on. -/
def bind : Prog Op Res α → (α → Prog Op Res β) → Prog Op Res β
  | ret a, f => f a
  | call o k, f => call o fun r => (k r).bind f

instance : Monad (Prog Op Res) where
  pure := ret
  bind := bind

/-- Call one operation. -/
def perform (o : Op) : Prog Op Res (Res o) := call o ret

@[simp] theorem pure_eq (a : α) : (pure a : Prog Op Res α) = ret a := rfl

@[simp] theorem map_eq (f : α → β) (p : Prog Op Res α) : f <$> p = p >>= fun a => ret (f a) := rfl

@[simp] theorem ret_bind (a : α) (f : α → Prog Op Res β) : (ret a >>= f) = f a := rfl

@[simp] theorem call_bind (o : Op) (k : Res o → Prog Op Res α) (f : α → Prog Op Res β) :
    (call o k >>= f) = call o fun r => k r >>= f := rfl

@[simp] theorem perform_bind (o : Op) (f : Res o → Prog Op Res β) :
    (perform o >>= f) = call o f := rfl

/-- The result of a program that has it. -/
def result : Prog Op Res α → Option α
  | ret a => some a
  | call _ _ => none

@[simp] theorem result_ret (a : α) : (ret a : Prog Op Res α).result = some a := rfl

@[simp] theorem result_call (o : Op) (k : Res o → Prog Op Res α) : (call o k).result = none := rfl

/-- Run a program alone, against an implementation of its operations. -/
def alone {τ : Type} (exec : (o : Op) → τ → Res o × τ) : Prog Op Res α → τ → α × τ
  | ret a, t => (a, t)
  | call o k, t => alone exec (k (exec o t).1) (exec o t).2

section
variable {τ : Type} (exec : (o : Op) → τ → Res o × τ) (t : τ)

@[simp] theorem alone_ret (a : α) : (ret a : Prog Op Res α).alone exec t = (a, t) := rfl

@[simp] theorem alone_call (o : Op) (k : Res o → Prog Op Res α) :
    (call o k).alone exec t = (k (exec o t).1).alone exec (exec o t).2 := rfl

/-- A program alone goes on with the state that its first part leaves. -/
theorem alone_bind (p : Prog Op Res α) (f : α → Prog Op Res β) :
    (p >>= f).alone exec t = (f (p.alone exec t).1).alone exec (p.alone exec t).2 := by
  induction p generalizing t with
  | ret a => rfl
  | call o k ih =>
      rw [call_bind, alone_call, alone_call]
      exact ih _ _

end

/-- A program goes on to another one through some calls. -/
inductive Steps : Prog Op Res α → List (Event Op Res) → Prog Op Res α → Prop
  | refl (p : Prog Op Res α) : Steps p [] p
  | head {o : Op} {k : Res o → Prog Op Res α} {r : Res o} {tr : List (Event Op Res)}
      {q : Prog Op Res α} (rest : Steps (k r) tr q) : Steps (call o k) (⟨o, r⟩ :: tr) q

/-- One more call at the end. -/
theorem Steps.snoc {p : Prog Op Res α} {tr : List (Event Op Res)} {o : Op}
    {k : Res o → Prog Op Res α} (h : Steps p tr (call o k)) (r : Res o) :
    Steps p (tr ++ [⟨o, r⟩]) (k r) := by
  generalize hq : call o k = q at h
  induction h with
  | refl p =>
      subst hq
      exact .head (.refl _)
  | head rest ih => exact .head (ih hq)

end Prog

open Prog

/-! ## What a program guarantees -/

/-- After every call of the program, and at its end, the calls so far and the
result, if there is one, are as said, when the answers are what it relies on. -/
def Meets (rely : Event Op Res → Prop) :
    Prog Op Res α → (List (Event Op Res) → Option α → Prop) → Prop
  | ret a, Q => Q [] (some a)
  | call o k, Q => Q [] none ∧ ∀ r, rely ⟨o, r⟩ → Meets rely (k r) fun tr => Q (⟨o, r⟩ :: tr)

namespace Meets

variable {rely : Event Op Res → Prop} {Q Q' : List (Event Op Res) → Option α → Prop}
  {p q : Prog Op Res α}

@[simp] theorem ret_iff {a : α} : Meets rely (ret a) Q ↔ Q [] (some a) := Iff.rfl

@[simp] theorem call_iff {o : Op} {k : Res o → Prog Op Res α} :
    Meets rely (call o k) Q ↔
      Q [] none ∧ ∀ r, rely ⟨o, r⟩ → Meets rely (k r) fun tr => Q (⟨o, r⟩ :: tr) := Iff.rfl

/-- A weaker property, of the calls whose answers are relied on. -/
theorem mono (h : Meets rely p Q)
    (himp : ∀ tr x, (∀ ev ∈ tr, rely ev) → Q tr x → Q' tr x) : Meets rely p Q' := by
  induction p generalizing Q Q' with
  | ret a => exact himp [] (some a) (by simp) h
  | call o k ih =>
      refine ⟨himp [] none (by simp) h.1, fun r hr => ih r (h.2 r hr) fun tr x htr hQ => ?_⟩
      refine himp _ x (fun ev hev => ?_) hQ
      rcases List.mem_cons.mp hev with rfl | hev
      · exact hr
      · exact htr ev hev

/-- A property of all calls and results needs no program. -/
theorem of_forall (h : ∀ tr x, Q tr x) : Meets rely p Q := by
  induction p generalizing Q with
  | ret a => exact h [] (some a)
  | call o k ih => exact ⟨h [] none, fun r _ => ih r fun tr x => h _ x⟩

/-- Programs in sequence. -/
theorem bind {f : α → Prog Op Res β} {R : List (Event Op Res) → Option β → Prop}
    (h : Meets rely p fun tr x =>
      x.elim (R tr none) fun a => Meets rely (f a) fun tr' => R (tr ++ tr')) :
    Meets rely (p >>= f) R := by
  induction p generalizing R with
  | ret a => exact h
  | call o k ih => exact ⟨h.1, fun r hr => ih r (h.2 r hr)⟩

/-- Along some calls. -/
theorem of_steps {tr : List (Event Op Res)} (hsteps : Steps p tr q) (h : Meets rely p Q)
    (hrely : ∀ ev ∈ tr, rely ev) : Q tr q.result := by
  induction hsteps generalizing Q with
  | refl p =>
      cases p with
      | ret a => exact h
      | call o k => exact h.1
  | head rest ih =>
      exact ih (h.2 _ (hrely _ List.mem_cons_self))
        fun ev hev => hrely ev (List.mem_cons_of_mem _ hev)

/-- Two properties together. -/
theorem and (h : Meets rely p Q) (h' : Meets rely p Q') :
    Meets rely p fun tr x => Q tr x ∧ Q' tr x := by
  induction p generalizing Q Q' with
  | ret a => exact ⟨h, h'⟩
  | call o k ih => exact ⟨⟨h.1, h'.1⟩, fun r hr => ih r (h.2 r hr) (h'.2 r hr)⟩

end Meets

/-- What a program meets when it runs after some calls, of all the calls. -/
def After (rely : Event Op Res → Prop) (past : List (Event Op Res)) (p : Prog Op Res α)
    (Q : List (Event Op Res) → Option α → Prop) : Prop :=
  Meets rely p fun tr x => Q (past ++ tr) x

namespace After

variable {rely : Event Op Res → Prop} {past : List (Event Op Res)}
  {Q Q' : List (Event Op Res) → Option α → Prop} {p : Prog Op Res α}

@[simp] theorem ret_iff {a : α} : After rely past (ret a) Q ↔ Q past (some a) := by
  simp [After]

@[simp] theorem call_iff {o : Op} {k : Res o → Prog Op Res α} :
    After rely past (call o k) Q ↔
      Q past none ∧ ∀ r, rely ⟨o, r⟩ → After rely (past ++ [⟨o, r⟩]) (k r) Q := by
  simp [After]

theorem nil_iff : After rely [] p Q ↔ Meets rely p Q := Iff.rfl

theorem mono (h : After rely past p Q) (himp : ∀ tr x, Q tr x → Q' tr x) :
    After rely past p Q' :=
  Meets.mono h fun _ _ _ => himp _ _

/-- Programs in sequence. -/
theorem bind {f : α → Prog Op Res β} {R : List (Event Op Res) → Option β → Prop}
    (h : After rely past p fun tr x => x.elim (R tr none) fun a => After rely tr (f a) R) :
    After rely past (p >>= f) R := by
  refine Meets.bind (Meets.mono h fun tr x _ hx => ?_)
  cases x with
  | none => exact hx
  | some a =>
      refine Meets.mono hx fun tr' x' _ hR => ?_
      rwa [List.append_assoc] at hR

end After

/-- A program calls only such operations, whatever the answers are. -/
def Uses (allowed : Op → Prop) : Prog Op Res α → Prop
  | ret _ => True
  | call o k => allowed o ∧ ∀ r, Uses allowed (k r)

namespace Uses

variable {allowed allowed' : Op → Prop} {p q : Prog Op Res α}

@[simp] theorem ret_iff {a : α} : Uses allowed (ret a : Prog Op Res α) ↔ True := Iff.rfl

@[simp] theorem call_iff {o : Op} {k : Res o → Prog Op Res α} :
    Uses allowed (call o k) ↔ allowed o ∧ ∀ r, Uses allowed (k r) := Iff.rfl

/-- Programs in sequence. -/
theorem bind {f : α → Prog Op Res β} (h : Uses allowed p) (hf : ∀ a, Uses allowed (f a)) :
    Uses allowed (p >>= f) := by
  induction p with
  | ret a => exact hf a
  | call o k ih => exact ⟨h.1, fun r => ih r (h.2 r)⟩

/-- More may be allowed. -/
theorem mono (h : Uses allowed p) (himp : ∀ o, allowed o → allowed' o) : Uses allowed' p := by
  induction p with
  | ret a => trivial
  | call o k ih => exact ⟨himp o h.1, fun r => ih r (h.2 r)⟩

/-- Along some calls. -/
theorem of_steps {tr : List (Event Op Res)} (hsteps : Steps p tr q) (h : Uses allowed p) :
    ∀ ev ∈ tr, allowed ev.1 := by
  induction hsteps with
  | refl p => simp
  | head rest ih =>
      intro ev hev
      rcases List.mem_cons.mp hev with rfl | hev
      · exact h.1
      · exact ih (h.2 _) ev hev

end Uses

/-- What every allowed call keeps, of the calls so far, a program meets. -/
theorem After.of_uses {rely : Event Op Res → Prop} {allowed : Op → Prop} {p : Prog Op Res α}
    {J : List (Event Op Res) → Prop} {past : List (Event Op Res)} (huses : Uses allowed p)
    (h0 : J past) (hkeeps : ∀ tr o r, allowed o → J tr → J (tr ++ [⟨o, r⟩])) :
    After rely past p fun tr _ => J tr := by
  induction p generalizing past with
  | ret a => rwa [After.ret_iff]
  | call o k ih =>
      rw [After.call_iff]
      exact ⟨h0, fun r _ => ih r (huses.2 r) (hkeeps past o r huses.1 h0)⟩

theorem uses_all (p : Prog Op Res α) : Uses (fun _ => True) p := by
  induction p with
  | ret a => trivial
  | call o k ih => exact ⟨trivial, ih⟩

/-- A program calls only such operations, when the answers are what it relies on. -/
def CallsOnly (rely : Event Op Res → Prop) (allowed : Op → Prop) : Prog Op Res α → Prop
  | ret _ => True
  | call o k => allowed o ∧ ∀ r, rely ⟨o, r⟩ → CallsOnly rely allowed (k r)

namespace CallsOnly

variable {rely : Event Op Res → Prop} {allowed : Op → Prop} {p : Prog Op Res α}

/-- One call and what follows it. -/
theorem step {o : Op} {k : Res o → Prog Op Res α} (ho : allowed o)
    (hk : ∀ r, rely ⟨o, r⟩ → CallsOnly rely allowed (k r)) : CallsOnly rely allowed (call o k) :=
  ⟨ho, hk⟩

/-- Programs in sequence. -/
theorem bind {f : α → Prog Op Res β} (h : CallsOnly rely allowed p)
    (hf : ∀ a, CallsOnly rely allowed (f a)) : CallsOnly rely allowed (p >>= f) := by
  induction p with
  | ret a => exact hf a
  | call o k ih => exact ⟨h.1, fun r hr => ih r (h.2 r hr)⟩

/-- What holds for all answers holds for those relied on. -/
theorem of_uses (h : Uses allowed p) : CallsOnly rely allowed p := by
  induction p with
  | ret a => trivial
  | call o k ih => exact ⟨h.1, fun r _ => ih r (h.2 r)⟩

/-- All calls of the program are such. -/
theorem meets (h : CallsOnly rely allowed p) :
    Meets rely p fun tr _ => ∀ ev ∈ tr, allowed ev.1 := by
  induction p with
  | ret a => simp
  | call o k ih =>
      refine ⟨by simp, fun r hr => (ih r (h.2 r hr)).mono fun tr _ _ htr ev hev => ?_⟩
      rcases List.mem_cons.mp hev with rfl | hev
      · exact h.1
      · exact htr ev hev

end CallsOnly

/-! ## Programs that end -/

/-- A program makes at most so many calls, each of them allowed, and its result is as
said, when the answers are what it relies on. -/
def Within (rely : Event Op Res → Prop) (allowed : Op → Prop) (F : α → Prop) :
    Prog Op Res α → Nat → Prop
  | ret a, _ => F a
  | call o k, n =>
      allowed o ∧ 0 < n ∧ ∀ r, rely ⟨o, r⟩ → Within rely allowed F (k r) (n - 1)

namespace Within

variable {rely : Event Op Res → Prop} {allowed : Op → Prop} {F F' : α → Prop}
  {p : Prog Op Res α} {n m : Nat}

@[simp] theorem ret_iff {a : α} : Within rely allowed F (ret a) n ↔ F a := Iff.rfl

/-- One call and what follows it. -/
theorem call_succ {o : Op} {k : Res o → Prog Op Res α} (ho : allowed o)
    (hk : ∀ r, rely ⟨o, r⟩ → Within rely allowed F (k r) n) :
    Within rely allowed F (call o k) (n + 1) :=
  ⟨ho, Nat.succ_pos n, hk⟩

/-- A weaker property of the result, and a larger bound. -/
theorem mono (h : Within rely allowed F p n) (himp : ∀ a, F a → F' a) (hle : n ≤ m) :
    Within rely allowed F' p m := by
  induction p generalizing n m with
  | ret a => exact himp a h
  | call o k ih => exact ⟨h.1, Nat.lt_of_lt_of_le h.2.1 hle, fun r hr => ih r (h.2.2 r hr) (by omega)⟩

/-- Programs in sequence. -/
theorem bind {f : α → Prog Op Res β} {G : β → Prop} (h : Within rely allowed F p n)
    (hf : ∀ a, F a → Within rely allowed G (f a) m) :
    Within rely allowed G (p >>= f) (n + m) := by
  induction p generalizing n with
  | ret a => exact (hf a h).mono (fun _ => id) (Nat.le_add_left m n)
  | call o k ih =>
      obtain ⟨ho, hpos, hk⟩ := h
      refine ⟨ho, by omega, fun r hr => ?_⟩
      have hrest := ih r (hk r hr)
      rwa [show n - 1 + m = n + m - 1 by omega] at hrest

/-- A program whose result is worked on without a call. -/
theorem map {f : α → β} {G : β → Prop} (h : Within rely allowed F p n)
    (hf : ∀ a, F a → G (f a)) : Within rely allowed G (p >>= fun a => ret (f a)) n :=
  bind (m := 0) h fun a ha => ret_iff.mpr (hf a ha)

end Within

/-! ## What the calls of a program add up to -/

section
variable {M : Type} [AddCommMonoid M]

/-- When a program has its result, the weights of its calls, added to `m`, are as
said. -/
def Adds (rely : Event Op Res → Prop) (w : Event Op Res → M) (m : M) (p : Prog Op Res α)
    (F : α → M → Prop) : Prop :=
  Meets rely p fun tr x => ∀ a ∈ x, F a (m + (tr.map w).sum)

namespace Adds

variable {rely : Event Op Res → Prop} {w : Event Op Res → M} {m : M} {p : Prog Op Res α}
  {F F' : α → M → Prop}

@[simp] theorem ret_iff {a : α} : Adds rely w m (ret a) F ↔ F a m := by
  simp [Adds]

@[simp] theorem call_iff {o : Op} {k : Res o → Prog Op Res α} :
    Adds rely w m (call o k) F ↔ ∀ r, rely ⟨o, r⟩ → Adds rely w (m + w ⟨o, r⟩) (k r) F := by
  simp [Adds, add_assoc]

theorem mono (h : Adds rely w m p F) (himp : ∀ a m, F a m → F' a m) : Adds rely w m p F' :=
  Meets.mono h fun _ _ _ hF a ha => himp a _ (hF a ha)

/-- Programs in sequence. -/
theorem bind {f : α → Prog Op Res β} {G : β → M → Prop}
    (h : Adds rely w m p fun a m => Adds rely w m (f a) G) : Adds rely w m (p >>= f) G := by
  induction p generalizing m with
  | ret a =>
      rw [ret_iff] at h
      exact h
  | call o k ih =>
      rw [call_iff] at h
      rw [call_bind, call_iff]
      exact fun r hr => ih r (h r hr)

/-- Calls without weight add nothing. -/
theorem of_weightless {allowed : Op → Prop} (huses : Uses allowed p)
    (hw : ∀ o, allowed o → ∀ r, w ⟨o, r⟩ = 0) (hF : ∀ a, F a m) : Adds rely w m p F := by
  induction p with
  | ret a =>
      rw [ret_iff]
      exact hF a
  | call o k ih =>
      rw [call_iff]
      intro r _
      rw [hw o huses.1, add_zero]
      exact ih r (huses.2 r)

end Adds

end

end Interleaving
