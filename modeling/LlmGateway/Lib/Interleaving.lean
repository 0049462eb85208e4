import LlmGateway.Lib.Programs
import Mathlib.Algebra.BigOperators.Fin
import Mathlib.Data.Fintype.BigOperators
import Mathlib.Logic.Function.Basic

/-!
# Threads over a shared state

Each thread runs a program over the atomic operations of a shared state.  A
schedule says which thread calls next, with the input that the environment gives
to that call; nothing else orders the calls of different threads.

What a schedule does to the shared state is a sequence of calls (`Replays`), so
what single operations keep holds in every schedule, what one program meets holds
of its thread next to any others (`Explained.meets`), and a sum over all calls is
the sum over the threads of what each called (`Explained.balance`).
-/

namespace Interleaving

open Prog

variable {Op : Type} {Res : Op → Type} {α β : Type}

/-! ## Threads -/

/-- One call of a schedule that was made: the thread, the input from the
environment, the operation and its answer. -/
structure Entry (ι E Op : Type) (Res : Op → Type) where
  thread : ι
  input : E
  event : Event Op Res

/-- The threads, the state they share, and the calls made so far. -/
structure Pool (ι E Op : Type) (Res : Op → Type) (α σ : Type) where
  shared : σ
  threads : ι → Prog Op Res α
  log : List (Entry ι E Op Res) := []

variable {ι E σ : Type} [DecidableEq ι] (exec : E → (o : Op) → σ → Res o × σ)

namespace Pool

/-- The thread's next call, if it has one. -/
def step (c : Pool ι E Op Res α σ) (turn : ι × E) : Pool ι E Op Res α σ :=
  match c.threads turn.1 with
  | ret _ => c
  | call o k =>
      let answered := exec turn.2 o c.shared
      { shared := answered.2
        threads := Function.update c.threads turn.1 (k answered.1)
        log := c.log ++ [⟨turn.1, turn.2, ⟨o, answered.1⟩⟩] }

/-- The turns of a schedule, one after another. -/
def run (c : Pool ι E Op Res α σ) (sched : List (ι × E)) : Pool ι E Op Res α σ :=
  sched.foldl (step exec) c

variable {exec} {c : Pool ι E Op Res α σ}

@[simp] theorem run_nil : c.run exec [] = c := rfl

@[simp] theorem run_cons (turn : ι × E) (sched : List (ι × E)) :
    c.run exec (turn :: sched) = (c.step exec turn).run exec sched := rfl

theorem run_append (sched sched' : List (ι × E)) :
    c.run exec (sched ++ sched') = (c.run exec sched).run exec sched' := List.foldl_append

theorem step_of_ret {i : ι} {a : α} (h : c.threads i = ret a) (e : E) : c.step exec (i, e) = c := by
  simp only [step, h]

theorem step_of_call {i : ι} {o : Op} {k : Res o → Prog Op Res α} (h : c.threads i = call o k)
    (e : E) : c.step exec (i, e) =
      { shared := (exec e o c.shared).2
        threads := Function.update c.threads i (k (exec e o c.shared).1)
        log := c.log ++ [⟨i, e, ⟨o, (exec e o c.shared).1⟩⟩] } := by
  simp only [step, h]

/-- What every call keeps holds after every schedule. -/
theorem run_induction {I : Pool ι E Op Res α σ → Prop} (h0 : I c)
    (hstep : ∀ (c : Pool ι E Op Res α σ) (i : ι) (e : E) (o : Op) (k : Res o → Prog Op Res α),
      I c → c.threads i = call o k → I (c.step exec (i, e)))
    (sched : List (ι × E)) : I (c.run exec sched) := by
  induction sched generalizing c with
  | nil => exact h0
  | cons turn sched ih =>
      obtain ⟨i, e⟩ := turn
      rw [run_cons]
      apply ih
      cases hthread : c.threads i with
      | ret a => rwa [step_of_ret hthread]
      | call o k => exact hstep c i e o k h0 hthread

end Pool

/-- The calls of one thread. -/
def traceOf (i : ι) (log : List (Entry ι E Op Res)) : List (Event Op Res) :=
  (log.filter fun en => en.thread = i).map Entry.event

section
variable {i : ι} {log log' : List (Entry ι E Op Res)}

@[simp] theorem traceOf_nil : traceOf i ([] : List (Entry ι E Op Res)) = [] := rfl

theorem traceOf_append : traceOf i (log ++ log') = traceOf i log ++ traceOf i log' := by
  rw [traceOf, List.filter_append, List.map_append, traceOf, traceOf]

theorem traceOf_own (e : E) (ev : Event Op Res) : traceOf i [⟨i, e, ev⟩] = [ev] := by
  simp [traceOf]

theorem traceOf_other {j : ι} (h : j ≠ i) (e : E) (ev : Event Op Res) :
    traceOf i [⟨j, e, ev⟩] = [] := by
  simp [traceOf, h]

theorem mem_traceOf {ev : Event Op Res} :
    ev ∈ traceOf i log ↔ ∃ en ∈ log, en.thread = i ∧ en.event = ev := by
  simp [traceOf, and_assoc]

end

/-- What the threads of a finite pool called, added up, is what was called. -/
theorem sum_traces [Fintype ι] {M : Type} [AddCommMonoid M] (w : Event Op Res → M)
    (log : List (Entry ι E Op Res)) :
    ∑ i, ((traceOf i log).map w).sum = (log.map fun en => w en.event).sum := by
  induction log with
  | nil => simp
  | cons en log ih =>
      have hsplit : ∀ i, ((traceOf i (en :: log)).map w).sum =
          (if en.thread = i then w en.event else 0) + ((traceOf i log).map w).sum := by
        intro i
        by_cases hi : en.thread = i
        · simp [traceOf, hi]
        · simp [traceOf, hi]
      simp only [hsplit, Finset.sum_add_distrib, Finset.sum_ite_eq, Finset.mem_univ, if_true, ih,
        List.map_cons, List.sum_cons]

/-! ## What the calls do to the shared state -/

/-- The calls of a log, made one after another from a state, have the recorded
answers and lead to the other state. -/
def Replays : σ → List (Entry ι E Op Res) → σ → Prop
  | s, [], s' => s' = s
  | s, en :: log, s' =>
      en.event.2 = (exec en.input en.event.1 s).1 ∧
        Replays (exec en.input en.event.1 s).2 log s'

namespace Replays

variable {exec} {s s' s'' : σ} {log log' : List (Entry ι E Op Res)}

omit [DecidableEq ι] in
theorem append_iff :
    Replays exec s (log ++ log') s'' ↔ ∃ s', Replays exec s log s' ∧ Replays exec s' log' s'' := by
  induction log generalizing s with
  | nil => simp [Replays]
  | cons en log ih =>
      simp only [List.cons_append, Replays, ih, and_assoc, exists_and_left]

omit [DecidableEq ι] in
/-- What holds before all calls and is kept by each further one, of the calls made so
far and the state after them, holds at the end. -/
theorem induction (h : Replays exec s log s') {J : List (Entry ι E Op Res) → σ → Prop}
    (h0 : J [] s)
    (hstep : ∀ past i e o t, J past t →
      J (past ++ [⟨i, e, ⟨o, (exec e o t).1⟩⟩]) (exec e o t).2) : J log s' := by
  induction log generalizing s J with
  | nil =>
      cases h
      exact h0
  | cons en log ih =>
      have hhead : en = ⟨en.thread, en.input, ⟨en.event.1, (exec en.input en.event.1 s).1⟩⟩ := by
        rw [← h.1]
      refine ih (J := fun past t => J (en :: past) t) h.2 ?_ fun past i e o t hpast => ?_
      · have hfirst := hstep [] en.thread en.input en.event.1 s h0
        rwa [List.nil_append, ← hhead] at hfirst
      · exact hstep (en :: past) i e o t hpast

omit [DecidableEq ι] in
/-- The state in which a call was made. -/
theorem at_call {en : Entry ι E Op Res} (h : Replays exec s (log ++ en :: log') s') :
    ∃ t, Replays exec s log t ∧ en.event.2 = (exec en.input en.event.1 t).1 := by
  obtain ⟨t, hpast, hcall⟩ := append_iff.mp h
  exact ⟨t, hpast, hcall.1⟩

omit [DecidableEq ι] in
/-- What the called operations keep holds at the end, and of all the states on the
way their answers are as the invariant says. -/
theorem lawful (h : Replays exec s log s') {I : σ → Prop} {rely : Event Op Res → Prop} (h0 : I s)
    (hkeeps : ∀ en ∈ log, ∀ t, I t → I (exec en.input en.event.1 t).2)
    (hanswers : ∀ en ∈ log, ∀ t, I t → rely ⟨en.event.1, (exec en.input en.event.1 t).1⟩) :
    I s' ∧ ∀ en ∈ log, rely en.event := by
  induction log generalizing s with
  | nil => exact ⟨h ▸ h0, by simp⟩
  | cons en log ih =>
      obtain ⟨hend, hlog⟩ := ih h.2 (hkeeps en List.mem_cons_self s h0)
        (fun en' hen' => hkeeps en' (List.mem_cons_of_mem _ hen'))
        (fun en' hen' => hanswers en' (List.mem_cons_of_mem _ hen'))
      refine ⟨hend, fun en' hen' => ?_⟩
      rcases List.mem_cons.mp hen' with rfl | hen'
      · have hanswer := hanswers en' List.mem_cons_self s h0
        rw [← h.1] at hanswer
        exact hanswer
      · exact hlog en' hen'

omit [DecidableEq ι] in
/-- What the called operations keep holds at the end. -/
theorem invariant (h : Replays exec s log s') {I : σ → Prop} (h0 : I s)
    (hkeeps : ∀ en ∈ log, ∀ t, I t → I (exec en.input en.event.1 t).2) : I s' := by
  induction log generalizing s with
  | nil =>
      cases h
      exact h0
  | cons en log ih =>
      exact ih h.2 (hkeeps en List.mem_cons_self s h0)
        fun en' hen' => hkeeps en' (List.mem_cons_of_mem _ hen')

omit [DecidableEq ι] in
/-- A quantity to which every call adds its weight, where an invariant holds. -/
theorem measure (h : Replays exec s log s') {M : Type} [AddCommMonoid M] {μ : σ → M}
    {w : Event Op Res → M} {I : σ → Prop} (h0 : I s)
    (hkeeps : ∀ en ∈ log, ∀ t, I t → I (exec en.input en.event.1 t).2)
    (hstep : ∀ e o t, I t → μ (exec e o t).2 = μ t + w ⟨o, (exec e o t).1⟩) :
    μ s' = μ s + (log.map fun en => w en.event).sum := by
  induction log generalizing s with
  | nil =>
      cases h
      simp
  | cons en log ih =>
      have hhead : (⟨en.event.1, (exec en.input en.event.1 s).1⟩ : Event Op Res) = en.event := by
        rw [← h.1]
      rw [ih h.2 (hkeeps en List.mem_cons_self s h0)
        (fun en' hen' => hkeeps en' (List.mem_cons_of_mem _ hen')), hstep _ _ _ h0, hhead,
        List.map_cons, List.sum_cons, add_assoc]

end Replays

/-! ## Every schedule -/

/-- The pool was reached by threads that started with programs `p` on a state
`s`: the log replays from `s`, and each thread went on through its own calls. -/
structure Explained (s : σ) (p : ι → Prog Op Res α) (c : Pool ι E Op Res α σ) : Prop where
  replays : Replays exec s c.log c.shared
  steps : ∀ i, Steps (p i) (traceOf i c.log) (c.threads i)

variable {exec} {s : σ} {p : ι → Prog Op Res α} {c : Pool ι E Op Res α σ}

/-- One call more. -/
theorem Explained.step (h : Explained exec s p c) {i : ι} {o : Op} {k : Res o → Prog Op Res α}
    (hcall : c.threads i = call o k) (e : E) : Explained exec s p (c.step exec (i, e)) := by
  rw [Pool.step_of_call hcall]
  refine ⟨Replays.append_iff.mpr ⟨c.shared, h.replays, rfl, rfl⟩, fun j => ?_⟩
  by_cases hj : j = i
  · subst hj
    have hsteps := h.steps j
    rw [hcall] at hsteps
    simp only [traceOf_append, traceOf_own, Function.update_self]
    exact hsteps.snoc _
  · simp only [traceOf_append, traceOf_other (Ne.symm hj), List.append_nil,
      Function.update_of_ne hj]
    exact h.steps j

variable (exec) in
/-- **Every schedule is a sequence of calls**, in which each thread runs its own
program. -/
theorem explained_run (s : σ) (p : ι → Prog Op Res α) (sched : List (ι × E)) :
    Explained exec s p ((⟨s, p, []⟩ : Pool ι E Op Res α σ).run exec sched) := by
  apply Pool.run_induction
  · exact ⟨rfl, fun i => .refl _⟩
  · intro c i e o k h hcall
    exact h.step hcall e

variable (exec) in
/-- Operations that keep an invariant and give answers to rely on where it
holds. -/
structure Lawful (allowed : Op → Prop) (I : σ → Prop) (rely : Event Op Res → Prop) : Prop where
  keeps : ∀ e o s, allowed o → I s → I (exec e o s).2
  answers : ∀ e o s, allowed o → I s → rely ⟨o, (exec e o s).1⟩

namespace Explained

variable {allowed : Op → Prop} {I : σ → Prop} {rely : Event Op Res → Prop}

/-- Only operations that a program may call are called. -/
theorem log_allowed (h : Explained exec s p c) (hp : ∀ i, Uses allowed (p i)) :
    ∀ en ∈ c.log, allowed en.event.1 := fun en hen =>
  (hp en.thread).of_steps (h.steps en.thread) en.event (mem_traceOf.mpr ⟨en, hen, rfl, rfl⟩)

/-- **Invariants of single operations hold in every schedule**, and so all answers
can be relied on. -/
theorem lawful (h : Explained exec s p c) (hlaw : Lawful exec allowed I rely)
    (hp : ∀ i, Uses allowed (p i)) (h0 : I s) : I c.shared ∧ ∀ en ∈ c.log, rely en.event :=
  h.replays.lawful h0 (fun en hen t => hlaw.keeps _ _ t (h.log_allowed hp en hen))
    fun en hen t => hlaw.answers _ _ t (h.log_allowed hp en hen)

/-- **The guarantee of a program holds of its thread**, next to any others. -/
theorem meets {Q : List (Event Op Res) → Option α → Prop} (h : Explained exec s p c)
    (hanswers : ∀ en ∈ c.log, rely en.event) {i : ι} (hp : Meets rely (p i) Q) :
    Q (traceOf i c.log) (c.threads i).result := by
  refine hp.of_steps (h.steps i) fun ev hev => ?_
  obtain ⟨en, hen, -, rfl⟩ := mem_traceOf.mp hev
  exact hanswers en hen

/-- The same of a program that relies on no answer. -/
theorem guarantees {Q : List (Event Op Res) → Option α → Prop} (h : Explained exec s p c) {i : ι}
    (hp : Meets (fun _ => True) (p i) Q) : Q (traceOf i c.log) (c.threads i).result :=
  hp.of_steps (h.steps i) fun _ _ => trivial

/-- What was called, added up, is a sum of one amount for each thread, and when all
threads have their results, the amounts and the results are as the programs of the
threads say. -/
theorem totals [Fintype ι] {M : Type} [AddCommMonoid M] {w : Event Op Res → M}
    {F : ι → α → M → Prop} (h : Explained exec s p c) (hanswers : ∀ en ∈ c.log, rely en.event)
    (hp : ∀ i, Adds rely w 0 (p i) (F i)) {a : ι → α} (hdone : ∀ i, c.threads i = ret (a i)) :
    ∃ m : ι → M, (∀ i, F i (a i) (m i)) ∧ (c.log.map fun en => w en.event).sum = ∑ i, m i := by
  refine ⟨fun i => ((traceOf i c.log).map w).sum, fun i => ?_, (sum_traces w c.log).symm⟩
  have hmeets := h.meets hanswers (hp i)
  rw [hdone, zero_add] at hmeets
  exact hmeets (a i) rfl

/-- **The books of a pool.**  If every call adds its weight to a quantity, then when
all threads have their results the quantity has grown by a sum of one amount for
each thread, and this amount and the result are as the thread's program says. -/
theorem balance [Fintype ι] {M : Type} [AddCommMonoid M] {μ : σ → M} {w : Event Op Res → M}
    {F : ι → α → M → Prop} (h : Explained exec s p c) (hlaw : Lawful exec allowed I rely)
    (huses : ∀ i, Uses allowed (p i)) (h0 : I s)
    (hstep : ∀ e o t, I t → μ (exec e o t).2 = μ t + w ⟨o, (exec e o t).1⟩)
    (hp : ∀ i, Adds rely w 0 (p i) (F i)) {a : ι → α} (hdone : ∀ i, c.threads i = ret (a i)) :
    ∃ m : ι → M, (∀ i, F i (a i) (m i)) ∧ μ c.shared = μ s + ∑ i, m i := by
  obtain ⟨m, hm, hsum⟩ := h.totals (h.lawful hlaw huses h0).2 hp hdone
  refine ⟨m, hm, ?_⟩
  rw [← hsum]
  exact h.replays.measure h0
    (fun en hen t => hlaw.keeps _ _ t (h.log_allowed huses en hen)) hstep

end Explained

/-! ## Progress -/

namespace Pool

/-- The turns that a schedule gives to a thread. -/
def turnsOf (i : ι) (sched : List (ι × E)) : Nat := (sched.filter fun turn => turn.1 = i).length

/-- Turns of other threads do not touch a thread. -/
theorem step_other {i j : ι} (hj : j ≠ i) (e : E) :
    (c.step exec (j, e)).threads i = c.threads i ∧
      traceOf i (c.step exec (j, e)).log = traceOf i c.log := by
  cases hthread : c.threads j with
  | ret a =>
      rw [step_of_ret hthread]
      exact ⟨rfl, rfl⟩
  | call o k =>
      rw [step_of_call hthread]
      simp only [Function.update_of_ne (Ne.symm hj), traceOf_append, traceOf_other hj,
        List.append_nil, and_self]

/-- The calls that were made have the inputs of their turns, in the order of the
schedule. -/
theorem inputs_sublist (sched : List (ι × E)) :
    ((c.run exec sched).log.map Entry.input).Sublist
      (c.log.map Entry.input ++ sched.map Prod.snd) := by
  induction sched generalizing c with
  | nil => simp
  | cons turn sched ih =>
      obtain ⟨i, e⟩ := turn
      refine (ih (c := c.step exec (i, e))).trans ?_
      cases hthread : c.threads i with
      | ret a =>
          rw [step_of_ret hthread]
          exact (List.Sublist.refl _).append (List.sublist_cons_self _ _)
      | call o k =>
          rw [step_of_call hthread]
          simp

/-- A thread with its result keeps it. -/
theorem run_of_ret {i : ι} {a : α} (h : c.threads i = ret a) (sched : List (ι × E)) :
    (c.run exec sched).threads i = ret a := by
  induction sched generalizing c with
  | nil => exact h
  | cons turn sched ih =>
      obtain ⟨j, e⟩ := turn
      rw [run_cons]
      apply ih
      by_cases hj : j = i
      · subst hj
        rwa [step_of_ret h]
      · rw [(step_other hj e).1, h]

/-- **Every thread gets its result.**  If the programs of all threads call only what
keeps the invariant, a program that makes at most `n` calls is done after `n` turns
of its thread, whatever the other threads do. -/
theorem answered_of_turns {allowed : Op → Prop} {I : σ → Prop} {rely : Event Op Res → Prop}
    {F : ι → α → Prop} (hlaw : Lawful exec allowed I rely) {n : ι → Nat}
    (hp : ∀ j, Within rely allowed (F j) (c.threads j) (n j)) (h0 : I c.shared) {i : ι}
    (sched : List (ι × E)) (hturns : n i ≤ turnsOf i sched) :
    ∃ a, (c.run exec sched).threads i = ret a ∧ F i a := by
  induction sched generalizing c n with
  | nil =>
      cases hthread : c.threads i with
      | ret a =>
          have hresult := hp i
          rw [hthread] at hresult
          exact ⟨a, hthread, hresult⟩
      | call o k =>
          have hpos := hp i
          rw [hthread] at hpos
          exact absurd (hpos.2.1.trans_le hturns) (Nat.lt_irrefl 0)
  | cons turn sched ih =>
      obtain ⟨j, e⟩ := turn
      rw [run_cons]
      cases hthread : c.threads j with
      | ret a =>
          rw [step_of_ret hthread]
          by_cases hj : j = i
          · subst hj
            have hresult := hp j
            rw [hthread] at hresult
            exact ⟨a, run_of_ret hthread sched, hresult⟩
          · refine ih hp h0 (hturns.trans_eq ?_)
            simp [turnsOf, hj]
      | call o k =>
          have hnext := hp j
          rw [hthread] at hnext
          obtain ⟨ho, hpos, hk⟩ := hnext
          rw [step_of_call hthread]
          refine ih (n := Function.update n j (n j - 1)) (fun t => ?_) (hlaw.keeps e o _ ho h0) ?_
          · by_cases ht : t = j
            · subst ht
              simp only [Function.update_self]
              exact hk _ (hlaw.answers e o _ ho h0)
            · simp only [Function.update_of_ne ht]
              exact hp t
          · by_cases hj : j = i
            · subst hj
              rw [Function.update_self]
              simp only [turnsOf, List.filter_cons, decide_true, if_true, List.length_cons]
                at hturns ⊢
              omega
            · rw [Function.update_of_ne (Ne.symm hj)]
              simpa [turnsOf, hj] using hturns

end Pool

/-- A program that runs alone, on a state of its own with more than what is shared,
does what it does in a pool that gives all turns to its thread. -/
theorem Pool.exists_alone {τ : Type} {exec' : (o : Op) → τ → Res o × τ} {view : τ → σ}
    {pick : (o : Op) → τ → E}
    (hsim : ∀ o t, (exec' o t).1 = (exec (pick o t) o (view t)).1 ∧
      view (exec' o t).2 = (exec (pick o t) o (view t)).2)
    (i : ι) (q : Prog Op Res α) (t : τ) (c : Pool ι E Op Res α σ) (hthread : c.threads i = q)
    (hshared : c.shared = view t) :
    ∃ turns : List E,
      (c.run exec (turns.map fun e => (i, e))).shared = view (q.alone exec' t).2 ∧
        (c.run exec (turns.map fun e => (i, e))).threads =
          Function.update c.threads i (ret (q.alone exec' t).1) := by
  induction q generalizing t c with
  | ret a => exact ⟨[], hshared, by rw [alone_ret, ← hthread, Function.update_eq_self]; rfl⟩
  | call o k ih =>
      obtain ⟨hanswer, hview⟩ := hsim o t
      have hstep : (c.step exec (i, pick o t)).threads i = k (exec' o t).1 ∧
          (c.step exec (i, pick o t)).shared = view (exec' o t).2 := by
        rw [step_of_call hthread, hanswer, hview, hshared]
        exact ⟨Function.update_self .., rfl⟩
      obtain ⟨turns, hend, hthreads⟩ := ih (exec' o t).1 (exec' o t).2 _ hstep.1 hstep.2
      refine ⟨pick o t :: turns, ?_, ?_⟩
      · rw [List.map_cons, run_cons, alone_call]
        exact hend
      · rw [List.map_cons, run_cons, alone_call, hthreads, step_of_call hthread]
        exact Function.update_idem ..

end Interleaving
