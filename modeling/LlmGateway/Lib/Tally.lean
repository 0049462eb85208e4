import Mathlib.Algebra.BigOperators.Group.List.Basic
import Mathlib.Data.List.AList

/-!
# Tallies

A tally counts amounts under keys: a finite map whose missing keys stand for
zero.  Counting a list of values one after the other gives each key the sum of
its own values and the whole tally the sum of all of them, and the sums over a
list of distinct keys that covers the values add up to the sum of the values.
-/

namespace Tally

variable {α κ ν : Type} [AddCommMonoid ν]

/-- Everything that was counted. -/
def total (tally : AList fun _ : κ => ν) : ν := (tally.entries.map Sigma.snd).sum

@[simp] theorem total_empty : total (∅ : AList fun _ : κ => ν) = 0 := rfl

variable [DecidableEq κ]

/-- The amount counted under a key. -/
def amount (k : κ) (tally : AList fun _ : κ => ν) : ν := (tally.lookup k).getD 0

/-- Count an amount under a key. -/
def add (k : κ) (x : ν) (tally : AList fun _ : κ => ν) : AList fun _ : κ => ν :=
  tally.insert k (amount k tally + x)

/-- Count the values of a list, each with its weight under its key. -/
def fill (key : α → κ) (weight : α → ν) (values : List α) (tally : AList fun _ : κ => ν) :
    AList fun _ : κ => ν :=
  values.foldl (fun tally a => add (key a) (weight a) tally) tally

@[simp] theorem amount_empty (k : κ) : amount k (∅ : AList fun _ : κ => ν) = 0 := rfl

/-- Counting under a key changes the amount of that key only. -/
theorem amount_add (k k' : κ) (x : ν) (tally : AList fun _ : κ => ν) :
    amount k' (add k x tally) = amount k' tally + if k = k' then x else 0 := by
  unfold add
  by_cases hk : k = k'
  · subst hk
    rw [if_pos rfl, amount, AList.lookup_insert, Option.getD_some]
  · rw [if_neg hk, add_zero, amount, AList.lookup_insert_ne (Ne.symm hk), amount]

/-- What a list of entries amounts to without the entry of a key. -/
theorem sum_kerase (k : κ) (entries : List (Σ _ : κ, ν)) :
    (entries.map Sigma.snd).sum =
      (entries.dlookup k).getD 0 + ((entries.kerase k).map Sigma.snd).sum := by
  induction entries with
  | nil => simp
  | cons e entries ih =>
      obtain ⟨k', x⟩ := e
      by_cases hk : k = k'
      · subst hk
        have herase : (⟨k, x⟩ :: entries : List (Σ _ : κ, ν)).kerase k = entries :=
          List.kerase_cons_eq rfl
        rw [List.dlookup_cons_eq, herase, List.map_cons, List.sum_cons, Option.getD_some]
      · rw [List.dlookup_cons_ne _ _ hk, List.kerase_cons_ne hk, List.map_cons, List.map_cons,
          List.sum_cons, List.sum_cons, ih, add_left_comm]

theorem total_add (k : κ) (x : ν) (tally : AList fun _ : κ => ν) :
    total (add k x tally) = total tally + x := by
  have hsplit := sum_kerase k tally.entries
  unfold total add
  rw [AList.entries_insert, List.map_cons, List.sum_cons, hsplit]
  exact add_right_comm _ _ _

/-- Every key gets the sum of its own values. -/
theorem amount_fill (key : α → κ) (weight : α → ν) (k : κ) (values : List α)
    (tally : AList fun _ : κ => ν) :
    amount k (fill key weight values tally) =
      amount k tally + ((values.filter fun a => key a = k).map weight).sum := by
  induction values generalizing tally with
  | nil => simp [fill]
  | cons a values ih =>
      have hstep : fill key weight (a :: values) tally =
          fill key weight values (add (key a) (weight a) tally) := rfl
      rw [hstep, ih, amount_add]
      by_cases hk : key a = k
      · rw [if_pos hk, List.filter_cons_of_pos (by simpa using hk), List.map_cons, List.sum_cons,
          add_assoc]
      · rw [if_neg hk, List.filter_cons_of_neg (by simpa using hk), add_zero]

theorem total_fill (key : α → κ) (weight : α → ν) (values : List α)
    (tally : AList fun _ : κ => ν) :
    total (fill key weight values tally) = total tally + (values.map weight).sum := by
  induction values generalizing tally with
  | nil => simp [fill]
  | cons a values ih =>
      have hstep : fill key weight (a :: values) tally =
          fill key weight values (add (key a) (weight a) tally) := rfl
      rw [hstep, ih, total_add, List.map_cons, List.sum_cons, add_assoc]

/-- Of distinct keys, one alone is the key of a value. -/
theorem sum_ite_eq {keys : List κ} (hnodup : keys.Nodup) {k : κ} (hk : k ∈ keys) (x : ν) :
    (keys.map fun k' => if k = k' then x else 0).sum = x := by
  induction keys with
  | nil => cases hk
  | cons k' keys ih =>
      obtain ⟨hnew, hnodup⟩ := List.nodup_cons.mp hnodup
      rw [List.map_cons, List.sum_cons]
      rcases List.mem_cons.mp hk with rfl | hk
      · have hzero : (keys.map fun k' => if k = k' then x else 0).sum = 0 := by
          apply List.sum_eq_zero
          intro y hy
          obtain ⟨k', hk', rfl⟩ := List.mem_map.mp hy
          exact if_neg fun heq : k = k' => hnew (heq ▸ hk')
        rw [if_pos rfl, hzero, add_zero]
      · rw [if_neg fun heq : k = k' => hnew (heq ▸ hk), zero_add, ih hnodup hk]

/-- The sums over the fibers of a key add up to the whole sum. -/
theorem sum_fibers (key : α → κ) (weight : α → ν) {keys : List κ} (hnodup : keys.Nodup)
    (values : List α) (hcovered : ∀ a ∈ values, key a ∈ keys) :
    (keys.map fun k => ((values.filter fun a => key a = k).map weight).sum).sum =
      (values.map weight).sum := by
  induction values with
  | nil => simp
  | cons a values ih =>
      have hfiber : ∀ k, (((a :: values).filter fun b => key b = k).map weight).sum =
          (if key a = k then weight a else 0) +
            ((values.filter fun b => key b = k).map weight).sum := by
        intro k
        by_cases hk : key a = k
        · rw [if_pos hk, List.filter_cons_of_pos (by simpa using hk), List.map_cons,
            List.sum_cons]
        · rw [if_neg hk, List.filter_cons_of_neg (by simpa using hk), zero_add]
      simp only [hfiber, List.sum_map_add]
      rw [sum_ite_eq hnodup (hcovered a List.mem_cons_self),
        ih fun b hb => hcovered b (List.mem_cons_of_mem a hb), List.map_cons, List.sum_cons]

end Tally
