import Mathlib.Order.Lattice
import Mathlib.Data.List.Basic

/-!
# Scanning for the first strict minimum

A loop that carries the best element so far, from a start value on, and takes a
new element exactly when its key is strictly smaller.  It ends with the start
value if no key is below the start's, and otherwise with the first element that
has the least key.
-/

namespace Scan

variable {α κ : Type*} [LinearOrder κ] (key : α → κ)

/-- The loop. -/
def scan (start : α) (l : List α) : α :=
  l.foldl (fun best a => if key a < key best then a else best) start

/-- The first element of the list with the least key, which is below a bound. -/
def FirstBelow (bound : κ) (l : List α) (a : α) : Prop :=
  key a < bound ∧ ∃ before after, l = before ++ a :: after ∧
    (∀ b ∈ before, key a < key b) ∧ ∀ b ∈ after, key a ≤ key b

variable {key} {bound : κ} {l : List α} {a : α}

theorem FirstBelow.mem (h : FirstBelow key bound l a) : a ∈ l := by
  obtain ⟨-, before, after, rfl, -, -⟩ := h
  exact List.mem_append_right before List.mem_cons_self

/-- No element of the list has a smaller key. -/
theorem FirstBelow.le (h : FirstBelow key bound l a) : ∀ b ∈ l, key a ≤ key b := by
  obtain ⟨-, before, after, rfl, hbefore, hafter⟩ := h
  intro b hb
  rcases List.mem_append.mp hb with hb | hb
  · exact (hbefore b hb).le
  · rcases List.mem_cons.mp hb with rfl | hb
    · exact le_rfl
    · exact hafter b hb

/-- An element that occurs once is the first least one when its key is below those
in front and at most those behind. -/
theorem firstBelow_iff_of_split {before after : List α} (hsplit : l = before ++ a :: after)
    (hbefore : a ∉ before) (hafter : a ∉ after) :
    FirstBelow key bound l a ↔
      key a < bound ∧ (∀ b ∈ before, key a < key b) ∧ ∀ b ∈ after, key a ≤ key b := by
  constructor
  · intro h
    obtain ⟨hlt, before', after', hsplit', hin, hbehind⟩ := h
    obtain ⟨rfl, -, rfl⟩ :=
      (List.append_cons_inj_of_notMem hbefore hafter).mp (hsplit.symm.trans hsplit')
    exact ⟨hlt, hin, hbehind⟩
  · intro h
    exact ⟨h.1, before, after, hsplit, h.2⟩

/-- A first least element that passes a filter is the first least one behind it. -/
theorem FirstBelow.filter {p : α → Bool} (h : FirstBelow key bound l a) (ha : p a = true) :
    FirstBelow key bound (l.filter p) a := by
  obtain ⟨hlt, before, after, rfl, hbefore, hafter⟩ := h
  refine ⟨hlt, before.filter p, after.filter p, ?_, ?_, ?_⟩
  · rw [List.filter_append, List.filter_cons_of_pos ha]
  · exact fun b hb => hbefore b (List.mem_of_mem_filter hb)
  · exact fun b hb => hafter b (List.mem_of_mem_filter hb)

/-- The loop keeps the start value or ends with the first least element. -/
theorem scan_cases (key : α → κ) (start : α) (l : List α) :
    (scan key start l = start ∧ ∀ a ∈ l, key start ≤ key a) ∨
      FirstBelow key (key start) l (scan key start l) := by
  induction l generalizing start with
  | nil => exact .inl ⟨rfl, by simp⟩
  | cons x t ih =>
      have hscan : scan key start (x :: t) = scan key (if key x < key start then x else start) t :=
        rfl
      by_cases hx : key x < key start
      · -- the loop goes on from `x`
        rw [hscan, if_pos hx]
        rcases ih x with ⟨hkept, hle⟩ | ⟨hlt, before, after, ht, hbefore, hafter⟩
        · rw [hkept]
          exact .inr ⟨hx, [], t, rfl, by simp, hle⟩
        · refine .inr ⟨hlt.trans hx, x :: before, after, by rw [List.cons_append, ← ht], ?_, hafter⟩
          intro b hb
          rcases List.mem_cons.mp hb with rfl | hb
          · exact hlt
          · exact hbefore b hb
      · have hle := not_lt.mp hx
        rw [hscan, if_neg hx]
        rcases ih start with ⟨hkept, hall⟩ | ⟨hlt, before, after, ht, hbefore, hafter⟩
        · refine .inl ⟨hkept, fun a ha => ?_⟩
          rcases List.mem_cons.mp ha with rfl | ha
          · exact hle
          · exact hall a ha
        · refine .inr ⟨hlt, x :: before, after, by rw [List.cons_append, ← ht], ?_, hafter⟩
          intro b hb
          rcases List.mem_cons.mp hb with rfl | hb
          · exact hlt.trans_le hle
          · exact hbefore b hb

/-- There is one first least element at most. -/
theorem FirstBelow.unique {a' : α} (h : FirstBelow key bound l a)
    (h' : FirstBelow key bound l a') : a = a' := by
  have hle := h.le a' h'.mem
  have hle' := h'.le a h.mem
  obtain ⟨-, before, after, hl, hbefore, -⟩ := h
  obtain ⟨-, before', after', hl', hbefore', -⟩ := h'
  rcases List.append_eq_append_iff.mp (hl.symm.trans hl') with ⟨mid, hb, ht⟩ | ⟨mid, hb, ht⟩
  · cases mid with
    | nil => exact (List.cons.inj ht).1
    | cons x mid =>
        obtain ⟨rfl, -⟩ := List.cons.inj ht
        have hin : a ∈ before' := by rw [hb]; exact List.mem_append_right _ List.mem_cons_self
        exact absurd hle (not_le.mpr (hbefore' a hin))
  · cases mid with
    | nil => exact (List.cons.inj ht).1.symm
    | cons x mid =>
        obtain ⟨rfl, -⟩ := List.cons.inj ht
        have hin : a' ∈ before := by rw [hb]; exact List.mem_append_right _ List.mem_cons_self
        exact absurd hle' (not_le.mpr (hbefore a' hin))

/-- The loop finds the first least element. -/
theorem scan_eq (key : α → κ) (start : α) (h : FirstBelow key (key start) l a) :
    scan key start l = a := by
  rcases scan_cases key start l with ⟨-, hall⟩ | hfound
  · exact absurd h.1 (not_lt.mpr (hall a h.mem))
  · exact hfound.unique h

/-- A key below the start's makes the loop find something. -/
theorem firstBelow_scan (key : α → κ) (start : α) (h : ∃ b ∈ l, key b < key start) :
    FirstBelow key (key start) l (scan key start l) := by
  rcases scan_cases key start l with ⟨-, hall⟩ | hfound
  · obtain ⟨b, hb, hlt⟩ := h
    exact absurd hlt (not_lt.mpr (hall b hb))
  · exact hfound

/-! ### Elements without a key -/

/-- The first of the elements that have a key whose key is least, and below a bound. -/
def FirstLeast (key : α → Option κ) (bound : κ) (l : List α) (a : α) : Prop :=
  ∃ k, key a = some k ∧ k < bound ∧ ∃ before after, l = before ++ a :: after ∧
    (∀ b ∈ before, ∀ k', key b = some k' → k < k') ∧
      ∀ b ∈ after, ∀ k', key b = some k' → k ≤ k'

theorem FirstLeast.mem {key : α → Option κ} (h : FirstLeast key bound l a) : a ∈ l := by
  obtain ⟨k, -, -, before, after, rfl, -, -⟩ := h
  exact List.mem_append_right before List.mem_cons_self

/-- The first least element of what a function keeps of a list. -/
theorem firstBelow_filterMap {β : Type*} {key : β → κ} {f : α → Option β} {b : β} :
    FirstBelow key bound (l.filterMap f) b ↔
      ∃ a, f a = some b ∧ FirstLeast (fun a => (f a).map key) bound l a := by
  have hkept : ∀ {xs : List α} {p : κ → Prop},
      (∀ y ∈ xs.filterMap f, p (key y)) ↔ ∀ x ∈ xs, ∀ k, (f x).map key = some k → p k := by
    intro xs p
    simp only [List.mem_filterMap, Option.map_eq_some_iff]
    constructor
    · rintro h x hx k ⟨y, hy, rfl⟩
      exact h y ⟨x, hx, hy⟩
    · rintro h y ⟨x, hx, hy⟩
      exact h x hx _ ⟨y, hy, rfl⟩
  constructor
  · intro h
    obtain ⟨hlt, before, after, hsplit, hbefore, hafter⟩ := h
    obtain ⟨front, back, rfl, rfl, hback⟩ := List.filterMap_eq_append_iff.mp hsplit
    obtain ⟨skipped, a, rest, rfl, hskipped, ha, rfl⟩ := List.filterMap_eq_cons_iff.mp hback
    refine ⟨a, ha, key b, by simp [ha], hlt, front ++ skipped, rest, by simp, ?_, hkept.mp hafter⟩
    intro x hx k hk
    rcases List.mem_append.mp hx with hx | hx
    · exact hkept.mp hbefore x hx k hk
    · have hnone : (f x).map key = none := by rw [hskipped x hx, Option.map_none]
      cases hnone.symm.trans hk
  · intro h
    obtain ⟨a, ha, k, hk, hlt, before, after, rfl, hbefore, hafter⟩ := h
    have hkey : (f a).map key = some (key b) := by rw [ha, Option.map_some]
    cases hkey.symm.trans hk
    refine ⟨hlt, before.filterMap f, after.filterMap f, ?_, hkept.mpr hbefore, hkept.mpr hafter⟩
    rw [List.filterMap_append, List.filterMap_cons_some ha]

/-- The element at a position of a filtered list has as many elements of it in front. -/
theorem getElem?_filter_eq_some {p : α → Bool} {i : Nat} :
    (l.filter p)[i]? = some a ↔
      ∃ before after, l = before ++ a :: after ∧ p a = true ∧ before.countP p = i := by
  constructor
  · intro h
    obtain ⟨hi, hget⟩ := List.getElem?_eq_some_iff.mp h
    have hsplit : l.filter p = (l.filter p).take i ++ a :: (l.filter p).drop (i + 1) := by
      rw [← hget, List.getElem_cons_drop, List.take_append_drop]
    obtain ⟨front, back, rfl, hfront, hback⟩ := List.filter_eq_append_iff.mp hsplit
    obtain ⟨skipped, rest, rfl, hskipped, ha, -⟩ := List.filter_eq_cons_iff.mp hback
    refine ⟨front ++ skipped, rest, by simp, ha, ?_⟩
    have hnone : skipped.countP p = 0 := List.countP_eq_zero.mpr hskipped
    rw [List.countP_append, hnone, List.countP_eq_length_filter, hfront, List.length_take]
    omega
  · intro h
    obtain ⟨before, after, rfl, ha, rfl⟩ := h
    rw [List.filter_append, List.filter_cons_of_pos ha, List.countP_eq_length_filter,
      List.getElem?_append_right (Nat.le_refl _), Nat.sub_self, List.getElem?_cons_zero]

end Scan
