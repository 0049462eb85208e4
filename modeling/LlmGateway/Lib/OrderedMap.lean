import Mathlib.Data.List.Sigma
import Mathlib.Order.RelClasses

/-!
# Maps in key order

A map that is iterated in the order of its keys is a list of entries with
increasing keys.  `ofList` builds it from any association list, of which the first
entry of a key counts, as it does for a lookup.
-/

namespace OrderedMap

variable {κ ν : Type} [LT κ] [DecidableLT κ] [BEq κ]

/-- Enter a value under a key, in the place of the one that was there. -/
def enter (k : κ) (v : ν) : List (κ × ν) → List (κ × ν)
  | [] => [(k, v)]
  | e :: rest =>
      if k < e.1 then (k, v) :: e :: rest
      else if k == e.1 then (k, v) :: rest
      else e :: enter k v rest

/-- The entries of an association list in the order of their keys. -/
def ofList (entries : List (κ × ν)) : List (κ × ν) :=
  entries.foldr (fun e m => enter e.1 e.2 m) []

/-- The keys increase. -/
def Sorted (m : List (κ × ν)) : Prop := m.Pairwise fun e e' => e.1 < e'.1

/-- Nothing is found that was not entered or there before. -/
theorem mem_enter {k : κ} {v : ν} {e : κ × ν} {m : List (κ × ν)} (h : e ∈ enter k v m) :
    e = (k, v) ∨ e ∈ m := by
  induction m with
  | nil => exact .inl (List.mem_singleton.mp h)
  | cons e' rest ih =>
      unfold enter at h
      split_ifs at h
      · exact List.mem_cons.mp h
      · exact (List.mem_cons.mp h).imp_right fun hrest => List.mem_cons_of_mem e' hrest
      · rcases List.mem_cons.mp h with rfl | hrest
        · exact .inr List.mem_cons_self
        · exact (ih hrest).imp_right fun hrest => List.mem_cons_of_mem e' hrest

/-- A sorted list is its own map. -/
theorem ofList_of_sorted {m : List (κ × ν)} (h : Sorted m) : ofList m = m := by
  induction m with
  | nil => rfl
  | cons e rest ih =>
      obtain ⟨hfirst, hrest⟩ := List.pairwise_cons.mp h
      have hstep : ofList (e :: rest) = enter e.1 e.2 (ofList rest) := rfl
      rw [hstep, ih hrest]
      cases rest with
      | nil => rfl
      | cons e' rest => rw [enter, if_pos (hfirst e' List.mem_cons_self)]

section Lookup

variable [LawfulBEq κ]

/-- What was entered is found. -/
theorem lookup_enter_self (k : κ) (v : ν) (m : List (κ × ν)) :
    (enter k v m).lookup k = some v := by
  induction m with
  | nil => exact List.lookup_cons_self
  | cons e rest ih =>
      rw [enter]
      split_ifs with hbefore hsame
      · exact List.lookup_cons_self
      · exact List.lookup_cons_self
      · rw [List.lookup_cons, beq_false_of_ne fun heq => hsame (beq_iff_eq.mpr heq)]
        exact ih

/-- The other keys keep their values. -/
theorem lookup_enter_of_ne {k k' : κ} (hne : k' ≠ k) (v : ν) (m : List (κ × ν)) :
    (enter k v m).lookup k' = m.lookup k' := by
  have hother : (k' == k) = false := beq_false_of_ne hne
  induction m with
  | nil =>
      rw [enter, List.lookup_cons, hother]
  | cons e rest ih =>
      rw [enter]
      split_ifs with hbefore hsame
      · rw [List.lookup_cons, hother]
      · rw [List.lookup_cons, List.lookup_cons, hother, ← eq_of_beq hsame, hother]
      · rw [List.lookup_cons, List.lookup_cons, ih]

theorem lookup_ofList (entries : List (κ × ν)) (k : κ) :
    (ofList entries).lookup k = entries.lookup k := by
  induction entries with
  | nil => rfl
  | cons e rest ih =>
      have hstep : ofList (e :: rest) = enter e.1 e.2 (ofList rest) := rfl
      rw [hstep, List.lookup_cons]
      by_cases hkey : k = e.1
      · rw [hkey, lookup_enter_self, beq_self_eq_true]
      · rw [lookup_enter_of_ne hkey, ih, beq_false_of_ne hkey]

variable [IsTrans κ (· < ·)] [Std.Trichotomous fun a b : κ => a < b]

/-- Entering keeps the order. -/
theorem sorted_enter (k : κ) (v : ν) {m : List (κ × ν)} (h : Sorted m) : Sorted (enter k v m) := by
  induction m with
  | nil => exact List.pairwise_singleton _ _
  | cons e rest ih =>
      obtain ⟨hfirst, hrest⟩ := List.pairwise_cons.mp h
      unfold enter
      split_ifs with hbefore hsame
      · refine List.pairwise_cons.mpr ⟨fun e' he' => ?_, h⟩
        rcases List.mem_cons.mp he' with rfl | he'
        · exact hbefore
        · exact IsTrans.trans _ _ _ hbefore (hfirst e' he')
      · obtain rfl := eq_of_beq hsame
        exact List.pairwise_cons.mpr ⟨hfirst, hrest⟩
      · have hafter : e.1 < k := by
          by_contra hnot
          exact hsame (beq_iff_eq.mpr (Std.Trichotomous.trichotomous _ _ hbefore hnot))
        refine List.pairwise_cons.mpr ⟨fun e' he' => ?_, ih hrest⟩
        rcases mem_enter he' with rfl | he'
        · exact hafter
        · exact hfirst e' he'

theorem sorted_ofList (entries : List (κ × ν)) : Sorted (ofList entries) := by
  induction entries with
  | nil => exact List.Pairwise.nil
  | cons e rest ih => exact sorted_enter e.1 e.2 ih

end Lookup

omit [DecidableLT κ] [BEq κ] in
/-- Sorted keys are distinct. -/
theorem Sorted.nodup [Std.Irrefl fun a b : κ => a < b] {m : List (κ × ν)} (h : Sorted m) :
    (m.map Prod.fst).Nodup := by
  refine List.pairwise_map.mpr (h.imp fun {e e'} hlt heq => ?_)
  rw [heq] at hlt
  exact Std.Irrefl.irrefl _ hlt

end OrderedMap
