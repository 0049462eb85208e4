import Mathlib.Data.List.Basic
import Mathlib.Data.List.Nodup
import Mathlib.Tactic

/-!
# Linked lists and their iterators

A list of nodes with identities.  An iterator is the identity of its node, or
`none` past the end.  It is read against the list as it is now, so that erasing a
node moves what stands in front of an iterator and what stands behind it.  Where
the identities are distinct, an iterator between `front` and `back` is the begin
of `back`, and the lemmas say where a step takes it.
-/

namespace Cursor

variable {β ι : Type*} [DecidableEq ι] (ident : β → ι)

/-- `begin()`. -/
def start (nodes : List β) : Option ι := nodes.head?.map ident

/-- The nodes in front of an iterator. -/
def before (nodes : List β) (it : Option ι) : List β :=
  nodes.takeWhile fun n => some (ident n) ≠ it

/-- `--it`; there is none in front of the first node. -/
def prev (nodes : List β) (it : Option ι) : Option ι := (before ident nodes it).getLast?.map ident

/-- `++it`, which is what `erase(it)` returns. -/
def next (nodes : List β) (it : ι) : Option ι :=
  start ident (nodes.dropWhile fun n => ident n ≠ it).tail

variable {ident} {front back : List β} {n : β}

theorem before_start (h : ((front ++ back).map ident).Nodup) :
    before ident (front ++ back) (start ident back) = front := by
  rw [List.map_append, List.nodup_append] at h
  obtain ⟨-, -, hdisjoint⟩ := h
  have hfront : ∀ a ∈ front, decide (some (ident a) ≠ start ident back) = true := by
    intro a ha
    refine decide_eq_true fun heq => ?_
    obtain ⟨b, hb, hident⟩ := Option.map_eq_some_iff.mp heq.symm
    exact hdisjoint _ (List.mem_map_of_mem ha) _ (List.mem_map_of_mem (List.mem_of_head? hb))
      hident.symm
  rw [before, List.takeWhile_append_of_pos hfront]
  cases back with
  | nil => exact List.append_nil front
  | cons b back =>
      rw [List.takeWhile_cons_of_neg (by simp [start]), List.append_nil]

/-- The iterator is at the first node exactly when nothing is in front of it. -/
theorem start_eq_iff (h : ((front ++ back).map ident).Nodup) :
    start ident back = start ident (front ++ back) ↔ front = [] := by
  constructor
  · intro heq
    have hnone : before ident ([] ++ (front ++ back)) (start ident (front ++ back)) = [] :=
      before_start h
    rw [List.nil_append, ← heq, before_start h] at hnone
    exact hnone
  · intro hnil
    rw [hnil, List.nil_append]

theorem prev_start (h : ((front ++ n :: back).map ident).Nodup) :
    prev ident (front ++ n :: back) (start ident back) = some (ident n) := by
  have hsplit : front ++ n :: back = (front ++ [n]) ++ back := by
    rw [List.append_assoc, List.singleton_append]
  rw [hsplit] at h ⊢
  rw [prev, before_start h, List.getLast?_concat, Option.map_some]

theorem next_eq (h : ((front ++ n :: back).map ident).Nodup) :
    next ident (front ++ n :: back) (ident n) = start ident back := by
  rw [List.map_append, List.nodup_append] at h
  obtain ⟨-, -, hdisjoint⟩ := h
  have hfront : ∀ a ∈ front, decide (ident a ≠ ident n) = true := by
    intro a ha
    exact decide_eq_true fun heq => hdisjoint _ (List.mem_map_of_mem ha) _
      (List.mem_map_of_mem List.mem_cons_self) heq
  rw [next, List.dropWhile_append_of_pos hfront, List.dropWhile_cons_of_neg (by simp),
    List.tail_cons]

end Cursor
