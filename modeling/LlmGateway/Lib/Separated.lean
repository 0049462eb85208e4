import Mathlib.Data.List.Basic
import Mathlib.Tactic

/-!
# Texts joined with a separator

Joining a list of fields with a separator that the fields may themselves
contain loses the boundaries between the fields, and nothing else: what is
left is the list of pieces between separators.  Two lists of fields with the
same pieces are the same list exactly when they group the pieces alike.
-/

namespace Separated

variable {α : Type} [BEq α] [LawfulBEq α]

/-- Splitting a joined text recovers the pieces of its fields, in order. -/
theorem splitOn_intercalate_eq_flatMap (x : α) {fields : List (List α)} (hne : fields ≠ []) :
    ([x].intercalate fields).splitOn x = fields.flatMap (List.splitOn x) := by
  induction fields with
  | nil => exact absurd rfl hne
  | cons field rest ih =>
      cases rest with
      | nil => simp
      | cons next rest =>
          rw [List.intercalate_cons_cons, List.append_assoc, List.singleton_append,
            List.splitOn_append_cons_self, ih (List.cons_ne_nil _ _)]
          exact List.flatMap_cons.symm

/-- A joined text is determined by the pieces of its fields, and determines
them. -/
theorem intercalate_inj_iff (x : α) {fields fields' : List (List α)}
    (hne : fields ≠ []) (hne' : fields' ≠ []) :
    [x].intercalate fields = [x].intercalate fields' ↔
      fields.flatMap (List.splitOn x) = fields'.flatMap (List.splitOn x) := by
  rw [← splitOn_intercalate_eq_flatMap x hne, ← splitOn_intercalate_eq_flatMap x hne']
  constructor
  · intro h
    rw [h]
  · intro h
    have := congrArg [x].intercalate h
    simpa using this

/-- The same pieces in groups of the same sizes come from the same fields. -/
theorem eq_of_pieces_eq (x : α) {fields fields' : List (List α)}
    (hpieces : fields.flatMap (List.splitOn x) = fields'.flatMap (List.splitOn x))
    (hsizes : (fields.map fun f => (f.splitOn x).length) =
      fields'.map fun f => (f.splitOn x).length) :
    fields = fields' := by
  induction fields generalizing fields' with
  | nil =>
      cases fields' with
      | nil => rfl
      | cons _ _ => simp at hsizes
  | cons f fs ih =>
      cases fields' with
      | nil => simp at hsizes
      | cons g gs =>
          rw [List.map_cons, List.map_cons, List.cons.injEq] at hsizes
          rw [List.flatMap_cons, List.flatMap_cons] at hpieces
          obtain ⟨hhead, htail⟩ := List.append_inj hpieces hsizes.1
          have hfg := congrArg [x].intercalate hhead
          simp only [List.intercalate_splitOn] at hfg
          rw [hfg, ih htail hsizes.2]

end Separated
