import LlmGateway.Lib.Lru

/-!
# What a write evicts

A write cuts the store back from its far end before it sweeps, so which slots
it gives up is decided by recency and not by expiry.  `write_evicts` says where
a fresh slot that is given up stood.  The cut takes a fresh slot only after
every stale one exactly when no stale slot stands in front of a fresh one that
the cut reaches (`cut_iff`), and then only because the fresh slots alone fill
the capacity (`full_of_freshInFront`).

In a store ordered by its log of touches, to stand in front is to be touched more
recently, and the laws speak of the log alone (`write_evicts_least_recent`,
`freshInFront_iff`).
-/

namespace Lru

variable {κ ν τ : Type} [DecidableEq κ] [LinearOrder τ]

/-- A stored slot whose key is no longer stored. -/
def Evicted (xs ys : List (Slot κ ν τ)) (s : Slot κ ν τ) : Prop :=
  s ∈ xs ∧ ∀ a ∈ ys, a.key ≠ s.key

/-- A fresh slot beyond the first `cap - 1` has only fresh ones in front. -/
def FreshInFront (cap : Nat) (now : τ) (xs : List (Slot κ ν τ)) : Prop :=
  ∀ before s rest, xs = before ++ s :: rest → cap ≤ before.length + 1 → ¬ s.Expired now →
    ∀ b ∈ before, ¬ b.Expired now

variable {cap : Nat} {now : τ} {xs : List (Slot κ ν τ)} {s b : Slot κ ν τ}

/-- A slot that a write gives up has another key. -/
theorem Evicted.mem_remove (h : Evicted xs (write cap now s xs) b) : b ∈ remove s.key xs :=
  Lru.mem_remove.mpr ⟨h.1, fun hkey => h.2 s List.mem_cons_self hkey.symm⟩

/-- A fresh slot is given up for want of room, and so is what stands behind it. -/
theorem write_evicts (hnodup : (xs.map Slot.key).Nodup)
    (h : Evicted xs (write cap now s xs) b) (hfresh : ¬ b.Expired now) :
    ∃ before rest, remove s.key xs = before ++ b :: rest ∧ cap ≤ before.length + 1 ∧
      ∀ d ∈ rest, Evicted xs (write cap now s xs) d := by
  obtain ⟨before, rest, hsplit⟩ := List.append_of_mem h.mem_remove
  have hfar : cap - 1 ≤ before.length := by
    refine not_lt.mp fun hnear => ?_
    have hkept := mem_kept hsplit hnear hfresh
    exact h.2 b (List.mem_cons_of_mem s hkept) rfl
  refine ⟨before, rest, hsplit, by omega, fun d hd => ?_⟩
  have hother : d ∈ remove s.key xs := by
    rw [hsplit]
    exact List.mem_append_right _ (List.mem_cons_of_mem b hd)
  refine ⟨(Lru.mem_remove.mp hother).1, fun a ha => ?_⟩
  rcases List.mem_cons.mp ha with rfl | hkept
  · exact fun hkey => (Lru.mem_remove.mp hother).2 hkey.symm
  · -- what is kept stands before the slot given up
    have hroom : a ∈ room cap s.key xs := (kept_sublist cap now s.key xs).subset hkept
    have hbefore : a ∈ before := by
      unfold room at hroom
      rw [hsplit, List.take_append_of_le_length hfar] at hroom
      exact List.mem_of_mem_take hroom
    have hkeys : ((before ++ b :: rest).map Slot.key).Nodup := by
      rw [← hsplit]
      exact ((remove_sublist s.key xs).map _).nodup hnodup
    rw [List.map_append] at hkeys
    have hbehind : d.key ∈ (b :: rest).map Slot.key :=
      List.mem_map_of_mem (List.mem_cons_of_mem b hd)
    intro hkey
    exact List.disjoint_of_nodup_append hkeys (List.mem_map_of_mem hbefore) (hkey ▸ hbehind)

omit [DecidableEq κ] in
/-- The cut takes the last slot turn by turn.  It takes a fresh one only when all
that are left are fresh, exactly if the fresh slots it reaches have only fresh
ones in front. -/
theorem cut_iff :
    (∀ turns back, cap ≤ (xs.take (xs.length - turns)).length →
        (xs.take (xs.length - turns)).getLast? = some back → ¬ back.Expired now →
        ∀ a ∈ xs.take (xs.length - turns), ¬ a.Expired now) ↔
      FreshInFront cap now xs := by
  constructor
  · intro h before b rest hsplit hfar hfresh a ha
    have hlength : xs.length - rest.length = before.length + 1 := by
      rw [hsplit, List.length_append, List.length_cons]
      omega
    have htake : xs.take (xs.length - rest.length) = before ++ [b] := by
      rw [hlength, hsplit, List.take_append, List.take_of_length_le (Nat.le_succ _),
        Nat.add_sub_cancel_left]
      rfl
    have hturn := h rest.length b
    rw [htake] at hturn
    have hlong : cap ≤ (before ++ [b]).length := by
      rw [List.length_append]
      exact hfar
    exact hturn hlong (List.getLast?_concat ..) hfresh a (List.mem_append_left _ ha)
  · intro h turns back hlong hlast hfresh a ha
    obtain ⟨before, htake⟩ := List.getLast?_eq_some_iff.mp hlast
    have hsplit : xs = before ++ back :: xs.drop (xs.length - turns) := by
      conv_lhs => rw [← List.take_append_drop (xs.length - turns) xs, htake]
      rw [List.append_assoc]
      rfl
    rw [htake, List.length_append] at hlong
    rw [htake] at ha
    rcases List.mem_append.mp ha with hbefore | hback
    · exact h before back _ hsplit hlong hfresh a hbefore
    · rw [List.mem_singleton.mp hback]
      exact hfresh

/-- Then a fresh slot is given up only if the fresh ones of other keys fill the
capacity. -/
theorem full_of_freshInFront (hfront : FreshInFront cap now (remove s.key xs))
    (hnodup : (xs.map Slot.key).Nodup) (h : Evicted xs (write cap now s xs) b)
    (hfresh : ¬ b.Expired now) : cap ≤ (sweep now (remove s.key xs)).length := by
  obtain ⟨before, rest, hsplit, hfar, -⟩ := write_evicts hnodup h hfresh
  have hbefore : sweep now before = before :=
    List.filter_eq_self.mpr fun a ha =>
      decide_eq_true (hfront before b rest hsplit hfar hfresh a ha)
  have hsweep : sweep now (before ++ b :: rest) = before ++ b :: sweep now rest := by
    have hkeep : sweep now (b :: rest) = b :: sweep now rest :=
      List.filter_cons_of_pos (decide_eq_true hfresh)
    have happend : sweep now (before ++ b :: rest) = sweep now before ++ sweep now (b :: rest) :=
      List.filter_append before (b :: rest)
    rw [happend, hbefore, hkeep]
  rw [hsplit, hsweep, List.length_append, List.length_cons]
  omega

/-! ### In terms of the log -/

/-- The slots of other keys touched more recently than `s`. -/
def recent (log : List κ) (s : Slot κ ν τ) (xs : List (Slot κ ν τ)) : List (Slot κ ν τ) :=
  xs.filter fun a => a.key ∈ othersSince s.key log

omit [LinearOrder τ] in
@[simp] theorem mem_recent {log : List κ} {a : Slot κ ν τ} :
    a ∈ recent log s xs ↔ a ∈ xs ∧ a.key ∈ othersSince s.key log := by
  simp [recent]

/-- Of two keys one was touched last. -/
theorem othersSince_asymm {k k' : κ} {log : List κ} (h : k ∈ othersSince k' log) :
    k' ∉ othersSince k log := by
  unfold othersSince at h ⊢
  rw [List.mem_toFinset] at h ⊢
  induction log with
  | nil => cases h
  | cons x log ih =>
      rw [List.takeWhile_cons] at h ⊢
      split at h
      · next hx' =>
          split
          · next hx =>
              rcases List.mem_cons.mp h with rfl | h
              · exact absurd rfl (of_decide_eq_true hx)
              · intro hin
                rcases List.mem_cons.mp hin with rfl | hin
                · exact absurd rfl (of_decide_eq_true hx')
                · exact ih h hin
          · exact List.not_mem_nil
      · cases h

omit [LinearOrder τ] in
/-- What was touched more recently than a slot is what stands in front of it. -/
theorem recent_eq {log : List κ} {before rest : List (Slot κ ν τ)}
    (h : Ordered log (before ++ s :: rest)) : recent log s (before ++ s :: rest) = before := by
  obtain ⟨-, hrest, hfront⟩ := List.pairwise_append.mp h
  have hself : s.key ∉ othersSince s.key log := fun hin => othersSince_asymm hin hin
  have hbehind : ∀ a ∈ rest, a.key ∉ othersSince s.key log :=
    fun a ha => othersSince_asymm ((List.pairwise_cons.mp hrest).1 a ha)
  have hdropped : recent log s rest = [] :=
    List.filter_eq_nil_iff.mpr fun a ha => by simpa using hbehind a ha
  have hkept : recent log s before = before :=
    List.filter_eq_self.mpr fun a ha => decide_eq_true (hfront a ha s List.mem_cons_self)
  calc recent log s (before ++ s :: rest)
      = recent log s before ++ recent log s rest := by
        unfold recent
        rw [List.filter_append, List.filter_cons_of_neg (by simpa using hself)]
    _ = before := by rw [hkept, hdropped, List.append_nil]

/-- A fresh slot is given up only if the slots of other keys touched more recently
leave it no room, and then every other slot touched less recently is given up
too. -/
theorem write_evicts_least_recent {log : List κ} (hlog : Ordered log xs)
    (hnodup : (xs.map Slot.key).Nodup) (h : Evicted xs (write cap now s xs) b)
    (hfresh : ¬ b.Expired now) :
    cap ≤ (recent log b (remove s.key xs)).length + 1 ∧
      ∀ d ∈ remove s.key xs, b ∈ recent log d (remove s.key xs) →
        Evicted xs (write cap now s xs) d := by
  obtain ⟨before, rest, hsplit, hfar, hrest⟩ := write_evicts hnodup h hfresh
  have hordered : Ordered log (before ++ b :: rest) :=
    hsplit ▸ List.Pairwise.sublist (remove_sublist s.key xs) hlog
  refine ⟨by rw [hsplit, recent_eq hordered]; exact hfar, fun d hd hearlier => ?_⟩
  have hbefore : d ∉ before := by
    intro hin
    rw [← recent_eq hordered] at hin
    exact othersSince_asymm (mem_recent.mp hin).2 (mem_recent.mp hearlier).2
  have hother : d ≠ b := by
    rintro rfl
    exact othersSince_asymm (mem_recent.mp hearlier).2 (mem_recent.mp hearlier).2
  rw [hsplit] at hd
  rcases List.mem_append.mp hd with hin | hin
  · exact absurd hin hbefore
  · exact hrest d ((List.mem_cons.mp hin).resolve_left hother)

theorem freshInFront_iff {log : List κ} (hlog : Ordered log xs) :
    FreshInFront cap now xs ↔
      ∀ s ∈ xs, cap ≤ (recent log s xs).length + 1 → ¬ s.Expired now →
        ∀ b ∈ recent log s xs, ¬ b.Expired now := by
  constructor
  · intro h s hs hfar hfresh
    obtain ⟨before, rest, rfl⟩ := List.append_of_mem hs
    rw [recent_eq hlog] at hfar ⊢
    exact h before s rest rfl hfar hfresh
  · intro h before s rest hsplit hfar hfresh
    subst hsplit
    have hs := h s (List.mem_append_right _ List.mem_cons_self)
    rw [recent_eq hlog] at hs
    exact hs hfar hfresh

end Lru
