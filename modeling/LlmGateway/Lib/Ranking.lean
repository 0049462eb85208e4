import Mathlib.Data.List.Duplicate
import Mathlib.Data.List.Sort
import Mathlib.Tactic

/-!
# The front of a ranking

Elements with a key and a label are arranged by descending key, ties either way.
`take_nodup_iff` says when the first `k + 1` of them have distinct labels in
every such arrangement: of any two elements with one label, the lower is outdone
by at least `k` others.
-/

namespace Ranking

variable {α β κ : Type*} [LinearOrder κ] (key : α → κ) (label : α → β)

/-- The list arranges the elements by descending key. -/
structure Ranks (xs l : List α) : Prop where
  perm : l.Perm xs
  sorted : l.Pairwise fun a b => key b ≤ key a

/-- Of any two elements with one label, at least `k` others are strictly above
the lower one. -/
def Outranked (k : Nat) (xs : List α) : Prop :=
  ∀ c d rest, (c :: d :: rest).Perm xs → label c = label d →
    k ≤ rest.countP fun a => min (key c) (key d) < key a

variable {key label} {k : Nat} {xs l : List α}

/-- Two elements of a list, one behind the other, and what lies around them. -/
theorem split_of_pair_sublist {c d : α} (h : [c, d].Sublist l) :
    ∃ before between behind, l = before ++ c :: (between ++ d :: behind) := by
  obtain ⟨front, back, rfl, hc, hd⟩ := List.cons_sublist_iff.mp h
  obtain ⟨before, between, rfl⟩ := List.append_of_mem hc
  obtain ⟨more, behind, rfl⟩ := List.append_of_mem (List.singleton_sublist.mp hd)
  exact ⟨before, between ++ more, behind, by simp⟩

/-- In the front of an arrangement, two elements with one label would leave too
few elements above the lower one. -/
theorem take_nodup (h : Outranked key label k xs) (hl : Ranks key xs l) :
    ((l.take (k + 1)).map label).Nodup := by
  by_contra hdup
  obtain ⟨x, hx⟩ := List.exists_duplicate_iff_not_nodup.mpr hdup
  obtain ⟨pair, hpair, hlabels⟩ := List.sublist_map_iff.mp (List.duplicate_iff_sublist.mp hx)
  obtain ⟨c, d, rfl⟩ : ∃ c d, pair = [c, d] :=
    List.length_eq_two.mp (by rw [← List.length_map label, ← hlabels]; rfl)
  obtain ⟨hc, hd⟩ : x = label c ∧ x = label d := by simpa using hlabels
  obtain ⟨before, between, behind, hfront⟩ := split_of_pair_sublist hpair
  have hsplit : l = before ++ c :: (between ++ d :: (behind ++ l.drop (k + 1))) := by
    conv_lhs => rw [← List.take_append_drop (k + 1) l, hfront]
    simp
  have hlength : before.length + between.length + 2 ≤ k + 1 := by
    have hshort := List.length_take_le (k + 1) l
    rw [hfront] at hshort
    simp only [List.length_append, List.length_cons] at hshort
    omega
  have hsorted := hl.sorted
  rw [hsplit] at hsorted
  obtain ⟨-, hsorted, -⟩ := List.pairwise_append.mp hsorted
  obtain ⟨hbelow, hsorted⟩ := List.pairwise_cons.mp hsorted
  obtain ⟨-, hsorted, -⟩ := List.pairwise_append.mp hsorted
  have hlower : key d ≤ key c :=
    hbelow d (List.mem_append_right _ List.mem_cons_self)
  have hbehind := (List.pairwise_cons.mp hsorted).1
  have hperm : (c :: d :: (before ++ (between ++ (behind ++ l.drop (k + 1))))).Perm xs := by
    refine List.Perm.trans ?_ hl.perm
    conv_rhs => rw [hsplit]
    refine List.Perm.trans ?_ List.perm_middle.symm
    refine List.Perm.cons c ?_
    rw [← List.append_assoc, ← List.append_assoc before]
    exact List.perm_middle.symm
  have hmany := h c d _ hperm (hc.symm.trans hd)
  have hnone : (behind ++ l.drop (k + 1)).countP (fun a => min (key c) (key d) < key a) = 0 := by
    rw [List.countP_eq_zero]
    intro a ha
    rw [min_eq_right hlower, decide_eq_true_eq]
    exact not_lt.mpr (hbehind a ha)
  rw [List.countP_append, List.countP_append, hnone] at hmany
  have hfew := List.countP_le_length (p := fun a => min (key c) (key d) < key a) (l := before)
  have hfew' := List.countP_le_length (p := fun a => min (key c) (key d) < key a) (l := between)
  omega

/-- The elements in descending order. -/
def descending (key : α → κ) (xs : List α) : List α :=
  xs.insertionSort fun a b => key b ≤ key a

theorem ranks_descending (xs : List α) : Ranks key xs (descending key xs) where
  perm := List.perm_insertionSort _ xs
  sorted := by
    have htotal : Std.Total fun a b : α => key b ≤ key a := ⟨fun a b => le_total _ _⟩
    have htrans : IsTrans α fun a b => key b ≤ key a := ⟨fun a b c hab hbc => hbc.trans hab⟩
    exact List.pairwise_insertionSort (fun a b : α => key b ≤ key a) xs

/-- Two elements with one label, the lower with few others above it, can both be
arranged in the front. -/
theorem exists_crowded_front {c d : α} {rest : List α} (hperm : (c :: d :: rest).Perm xs)
    (hlabel : label c = label d) (hlower : key d ≤ key c)
    (hfew : (rest.countP fun a => key d < key a) < k) :
    ∃ l, Ranks key xs l ∧ ¬ ((l.take (k + 1)).map label).Nodup := by
  let above := descending key (c :: rest.filter fun a => key d < key a)
  let below := descending key (rest.filter fun a => ¬ key d < key a)
  have habove : Ranks key (c :: rest.filter fun a => key d < key a) above := ranks_descending _
  have hbelow : Ranks key (rest.filter fun a => ¬ key d < key a) below := ranks_descending _
  have hlength : above.length ≤ k := by
    rw [habove.perm.length_eq, List.length_cons, ← List.countP_eq_length_filter]
    omega
  refine ⟨above ++ d :: below, ⟨?_, ?_⟩, ?_⟩
  · calc (above ++ d :: below).Perm (d :: (above ++ below)) := List.perm_middle
      List.Perm _ (d :: (c :: rest)) := by
        refine List.Perm.cons d ((habove.perm.append hbelow.perm).trans ?_)
        rw [List.cons_append]
        refine List.Perm.cons c ?_
        simp only [decide_not]
        exact List.filter_append_perm _ rest
      List.Perm _ (c :: d :: rest) := List.Perm.swap c d rest
      List.Perm _ xs := hperm
  · have hhigh : ∀ a ∈ above, key d ≤ key a := by
      intro a ha
      rcases List.mem_cons.mp (habove.perm.mem_iff.mp ha) with rfl | ha
      · exact hlower
      · exact (by simpa using (List.mem_filter.mp ha).2 : key d < key a).le
    have hlow : ∀ b ∈ below, key b ≤ key d := by
      intro b hb
      simpa using (List.mem_filter.mp (hbelow.perm.mem_iff.mp hb)).2
    refine List.pairwise_append.mpr ⟨habove.sorted, ?_, ?_⟩
    · exact List.pairwise_cons.mpr ⟨hlow, hbelow.sorted⟩
    · intro a ha b hb
      rcases List.mem_cons.mp hb with rfl | hb
      · exact hhigh a ha
      · exact (hlow b hb).trans (hhigh a ha)
  · intro hnodup
    obtain ⟨m, hm⟩ : ∃ m, k + 1 - above.length = m + 1 := ⟨k - above.length, by omega⟩
    rw [List.take_append, List.take_of_length_le (by omega), hm, List.take_succ_cons,
      List.map_append, List.map_cons] at hnodup
    have hc : label c ∈ above.map label :=
      List.mem_map_of_mem (habove.perm.mem_iff.mpr List.mem_cons_self)
    exact List.disjoint_of_nodup_append hnodup hc (hlabel ▸ List.mem_cons_self)

/-- **Distinct labels in front.** -/
theorem take_nodup_iff :
    (∀ l, Ranks key xs l → ((l.take (k + 1)).map label).Nodup) ↔ Outranked key label k xs := by
  constructor
  · intro h c d rest hperm hlabel
    by_contra hfew
    rw [not_le] at hfew
    rcases le_total (key d) (key c) with hle | hle
    · rw [min_eq_right hle] at hfew
      obtain ⟨l, hl, hdup⟩ := exists_crowded_front hperm hlabel hle hfew
      exact hdup (h l hl)
    · rw [min_eq_left hle] at hfew
      obtain ⟨l, hl, hdup⟩ :=
        exists_crowded_front ((List.Perm.swap c d rest).trans hperm) hlabel.symm hle hfew
      exact hdup (h l hl)
  · intro h l hl
    exact take_nodup h hl

/-- A permutation of an image is the image of a permutation. -/
theorem exists_perm_map {f : α → β} {xs : List α} {l : List β} (h : l.Perm (xs.map f)) :
    ∃ ranked : List α, l = ranked.map f ∧ ranked.Perm xs := by
  have hcomp := congrFun (congrFun (List.eq_map_comp_perm f) l) xs
  exact hcomp.mpr h

/-- Elements may be ranked by what a function makes of them. -/
theorem outranked_map {γ : Type*} {f : γ → α} {ys : List γ} :
    Outranked key label k (ys.map f) ↔
      Outranked (fun c => key (f c)) (fun c => label (f c)) k ys := by
  constructor
  · intro h c d rest hperm hlabel
    have hmany := h (f c) (f d) (rest.map f) (hperm.map f) hlabel
    rwa [List.countP_map] at hmany
  · intro h c d rest hperm hlabel
    obtain ⟨ranked, hsplit, hranked⟩ := exists_perm_map hperm
    obtain ⟨c', ranked, rfl⟩ : ∃ c' more, ranked = c' :: more := by
      cases ranked with
      | nil => cases hsplit
      | cons c' more => exact ⟨c', more, rfl⟩
    obtain ⟨d', ranked, rfl⟩ : ∃ d' more, ranked = d' :: more := by
      cases ranked with
      | nil => cases (List.cons.inj hsplit).2
      | cons d' more => exact ⟨d', more, rfl⟩
    obtain ⟨rfl, hsplits⟩ := List.cons.inj hsplit
    obtain ⟨rfl, rfl⟩ := List.cons.inj hsplits
    have hmany := h c' d' ranked hranked hlabel
    rwa [List.countP_map]

/-- The two elements are taken out of the list one after the other. -/
theorem outranked_iff_erase [DecidableEq α] :
    Outranked key label k xs ↔ ∀ c ∈ xs, ∀ d ∈ xs.erase c, label c = label d →
      k ≤ ((xs.erase c).erase d).countP fun a => min (key c) (key d) < key a := by
  constructor
  · intro h c hc d hd hlabel
    refine h c d _ ?_ hlabel
    exact ((List.perm_cons_erase hd).symm.cons c).trans (List.perm_cons_erase hc).symm
  · intro h c d rest hperm hlabel
    have hc : c ∈ xs := hperm.mem_iff.mp List.mem_cons_self
    have herase : (xs.erase c).Perm (d :: rest) := by
      have hsame := hperm.erase c
      rw [List.erase_cons_head] at hsame
      exact hsame.symm
    have hd : d ∈ xs.erase c := herase.mem_iff.mpr List.mem_cons_self
    have herases : ((xs.erase c).erase d).Perm rest := by
      have hsame := herase.erase d
      rwa [List.erase_cons_head] at hsame
    rw [← herases.countP_eq]
    exact h c hc d hd hlabel

instance [DecidableEq α] [DecidableEq β] : Decidable (Outranked key label k xs) :=
  decidable_of_iff _ outranked_iff_erase.symm

end Ranking
