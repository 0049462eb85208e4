import LlmGateway.Lib.Lru

/-!
# A larger store never loses a hit

Two stores of capacities `n < m` run the same history.  What is alive in the
smaller one is in the larger one, in the same order, but the smaller one may
hold stale slots that the larger one has swept out and the other way round, and
a read that misses the smaller one may reorder the larger one.

The simulation relation speaks of the time of the last write.  Up to slots that
were stale by then, the smaller store is a sublist of the larger; the larger has
at most `m - n` further live slots; and a store that is filled well beyond half
of its capacity was swept by that write, so it holds live slots only.  The one
capacity too small to be swept is two, where the slot in front is live instead.
-/

namespace Lru

/-- Of two lists, one inside the other, a filter takes no more out of the inner
one. -/
theorem filter_length_gap {α : Type} {xs ys : List α} (h : xs.Sublist ys) (p : α → Bool) :
    (ys.filter p).length + xs.length ≤ ys.length + (xs.filter p).length := by
  have hout := (h.filter fun a => !p a).length_le
  have hxs := xs.length_eq_length_filter_add p
  have hys := ys.length_eq_length_filter_add p
  omega

theorem dropLast_sublist_dropLast {α : Type} {xs ys : List α} (h : xs.Sublist ys) :
    xs.dropLast.Sublist ys.dropLast := by
  rw [← List.reverse_sublist, ← List.tail_reverse, ← List.tail_reverse]
  exact (List.reverse_sublist.mpr h).tail

/-- Of at most two elements only the first one is in front of another. -/
theorem eq_of_mem_dropLast_cons {α : Type} {a b : α} {xs : List α} (hxs : xs.length ≤ 1)
    (hb : b ∈ (a :: xs).dropLast) : b = a := by
  rcases xs with _ | ⟨c, _ | ⟨d, rest⟩⟩
  · simp at hb
  · simpa using hb
  · simp at hxs

variable {κ ν τ : Type} {now since : τ} {k : κ} {s : Slot κ ν τ} {xs ys : List (Slot κ ν τ)}

/-! ### Expiry -/

section Expiry

variable [LinearOrder τ]

theorem Slot.Expired.mono (h : s.Expired since) (hle : since ≤ now) : s.Expired now :=
  lt_of_lt_of_le h hle

theorem sweep_sublist (now : τ) (xs : List (Slot κ ν τ)) : (sweep now xs).Sublist xs :=
  List.filter_sublist

theorem sweep_eq_self (h : ∀ s ∈ xs, ¬ s.Expired now) : sweep now xs = xs :=
  List.filter_eq_self.mpr fun s hs => by simpa using h s hs

theorem sweep_cons (h : ¬ s.Expired now) (xs : List (Slot κ ν τ)) :
    sweep now (s :: xs) = s :: sweep now xs :=
  List.filter_cons_of_pos (by simpa using h)

/-- A later sweep makes an earlier one superfluous. -/
theorem sweep_sweep (hle : since ≤ now) (xs : List (Slot κ ν τ)) :
    sweep now (sweep since xs) = sweep now xs := by
  unfold sweep
  rw [List.filter_filter]
  refine List.filter_congr fun s _ => ?_
  by_cases hs : s.Expired now
  · simp [hs]
  · have hearly : ¬ s.Expired since := fun h => hs (h.mono hle)
    simp [hs, hearly]

end Expiry

/-! ### Removal -/

section Removal

variable [DecidableEq κ]

theorem remove_eq_self (h : ∀ s ∈ xs, s.key ≠ k) : remove k xs = xs :=
  List.filter_eq_self.mpr fun s hs => by simpa using h s hs

/-- The slots of a store without repeated keys, one of them in front. -/
theorem perm_front (hnodup : (xs.map Slot.key).Nodup) (hs : s ∈ xs) :
    (s :: remove s.key xs).Perm xs := by
  obtain ⟨before, rest, rfl⟩ := List.append_of_mem hs
  rw [List.map_append, List.map_cons, List.nodup_middle, List.nodup_cons,
    ← List.map_append] at hnodup
  have hother : ∀ b ∈ before ++ rest, b.key ≠ s.key :=
    fun b hb heq => hnodup.1 (List.mem_map.mpr ⟨b, hb, heq⟩)
  have hremove : remove s.key (before ++ s :: rest) = before ++ rest := by
    rw [remove, List.filter_append, List.filter_cons_of_neg (by simp), ← List.filter_append]
    exact remove_eq_self hother
  rw [hremove]
  exact List.perm_middle.symm

theorem lookup_of_mem (hnodup : (xs.map Slot.key).Nodup) (hs : s ∈ xs) :
    lookup s.key xs = some s := by
  cases hl : lookup s.key xs with
  | none => exact absurd rfl (lookup_eq_none.mp hl s hs)
  | some s' =>
      obtain ⟨hmem, hkey⟩ := lookup_eq_some hl
      rw [List.inj_on_of_nodup_map hnodup hmem hs hkey]

end Removal

variable [DecidableEq κ] [LinearOrder τ] {n m : Nat}

theorem sweep_remove (now : τ) (k : κ) (xs : List (Slot κ ν τ)) :
    sweep now (remove k xs) = remove k (sweep now xs) :=
  List.filter_comm _ _ xs

/-! ### Hits and misses -/

/-- A hit serves a live slot and puts it in front. -/
theorem read_of_some (h : (read now k xs).1 = some s) :
    s ∈ xs ∧ s.key = k ∧ ¬ s.Expired now ∧ (read now k xs).2 = s :: remove k xs := by
  rcases read_cases now k xs with ⟨-, hr⟩ | ⟨s', -, -, hr⟩ | ⟨s', hl, hlive, hr⟩
  · simp [hr] at h
  · simp [hr] at h
  · rw [hr] at h ⊢
    cases h
    exact ⟨(lookup_eq_some hl).1, (lookup_eq_some hl).2, hlive, rfl⟩

/-- A miss leaves no slot of the key, and had no live one. -/
theorem read_of_none (h : (read now k xs).1 = none) : (read now k xs).2 = remove k xs := by
  rcases read_cases now k xs with ⟨hl, hr⟩ | ⟨s', -, -, hr⟩ | ⟨s', -, -, hr⟩
  · rw [hr]
    exact (remove_eq_self (lookup_eq_none.mp hl)).symm
  · rw [hr]
  · simp [hr] at h

/-- A live slot is served. -/
theorem read_of_mem (hnodup : (xs.map Slot.key).Nodup) (hs : s ∈ xs) (hlive : ¬ s.Expired now) :
    (read now s.key xs).1 = some s := by
  simp [read, lookup_of_mem hnodup hs, hlive]

/-! ### The simulation relation -/

/-- The smaller store `xs` beside the larger one `ys`, as of the time of the
last write. -/
structure Included (n m : Nat) (since : τ) (xs ys : List (Slot κ ν τ)) : Prop where
  live : (sweep since xs).Sublist (sweep since ys)
  extra : (sweep since ys).length + n ≤ m + (sweep since xs).length
  front : n ≤ xs.length → ∀ s ∈ xs.dropLast, ¬ s.Expired since
  full : m / 2 + 1 < ys.length → ∀ s ∈ ys, ¬ s.Expired since

omit [DecidableEq κ] in
theorem Included.nil (hnm : n ≤ m) (since : τ) :
    Included n m since ([] : List (Slot κ ν τ)) [] where
  live := List.Sublist.refl _
  extra := by simpa [sweep] using hnm
  front := by simp
  full := by simp

omit [DecidableEq κ] in
/-- A live slot of the smaller store is in the larger one. -/
theorem Included.mem (h : Included n m since xs ys) (hs : s ∈ xs) (hlive : ¬ s.Expired since) :
    s ∈ ys :=
  (mem_sweep.mp (h.live.subset (mem_sweep.mpr ⟨hs, hlive⟩))).1

/-- A hit in the smaller store is a hit in the larger one. -/
theorem Included.read_some (h : Included n m since xs ys) (hle : since ≤ now)
    (hnodup : (ys.map Slot.key).Nodup) (hhit : (read now k xs).1 = some s) :
    (read now k ys).1 = some s := by
  obtain ⟨hs, rfl, hlive, -⟩ := read_of_some hhit
  have hearly : ¬ s.Expired since := fun hexp => hlive (hexp.mono hle)
  exact read_of_mem hnodup (h.mem hs hearly) hlive

/-- Both stores miss. -/
theorem Included.remove (h : Included n m since xs ys) (k : κ) :
    Included n m since (Lru.remove k xs) (Lru.remove k ys) where
  live := by
    rw [sweep_remove, sweep_remove]
    exact h.live.filter _
  extra := by
    have hgap := filter_length_gap h.live fun s => s.key ≠ k
    have hextra := h.extra
    rw [sweep_remove, sweep_remove]
    unfold Lru.remove
    omega
  front := by
    intro hlong s hs
    have hsub := remove_sublist k xs
    exact h.front (hlong.trans hsub.length_le) s ((dropLast_sublist_dropLast hsub).subset hs)
  full := by
    intro hlong s hs
    exact h.full (hlong.trans_le (remove_sublist k ys).length_le) s (mem_remove.mp hs).1

/-- Both stores hit. -/
theorem Included.toFront (h : Included n m since xs ys) (hxs : (xs.map Slot.key).Nodup)
    (hys : (ys.map Slot.key).Nodup) (hs : s ∈ xs) (hlive : ¬ s.Expired since) :
    Included n m since (s :: Lru.remove s.key xs) (s :: Lru.remove s.key ys) := by
  have hin := h.mem hs hlive
  have hpermx := perm_front hxs hs
  have hpermy := perm_front hys hin
  refine ⟨?_, ?_, ?_, ?_⟩
  · rw [sweep_cons hlive, sweep_cons hlive, sweep_remove, sweep_remove]
    exact (h.live.filter _).cons_cons s
  · have hx := (hpermx.filter fun s => ¬ s.Expired since).length_eq
    have hy := (hpermy.filter fun s => ¬ s.Expired since).length_eq
    have hextra := h.extra
    unfold sweep at hextra ⊢
    omega
  · intro hlong b hb
    rw [hpermx.length_eq] at hlong
    cases hrest : Lru.remove s.key xs with
    | nil => simp [hrest] at hb
    | cons c rest =>
        rw [hrest, List.dropLast_cons_cons, ← hrest] at hb
        rcases List.mem_cons.mp hb with rfl | hb
        · exact hlive
        · exact h.front hlong b
            ((dropLast_sublist_dropLast (remove_sublist s.key xs)).subset hb)
  · intro hlong b hb
    rw [hpermy.length_eq] at hlong
    exact h.full hlong b (hpermy.mem_iff.mp hb)

/-- Only the larger store hits. -/
theorem Included.onlyLarger (h : Included n m since xs ys) (hys : (ys.map Slot.key).Nodup)
    (hs : s ∈ ys) (hlive : ¬ s.Expired since) (habsent : ∀ b ∈ sweep since xs, b.key ≠ s.key) :
    Included n m since (Lru.remove s.key xs) (s :: Lru.remove s.key ys) := by
  have hpermy := perm_front hys hs
  have hsame : sweep since (Lru.remove s.key xs) = sweep since xs := by
    rw [sweep_remove, remove_eq_self habsent]
  refine ⟨?_, ?_, (h.remove s.key).front, ?_⟩
  · rw [sweep_cons hlive]
    exact (h.remove s.key).live.cons s
  · have hy := (hpermy.filter fun s => ¬ s.Expired since).length_eq
    have hextra := h.extra
    rw [hsame]
    unfold sweep at hextra ⊢
    omega
  · intro hlong b hb
    rw [hpermy.length_eq] at hlong
    exact h.full hlong b (hpermy.mem_iff.mp hb)

/-- A read keeps the relation. -/
theorem Included.read (h : Included n m since xs ys) (hle : since ≤ now)
    (hxs : (xs.map Slot.key).Nodup) (hys : (ys.map Slot.key).Nodup) (k : κ) :
    Included n m since (Lru.read now k xs).2 (Lru.read now k ys).2 := by
  cases hsmall : (Lru.read now k xs).1 with
  | some s =>
      have hlarge := h.read_some hle hys hsmall
      obtain ⟨hs, rfl, hlive, hstore⟩ := read_of_some hsmall
      obtain ⟨-, -, -, hstore'⟩ := read_of_some hlarge
      rw [hstore, hstore']
      exact h.toFront hxs hys hs fun hexp => hlive (hexp.mono hle)
  | none =>
      rw [read_of_none hsmall]
      cases hlarge : (Lru.read now k ys).1 with
      | none =>
          rw [read_of_none hlarge]
          exact h.remove k
      | some s =>
          obtain ⟨hs, rfl, hlive, hstore⟩ := read_of_some hlarge
          rw [hstore]
          refine h.onlyLarger hys hs (fun hexp => hlive (hexp.mono hle)) ?_
          -- a live slot of this key would be the one that the larger store serves
          intro b hb hkey
          have hin := (mem_sweep.mp (h.live.subset hb)).1
          obtain rfl := List.inj_on_of_nodup_map hys hin hs hkey
          have hhit := read_of_mem hxs (mem_sweep.mp hb).1 hlive
          rw [hsmall] at hhit
          cases hhit

/-! ### Writes -/

/-- What a write keeps, without the slots that are stale by then. -/
theorem sweep_kept (cap : Nat) (now : τ) (k : κ) (xs : List (Slot κ ν τ)) :
    sweep now (kept cap now k xs) = sweep now (room cap k xs) := by
  unfold kept
  split
  · exact sweep_sweep le_rfl _
  · rfl

/-- Beyond half of the capacity a write keeps live slots only. -/
theorem kept_live {cap : Nat} (h : cap / 2 < (room cap k xs).length) :
    ∀ s ∈ kept cap now k xs, ¬ s.Expired now := by
  intro s hs
  rw [kept, if_pos h] at hs
  exact (mem_sweep.mp hs).2

omit [DecidableEq κ] in
/-- Where the larger store has to drop a slot, it is all live, and the smaller
store is full and all live as well. -/
theorem Included.crowded (h : Included n m since xs ys) (hn : 2 ≤ n) (hnm : n < m)
    (hxs : xs.length ≤ n) (hys : m ≤ ys.length) : xs.Sublist ys ∧ xs.length = n := by
  have hall : sweep since ys = ys := sweep_eq_self (h.full (by omega))
  have hlive := h.live
  have hextra := h.extra
  have hshort := (sweep_sublist since xs).length_le
  rw [hall] at hlive hextra
  have hsame : sweep since xs = xs :=
    (sweep_sublist since xs).eq_of_length (by omega)
  rw [hsame] at hlive hextra
  exact ⟨hlive, by omega⟩

/-- When the smaller store has to drop a slot, what stays in it stays in the
larger one. -/
theorem Included.room_sublist (h : Included n m since xs ys) (hnm : n < m)
    (hxs : xs.length ≤ n) (hys : ys.length ≤ m) (hlong : n ≤ (Lru.remove k xs).length) :
    (room n k xs).Sublist (room m k ys) := by
  have hshort := (remove_sublist k xs).length_le
  have hall : Lru.remove k xs = xs := (remove_sublist k xs).eq_of_length (by omega)
  have hroom : room n k xs = xs.dropLast := by
    rw [room, hall, List.dropLast_eq_take]
    congr 1
    omega
  rw [hroom]
  by_cases hfull : m ≤ (Lru.remove k ys).length
  · have hshorty := (remove_sublist k ys).length_le
    have hally : Lru.remove k ys = ys := (remove_sublist k ys).eq_of_length (by omega)
    have hroomy : room m k ys = ys.dropLast := by
      rw [room, hally, List.dropLast_eq_take]
      congr 1
      omega
    rw [hroomy]
    by_cases hone : n ≤ 1
    · have hnil : xs.dropLast = [] := List.eq_nil_of_length_eq_zero (by simp; omega)
      rw [hnil]
      exact List.nil_sublist _
    · have hcrowded := h.crowded (by omega) hnm hxs (by omega)
      exact dropLast_sublist_dropLast hcrowded.1
  · have hroomy : room m k ys = Lru.remove k ys := List.take_of_length_le (by omega)
    have hlive : sweep since xs.dropLast = xs.dropLast :=
      sweep_eq_self (h.front (by omega))
    have habsent : Lru.remove k xs.dropLast = xs.dropLast := by
      refine remove_eq_self fun s hs => ?_
      have hin : s ∈ Lru.remove k xs := by
        rw [hall]
        exact (List.dropLast_sublist xs).subset hs
      exact (mem_remove.mp hin).2
    rw [hroomy, ← habsent]
    refine List.Sublist.filter _ ?_
    calc xs.dropLast = sweep since xs.dropLast := hlive.symm
      List.Sublist _ (sweep since xs) := (List.dropLast_sublist xs).filter _
      List.Sublist _ (sweep since ys) := h.live
      List.Sublist _ ys := sweep_sublist since ys

/-- Of the slots that a write at `now` leaves room for, the live ones of the
smaller store are in the larger one. -/
theorem Included.sweep_room (h : Included n m since xs ys) (hn : 0 < n) (hnm : n < m)
    (hxs : xs.length ≤ n) (hys : ys.length ≤ m) (hle : since ≤ now) (k : κ) :
    (sweep now (room n k xs)).Sublist (sweep now (room m k ys)) := by
  by_cases hlong : n ≤ (Lru.remove k xs).length
  · exact (h.room_sublist hnm hxs hys hlong).filter _
  · have hroom : room n k xs = Lru.remove k xs := List.take_of_length_le (by omega)
    by_cases hfull : m ≤ (Lru.remove k ys).length
    · have hshorty := (remove_sublist k ys).length_le
      by_cases hone : n ≤ 1
      · have hnil : Lru.remove k xs = [] := List.eq_nil_of_length_eq_zero (by omega)
        rw [hroom, hnil]
        exact List.nil_sublist _
      · -- a crowded larger store leaves the smaller one with nothing to remove
        obtain ⟨hsub, hlength⟩ := h.crowded (by omega) hnm hxs (by omega)
        have hally : Lru.remove k ys = ys := (remove_sublist k ys).eq_of_length (by omega)
        have hall : Lru.remove k xs = xs := by
          refine remove_eq_self fun s hs => ?_
          have hin := hsub.subset hs
          rw [← hally] at hin
          exact (mem_remove.mp hin).2
        rw [hall] at hlong
        omega
    · have hroomy : room m k ys = Lru.remove k ys := List.take_of_length_le (by omega)
      rw [hroom, hroomy, sweep_remove, sweep_remove, ← sweep_sweep hle xs, ← sweep_sweep hle ys]
      exact (h.live.filter _).filter _

/-- The larger store gains no more live slots over the smaller one than its
capacity allows. -/
theorem Included.sweep_room_length (h : Included n m since xs ys) (hnm : n < m)
    (hxs : xs.length ≤ n) (hys : ys.length ≤ m) (hle : since ≤ now) (k : κ) :
    (sweep now (room m k ys)).length + n ≤ m + (sweep now (room n k xs)).length := by
  by_cases hlong : n ≤ (Lru.remove k xs).length
  · have hgap := filter_length_gap (h.room_sublist hnm hxs hys hlong) fun s => ¬ s.Expired now
    have hroom : (room n k xs).length = n - 1 := by simp [room]; omega
    have hroomy : (room m k ys).length ≤ m - 1 := by simp [room]
    unfold sweep
    omega
  · have hroom : room n k xs = Lru.remove k xs := List.take_of_length_le (by omega)
    have hgap := filter_length_gap h.live fun s => ¬ s.Expired now
    have hgap' := filter_length_gap (h.live.filter fun s => ¬ s.Expired now) fun s => s.key ≠ k
    have hshort : (sweep now (room m k ys)).length ≤ (sweep now (Lru.remove k ys)).length :=
      ((Lru.room_sublist m k ys).filter _).length_le
    have hextra := h.extra
    rw [hroom, sweep_remove, ← sweep_sweep hle xs]
    rw [sweep_remove, ← sweep_sweep hle ys] at hshort
    unfold Lru.remove at hshort ⊢
    unfold sweep at hshort hgap hgap' hextra ⊢
    omega

/-- A write starts the relation again at its own time. -/
theorem Included.write (h : Included n m since xs ys) (hn : 0 < n) (hnm : n < m)
    (hxs : xs.length ≤ n) (hys : ys.length ≤ m) (hle : since ≤ now) (hlive : ¬ s.Expired now) :
    Included n m now (Lru.write n now s xs) (Lru.write m now s ys) := by
  have hsmall := kept_length n now s.key xs
  have hroom := (kept_sublist n now s.key xs).length_le
  have hroomy := (kept_sublist m now s.key ys).length_le
  refine ⟨?_, ?_, ?_, ?_⟩
  · rw [Lru.write, Lru.write, sweep_cons hlive, sweep_cons hlive, sweep_kept, sweep_kept]
    exact (h.sweep_room hn hnm hxs hys hle s.key).cons_cons s
  · have hgap := h.sweep_room_length hnm hxs hys hle s.key
    rw [Lru.write, Lru.write, sweep_cons hlive, sweep_cons hlive, sweep_kept, sweep_kept,
      List.length_cons, List.length_cons]
    omega
  · intro hlong b hb
    rw [Lru.write, List.length_cons] at hlong
    by_cases hhalf : n / 2 < (room n s.key xs).length
    · rcases List.mem_cons.mp ((List.dropLast_sublist _).subset hb) with rfl | hb
      · exact hlive
      · exact kept_live hhalf b hb
    · -- a capacity of one or two: at most the written slot is in front of another
      rw [eq_of_mem_dropLast_cons (by omega) hb]
      exact hlive
  · intro hlong b hb
    rw [Lru.write, List.length_cons] at hlong
    rcases List.mem_cons.mp hb with rfl | hb
    · exact hlive
    · exact kept_live (by omega) b hb

/-! ### Histories -/

/-- The clock does not run backwards along a history, and no slot is stale when
it is written. -/
structure Timely (ops : List (Op κ ν τ)) : Prop where
  clock : (ops.filterMap Op.time).Pairwise fun later earlier => earlier ≤ later
  fresh : ∀ now s, Op.write now s ∈ ops → ¬ s.Expired now

/-- Every history relates the two stores. -/
theorem included_after (hn : 0 < n) (hnm : n < m) {ops : List (Op κ ν τ)} (h : Timely ops)
    (hnow : ∀ t ∈ ops.filterMap Op.time, t ≤ now) :
    ∃ since ≤ now, Included n m since (after n ops) (after m ops) := by
  induction ops generalizing now with
  | nil => exact ⟨now, le_rfl, .nil hnm.le now⟩
  | cons op older ih =>
      have hinv := invariant hn older
      have hinv' := invariant (hn.trans hnm) older
      have hfresh : ∀ t s, Op.write t s ∈ older → ¬ s.Expired t :=
        fun t s hs => h.fresh t s (List.mem_cons_of_mem _ hs)
      cases op with
      | clear => exact ⟨now, le_rfl, .nil hnm.le now⟩
      | read t k =>
          obtain ⟨hlast, hclock⟩ := List.pairwise_cons.mp h.clock
          obtain ⟨since, hle, hrel⟩ := ih ⟨hclock, hfresh⟩ hlast
          have htime : t ≤ now := hnow t (by simp [Op.time])
          exact ⟨since, hle.trans htime, hrel.read hle hinv.nodup hinv'.nodup k⟩
      | write t s =>
          obtain ⟨hlast, hclock⟩ := List.pairwise_cons.mp h.clock
          obtain ⟨since, hle, hrel⟩ := ih ⟨hclock, hfresh⟩ hlast
          have htime : t ≤ now := hnow t (by simp [Op.time])
          exact ⟨t, htime, hrel.write hn hnm hinv.size hinv'.size hle
            (h.fresh t s List.mem_cons_self)⟩

/-- **Inclusion.**  What a store serves, every larger store serves after the
same history. -/
theorem read_of_capacity_le (hn : 0 < n) (hnm : n ≤ m) {ops : List (Op κ ν τ)}
    (h : Timely ops) (hnow : ∀ t ∈ ops.filterMap Op.time, t ≤ now)
    (hhit : (read now k (after n ops)).1 = some s) :
    (read now k (after m ops)).1 = some s := by
  rcases hnm.eq_or_lt with rfl | hlt
  · exact hhit
  · obtain ⟨since, hle, hrel⟩ := included_after hn hlt h hnow
    exact hrel.read_some hle (invariant (hn.trans hlt) ops).nodup hhit

end Lru
