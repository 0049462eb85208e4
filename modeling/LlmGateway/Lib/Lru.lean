import Mathlib.Data.Finset.Card
import Mathlib.Data.List.Sort
import Mathlib.Tactic

/-!
# Least-recently-used stores with expiry

A store is a list of slots, the most recently used first.  A read moves its
slot to the front, or removes it when it has expired; a write puts a new slot
at the front after cutting the rest back below the capacity from the far end
and, when more than half of the capacity remains occupied, sweeping out what
has expired.

Histories are lists of operations, the newest first, so `after` and the log of
touched keys recurse on the older part.  The slots stand in the order of their
last touch (`ordered_after`).  The invariant of a history ties every slot to the
last write of its key and carries the retention bound, which says that a key leaves the store only by
expiring or by having at least `cap` distinct other keys touched since.
-/

namespace Lru

/-- A stored value and the last moment it may be served. -/
structure Slot (κ ν τ : Type) where
  key : κ
  value : ν
  expires : τ

/-- An operation on a store. -/
inductive Op (κ ν τ : Type) where
  | read (now : τ) (k : κ)
  | write (now : τ) (s : Slot κ ν τ)
  | clear

variable {κ ν τ : Type}

/-- The clock reading of an operation. -/
def Op.time : Op κ ν τ → Option τ
  | .read now _ => some now
  | .write now _ => some now
  | .clear => none

/-! ### Expiry -/

section Expiry

variable [LinearOrder τ]

/-- The slot is stale at `now`. -/
def Slot.Expired (now : τ) (s : Slot κ ν τ) : Prop := s.expires < now

instance (now : τ) (s : Slot κ ν τ) : Decidable (s.Expired now) := by
  unfold Slot.Expired; infer_instance

/-- Discard the slots that are stale at `now`. -/
def sweep (now : τ) (xs : List (Slot κ ν τ)) : List (Slot κ ν τ) :=
  xs.filter fun s => ¬ s.Expired now

@[simp] theorem mem_sweep {now : τ} {xs : List (Slot κ ν τ)} {s : Slot κ ν τ} :
    s ∈ sweep now xs ↔ s ∈ xs ∧ ¬ s.Expired now := by
  simp [sweep]

/-- A time after a whole history is after its older part. -/
theorem times_older {op : Op κ ν τ} {older : List (Op κ ν τ)} {now : τ}
    (h : ∀ t ∈ (op :: older).filterMap Op.time, t ≤ now) :
    ∀ t ∈ older.filterMap Op.time, t ≤ now := by
  intro t ht
  obtain ⟨o, ho, hot⟩ := List.mem_filterMap.mp ht
  exact h t (List.mem_filterMap.mpr ⟨o, List.mem_cons_of_mem _ ho, hot⟩)

end Expiry

/-! ### Keys and the touch log -/

/-- With a slot of a new key in front, the keys stay distinct. -/
theorem nodup_front {xs ys : List (Slot κ ν τ)} {s : Slot κ ν τ} (hsub : ys.Sublist xs)
    (hnodup : (xs.map Slot.key).Nodup) (hother : ∀ b ∈ ys, b.key ≠ s.key) :
    ((s :: ys).map Slot.key).Nodup := by
  rw [List.map_cons, List.nodup_cons]
  refine ⟨?_, (hsub.map _).nodup hnodup⟩
  intro hin
  obtain ⟨b, hb, hkey⟩ := List.mem_map.mp hin
  exact hother b hb hkey

section Keys

variable [DecidableEq κ]

def lookup (k : κ) (xs : List (Slot κ ν τ)) : Option (Slot κ ν τ) :=
  xs.find? fun s => s.key = k

def remove (k : κ) (xs : List (Slot κ ν τ)) : List (Slot κ ν τ) :=
  xs.filter fun s => s.key ≠ k

/-- What stays below the capacity when key `k` is about to be stored. -/
def room (cap : Nat) (k : κ) (xs : List (Slot κ ν τ)) : List (Slot κ ν τ) :=
  (remove k xs).take (cap - 1)

/-- The last write of a key since the last clear. -/
def lastWrite (k : κ) : List (Op κ ν τ) → Option (Slot κ ν τ)
  | [] => none
  | .clear :: _ => none
  | .read _ _ :: older => lastWrite k older
  | .write _ s :: older => if s.key = k then some s else lastWrite k older

/-- The distinct other keys touched since the last touch of `k`. -/
def othersSince (k : κ) (log : List κ) : Finset κ := (log.takeWhile (· ≠ k)).toFinset

/-- Slots stand in the order of their last touch. -/
def Ordered (log : List κ) (xs : List (Slot κ ν τ)) : Prop :=
  xs.Pairwise fun a b => a.key ∈ othersSince b.key log

theorem lookup_eq_some {k : κ} {xs : List (Slot κ ν τ)} {s : Slot κ ν τ}
    (h : lookup k xs = some s) : s ∈ xs ∧ s.key = k :=
  ⟨List.mem_of_find?_eq_some h, by simpa using List.find?_some h⟩

theorem lookup_eq_none {k : κ} {xs : List (Slot κ ν τ)} :
    lookup k xs = none ↔ ∀ s ∈ xs, s.key ≠ k := by
  simp [lookup, List.find?_eq_none]

@[simp] theorem mem_remove {k : κ} {xs : List (Slot κ ν τ)} {s : Slot κ ν τ} :
    s ∈ remove k xs ↔ s ∈ xs ∧ s.key ≠ k := by
  simp [remove]

theorem remove_sublist (k : κ) (xs : List (Slot κ ν τ)) : (remove k xs).Sublist xs :=
  List.filter_sublist

/-- Removing the key of a slot makes the store shorter. -/
theorem remove_length_lt {xs : List (Slot κ ν τ)} {s : Slot κ ν τ} (hs : s ∈ xs) :
    (remove s.key xs).length < xs.length := by
  refine lt_of_le_of_ne (remove_sublist s.key xs).length_le fun heq => ?_
  have hall := (remove_sublist s.key xs).eq_of_length heq
  have hkept : s ∈ remove s.key xs := by rw [hall]; exact hs
  exact (mem_remove.mp hkept).2 rfl

theorem room_sublist (cap : Nat) (k : κ) (xs : List (Slot κ ν τ)) :
    (room cap k xs).Sublist (remove k xs) :=
  List.take_sublist _ _

theorem lastWrite_key {k : κ} {ops : List (Op κ ν τ)} {s : Slot κ ν τ}
    (h : lastWrite k ops = some s) : s.key = k := by
  induction ops with
  | nil => simp [lastWrite] at h
  | cons op older ih =>
      cases op with
      | read now k' => exact ih h
      | clear => simp [lastWrite] at h
      | write now s' =>
          simp only [lastWrite] at h
          split at h
          · next hk => exact Option.some.inj h ▸ hk
          · exact ih h

theorem othersSince_cons_of_ne {k k' : κ} (hne : k' ≠ k) (log : List κ) :
    othersSince k (k' :: log) = insert k' (othersSince k log) := by
  simp [othersSince, hne]

theorem othersSince_mono {k k' : κ} (hne : k' ≠ k) (log : List κ) :
    othersSince k log ⊆ othersSince k (k' :: log) := by
  rw [othersSince_cons_of_ne hne]
  exact Finset.subset_insert _ _

/-- Moving a key to the front keeps the order. -/
theorem Ordered.touch {log : List κ} {xs : List (Slot κ ν τ)} {s : Slot κ ν τ}
    (h : Ordered log xs) (hother : ∀ b ∈ xs, b.key ≠ s.key) :
    Ordered (s.key :: log) (s :: xs) := by
  refine List.pairwise_cons.mpr ⟨?_, ?_⟩
  · intro b hb
    rw [othersSince_cons_of_ne (hother b hb).symm]
    exact Finset.mem_insert_self _ _
  · refine List.Pairwise.imp_of_mem ?_ h
    intro a b _ hb hab
    exact othersSince_mono (hother b hb).symm log hab

/-- In a store without repeated keys, the slots before `s` are among the keys
touched since `s` was. -/
theorem Ordered.before_card {log : List κ} {before rest : List (Slot κ ν τ)}
    {s : Slot κ ν τ} (h : Ordered log (before ++ s :: rest))
    (hnodup : ((before ++ s :: rest).map Slot.key).Nodup) :
    (before.map Slot.key).toFinset ⊆ othersSince s.key log ∧
      (before.map Slot.key).toFinset.card = before.length := by
  constructor
  · intro k hk
    obtain ⟨a, ha, rfl⟩ := List.mem_map.mp (List.mem_toFinset.mp hk)
    exact (List.pairwise_append.mp h).2.2 a ha s List.mem_cons_self
  · rw [List.map_append] at hnodup
    rw [List.toFinset_card_of_nodup hnodup.of_append_left, List.length_map]

end Keys

variable [DecidableEq κ] [LinearOrder τ]

/-! ### Reads and writes -/

/-- Read a key: the slot served, if any, and the store afterwards. -/
def read (now : τ) (k : κ) (xs : List (Slot κ ν τ)) :
    Option (Slot κ ν τ) × List (Slot κ ν τ) :=
  match lookup k xs with
  | none => (none, xs)
  | some s => if s.Expired now then (none, remove k xs) else (some s, s :: remove k xs)

/-- The slots a write of key `k` keeps. -/
def kept (cap : Nat) (now : τ) (k : κ) (xs : List (Slot κ ν τ)) : List (Slot κ ν τ) :=
  if cap / 2 < (room cap k xs).length then sweep now (room cap k xs) else room cap k xs

/-- Store a slot. -/
def write (cap : Nat) (now : τ) (s : Slot κ ν τ) (xs : List (Slot κ ν τ)) :
    List (Slot κ ν τ) :=
  s :: kept cap now s.key xs

def step (cap : Nat) (xs : List (Slot κ ν τ)) : Op κ ν τ → List (Slot κ ν τ)
  | .read now k => (read now k xs).2
  | .write now s => write cap now s xs
  | .clear => []

/-- The store after a history, newest operation first. -/
def after (cap : Nat) : List (Op κ ν τ) → List (Slot κ ν τ)
  | [] => []
  | op :: older => step cap (after cap older) op

/-- The key an operation stores or hits. -/
def touched (xs : List (Slot κ ν τ)) : Op κ ν τ → Option κ
  | .read now k => (read now k xs).1.map fun _ => k
  | .write _ s => some s.key
  | .clear => none

/-- The keys stored or hit by a history, newest first. -/
def touches (cap : Nat) : List (Op κ ν τ) → List κ
  | [] => []
  | op :: older => (touched (after cap older) op).toList ++ touches cap older

theorem kept_sublist (cap : Nat) (now : τ) (k : κ) (xs : List (Slot κ ν τ)) :
    (kept cap now k xs).Sublist (room cap k xs) := by
  unfold kept
  split
  · exact List.filter_sublist
  · exact List.Sublist.refl _

theorem kept_length (cap : Nat) (now : τ) (k : κ) (xs : List (Slot κ ν τ)) :
    (kept cap now k xs).length ≤ cap - 1 := by
  have hroom : (room cap k xs).length ≤ cap - 1 := by simp [room]
  exact (kept_sublist cap now k xs).length_le.trans hroom

/-- A slot of another key survives a write when it is fresh and near enough to
the front. -/
theorem mem_kept {cap : Nat} {now : τ} {k : κ} {xs before rest : List (Slot κ ν τ)}
    {s : Slot κ ν τ} (hsplit : remove k xs = before ++ s :: rest)
    (hnear : before.length < cap - 1) (hfresh : ¬ s.Expired now) :
    s ∈ kept cap now k xs := by
  have hroom : s ∈ room cap k xs := by
    unfold room
    rw [hsplit, List.take_append, List.mem_append]
    right
    obtain ⟨m, hm⟩ : ∃ m, cap - 1 - before.length = m + 1 :=
      ⟨cap - 1 - before.length - 1, by omega⟩
    rw [hm, List.take_succ_cons]
    exact List.mem_cons_self
  unfold kept
  split
  · exact mem_sweep.mpr ⟨hroom, hfresh⟩
  · exact hroom

/-- What a read does: nothing, drop a stale slot, or move a fresh one to the
front. -/
theorem read_cases (now : τ) (k : κ) (xs : List (Slot κ ν τ)) :
    (lookup k xs = none ∧ read now k xs = (none, xs)) ∨
    (∃ s, lookup k xs = some s ∧ s.Expired now ∧ read now k xs = (none, remove k xs)) ∨
    (∃ s, lookup k xs = some s ∧ ¬ s.Expired now ∧
      read now k xs = (some s, s :: remove k xs)) := by
  unfold read
  cases hl : lookup k xs with
  | none => exact .inl ⟨rfl, rfl⟩
  | some s =>
      by_cases he : s.Expired now
      · exact .inr (.inl ⟨s, rfl, he, by simp [he]⟩)
      · exact .inr (.inr ⟨s, rfl, he, by simp [he]⟩)

/-- A read brings nothing new into the store. -/
theorem mem_of_mem_read {now : τ} {k : κ} {xs : List (Slot κ ν τ)} {s : Slot κ ν τ}
    (h : s ∈ (read now k xs).2) : s ∈ xs := by
  rcases read_cases now k xs with ⟨-, hr⟩ | ⟨t, -, -, hr⟩ | ⟨t, hl, -, hr⟩
  · rwa [hr] at h
  · rw [hr] at h
    exact (mem_remove.mp h).1
  · rw [hr] at h
    rcases List.mem_cons.mp h with rfl | h
    · exact (lookup_eq_some hl).1
    · exact (mem_remove.mp h).1

/-- What a write keeps was stored under another key. -/
theorem mem_of_mem_kept {cap : Nat} {now : τ} {k : κ} {xs : List (Slot κ ν τ)} {s : Slot κ ν τ}
    (h : s ∈ kept cap now k xs) : s ∈ xs ∧ s.key ≠ k :=
  mem_remove.mp (((kept_sublist cap now k xs).trans (room_sublist cap k xs)).subset h)

/-- No read makes the store longer. -/
theorem read_length (now : τ) (k : κ) (xs : List (Slot κ ν τ)) :
    (read now k xs).2.length ≤ xs.length := by
  rcases read_cases now k xs with ⟨-, hr⟩ | ⟨s, -, -, hr⟩ | ⟨s, hl, -, hr⟩
  · rw [hr]
  · rw [hr]
    exact (remove_sublist k xs).length_le
  · obtain ⟨hmem, rfl⟩ := lookup_eq_some hl
    rw [hr]
    exact remove_length_lt hmem

/-- A write leaves the store within the capacity. -/
theorem write_length {cap : Nat} (hcap : 0 < cap) (now : τ) (s : Slot κ ν τ)
    (xs : List (Slot κ ν τ)) : (write cap now s xs).length ≤ cap := by
  have hkept := kept_length cap now s.key xs
  rw [write, List.length_cons]
  omega

/-- An operation keeps the slots in the order of their last touch, under any
capacity. -/
theorem Ordered.step {log : List κ} {xs : List (Slot κ ν τ)} (h : Ordered log xs) (cap : Nat)
    (op : Op κ ν τ) : Ordered ((touched xs op).toList ++ log) (Lru.step cap xs op) := by
  cases op with
  | read now k =>
      simp only [touched, Lru.step]
      rcases read_cases now k xs with ⟨-, hr⟩ | ⟨s, -, -, hr⟩ | ⟨s, hl, -, hr⟩
      · rw [hr]
        exact h
      · rw [hr]
        exact List.Pairwise.sublist (remove_sublist k xs) h
      · obtain ⟨-, rfl⟩ := lookup_eq_some hl
        rw [hr]
        exact Ordered.touch (List.Pairwise.sublist (remove_sublist s.key xs) h)
          fun b hb => (mem_remove.mp hb).2
  | write now s =>
      have hsub := ((kept_sublist cap now s.key xs).trans (room_sublist cap s.key xs)).trans
        (remove_sublist s.key xs)
      exact Ordered.touch (List.Pairwise.sublist hsub h) fun b hb => (mem_of_mem_kept hb).2
  | clear => exact List.Pairwise.nil

/-- After every history the slots stand in the order of their last touch. -/
theorem ordered_after (cap : Nat) (ops : List (Op κ ν τ)) :
    Ordered (touches cap ops) (after cap ops) := by
  induction ops with
  | nil => exact List.Pairwise.nil
  | cons op older ih => exact ih.step cap op

/-! ### The invariant of a history -/

/-- What holds of the store after a history. -/
structure Invariant (cap : Nat) (ops : List (Op κ ν τ)) : Prop where
  nodup : ((after cap ops).map Slot.key).Nodup
  size : (after cap ops).length ≤ cap
  faithful : ∀ s ∈ after cap ops, lastWrite s.key ops = some s
  retained : ∀ now, (∀ t ∈ ops.filterMap Op.time, t ≤ now) →
    ∀ s, lastWrite s.key ops = some s → ¬ s.Expired now →
      (othersSince s.key (touches cap ops)).card < cap → s ∈ after cap ops

theorem Invariant.nil (cap : Nat) : Invariant cap ([] : List (Op κ ν τ)) where
  nodup := by simp [after]
  size := by simp [after]
  faithful := by simp [after]
  retained := by simp [lastWrite]

theorem Invariant.clear {cap : Nat} {ops : List (Op κ ν τ)} :
    Invariant cap (.clear :: ops) where
  nodup := by simp [after, step]
  size := by simp [after, step]
  faithful := by simp [after, step]
  retained := by simp [lastWrite]

/-- A slot found by key is the slot that is there. -/
theorem Invariant.lookup_of_mem {cap : Nat} {ops : List (Op κ ν τ)}
    (h : Invariant cap ops) {s : Slot κ ν τ} (hs : s ∈ after cap ops) :
    lookup s.key (after cap ops) = some s := by
  cases hl : lookup s.key (after cap ops) with
  | none => exact absurd rfl (lookup_eq_none.mp hl s hs)
  | some s' =>
      obtain ⟨hmem, hkey⟩ := lookup_eq_some hl
      have heq := h.faithful s' hmem
      rw [hkey, h.faithful s hs] at heq
      rw [Option.some.inj heq]

/-- Reading an absent key changes neither the store nor the log. -/
theorem Invariant.read_absent {cap : Nat} {ops : List (Op κ ν τ)} (h : Invariant cap ops)
    {t : τ} {k : κ} (hr : Lru.read t k (after cap ops) = (none, after cap ops)) :
    Invariant cap (.read t k :: ops) := by
  have hstore : after cap (.read t k :: ops) = after cap ops := by simp [after, step, hr]
  have hlog : touches cap (.read t k :: ops) = touches cap ops := by
    simp [touches, touched, hr]
  exact {
    nodup := hstore ▸ h.nodup
    size := hstore ▸ h.size
    faithful := by rw [hstore]; exact h.faithful
    retained := by
      rw [hstore, hlog]
      intro now hnow s' hw
      exact h.retained now (times_older hnow) s' hw }

/-- Reading a stale slot removes it, and no later time can call for it. -/
theorem Invariant.read_stale {cap : Nat} {ops : List (Op κ ν τ)} (h : Invariant cap ops)
    {t : τ} {k : κ} {s : Slot κ ν τ} (hl : lookup k (after cap ops) = some s)
    (hold : s.Expired t) (hr : Lru.read t k (after cap ops) = (none, remove k (after cap ops))) :
    Invariant cap (.read t k :: ops) := by
  have hstore : after cap (.read t k :: ops) = remove k (after cap ops) := by
    simp [after, step, hr]
  have hlog : touches cap (.read t k :: ops) = touches cap ops := by
    simp [touches, touched, hr]
  have hsub := remove_sublist k (after cap ops)
  exact {
    nodup := by rw [hstore]; exact (hsub.map _).nodup h.nodup
    size := by rw [hstore]; exact hsub.length_le.trans h.size
    faithful := by
      rw [hstore]
      intro s' hs'
      exact h.faithful s' (mem_remove.mp hs').1
    retained := by
      rw [hstore, hlog]
      intro now hnow s' hw hlive hcard
      have hin := h.retained now (times_older hnow) s' hw hlive hcard
      refine mem_remove.mpr ⟨hin, ?_⟩
      intro hkey
      have hsame : s' = s := by
        have h1 := h.lookup_of_mem hin
        rw [hkey, hl] at h1
        exact (Option.some.inj h1).symm
      have hle : t ≤ now := hnow t (by simp [Op.time])
      exact hlive (hsame ▸ lt_of_lt_of_le hold hle) }

/-- A hit moves the slot to the front of the store and of the log. -/
theorem Invariant.read_hit {cap : Nat} {ops : List (Op κ ν τ)} (h : Invariant cap ops)
    {t : τ} {s : Slot κ ν τ} (hmem : s ∈ after cap ops)
    (hr : Lru.read t s.key (after cap ops) = (some s, s :: remove s.key (after cap ops))) :
    Invariant cap (.read t s.key :: ops) := by
  have hstore : after cap (.read t s.key :: ops) = s :: remove s.key (after cap ops) := by
    simp [after, step, hr]
  have hlog : touches cap (.read t s.key :: ops) = s.key :: touches cap ops := by
    simp [touches, touched, hr]
  have hsub := remove_sublist s.key (after cap ops)
  have hother : ∀ b ∈ remove s.key (after cap ops), b.key ≠ s.key :=
    fun b hb => (mem_remove.mp hb).2
  have hlen := remove_length_lt hmem
  have hsize := h.size
  exact {
    nodup := by rw [hstore]; exact nodup_front hsub h.nodup hother
    size := by rw [hstore, List.length_cons]; omega
    faithful := by
      rw [hstore]
      intro s' hs'
      rcases List.mem_cons.mp hs' with rfl | hs'
      · exact h.faithful _ hmem
      · exact h.faithful s' (mem_remove.mp hs').1
    retained := by
      rw [hstore, hlog]
      intro now hnow s' hw hlive hcard
      by_cases hkey : s'.key = s.key
      · have hs := h.faithful s hmem
        change lastWrite s'.key ops = some s' at hw
        rw [hkey, hs] at hw
        exact Option.some.inj hw ▸ List.mem_cons_self
      · have hold := h.retained now (times_older hnow) s' hw hlive
          (lt_of_le_of_lt (Finset.card_le_card (othersSince_mono (Ne.symm hkey) _)) hcard)
        exact List.mem_cons_of_mem _ (mem_remove.mpr ⟨hold, hkey⟩) }

theorem Invariant.read {cap : Nat} {ops : List (Op κ ν τ)} (h : Invariant cap ops)
    (t : τ) (k : κ) : Invariant cap (.read t k :: ops) := by
  rcases read_cases t k (after cap ops) with ⟨-, hr⟩ | ⟨s, hl, hold, hr⟩ | ⟨s, hl, -, hr⟩
  · exact h.read_absent hr
  · exact h.read_stale hl hold hr
  · obtain ⟨hmem, rfl⟩ := lookup_eq_some hl
    exact h.read_hit hmem hr

/-- A live slot with few other keys touched since, the written one among them,
survives the write of another key. -/
theorem Invariant.mem_kept {cap : Nat} {ops : List (Op κ ν τ)} (h : Invariant cap ops) {t : τ}
    {k : κ} {s : Slot κ ν τ} (hin : s ∈ after cap ops) (hkey : s.key ≠ k)
    (hlive : ¬ s.Expired t)
    (hcard : (insert k (othersSince s.key (touches cap ops))).card < cap) :
    s ∈ kept cap t k (after cap ops) := by
  obtain ⟨before, rest, hsplit⟩ := List.append_of_mem (mem_remove.mpr ⟨hin, hkey⟩)
  have hsub := remove_sublist k (after cap ops)
  have hordered : Ordered (touches cap ops) (before ++ s :: rest) :=
    hsplit ▸ List.Pairwise.sublist hsub (ordered_after cap ops)
  have hnodup : ((before ++ s :: rest).map Slot.key).Nodup :=
    hsplit ▸ (hsub.map _).nodup h.nodup
  obtain ⟨hbefore, hcount⟩ := hordered.before_card hnodup
  -- the written key is not among the slots that stay before this one
  have hnew : k ∉ (before.map Slot.key).toFinset := by
    intro hmem
    obtain ⟨a, ha, hak⟩ := List.mem_map.mp (List.mem_toFinset.mp hmem)
    have hain : a ∈ remove k (after cap ops) := by
      rw [hsplit]
      exact List.mem_append_left _ ha
    exact (mem_remove.mp hain).2 hak
  have hle := Finset.card_le_card (Finset.insert_subset_insert k hbefore)
  rw [Finset.card_insert_of_notMem hnew, hcount] at hle
  exact Lru.mem_kept hsplit (by omega) hlive

theorem Invariant.write {cap : Nat} {ops : List (Op κ ν τ)} (h : Invariant cap ops)
    (hcap : 0 < cap) (t : τ) (s : Slot κ ν τ) : Invariant cap (.write t s :: ops) := by
  have hstore : after cap (.write t s :: ops) = s :: kept cap t s.key (after cap ops) := rfl
  have hlog : touches cap (.write t s :: ops) = s.key :: touches cap ops := by
    simp [touches, touched]
  have hkept := (kept_sublist cap t s.key (after cap ops)).trans (room_sublist cap s.key _)
  have hsub := hkept.trans (remove_sublist s.key (after cap ops))
  have hother : ∀ b ∈ kept cap t s.key (after cap ops), b.key ≠ s.key :=
    fun b hb => (mem_remove.mp (hkept.subset hb)).2
  exact {
    nodup := by rw [hstore]; exact nodup_front hsub h.nodup hother
    size := write_length hcap t s (after cap ops)
    faithful := by
      rw [hstore]
      intro s' hs'
      rcases List.mem_cons.mp hs' with rfl | hs'
      · simp [lastWrite]
      · simpa [lastWrite, (hother s' hs').symm] using h.faithful s' (hsub.subset hs')
    retained := by
      rw [hstore, hlog]
      intro now hnow s' hw hlive hcard
      by_cases hkey : s.key = s'.key
      · simp only [lastWrite, if_pos hkey] at hw
        exact Option.some.inj hw ▸ List.mem_cons_self
      · simp only [lastWrite, if_neg hkey] at hw
        rw [othersSince_cons_of_ne hkey] at hcard
        have hin := h.retained now (times_older hnow) s' hw hlive
          (lt_of_le_of_lt (Finset.card_le_card (Finset.subset_insert _ _)) hcard)
        have hle : t ≤ now := hnow t (by simp [Op.time])
        have hfresh : ¬ s'.Expired t := fun hexp => hlive (lt_of_lt_of_le hexp hle)
        exact List.mem_cons_of_mem _ (h.mem_kept hin (Ne.symm hkey) hfresh hcard) }

/-- Every history keeps the invariant. -/
theorem invariant {cap : Nat} (hcap : 0 < cap) (ops : List (Op κ ν τ)) :
    Invariant cap ops := by
  induction ops with
  | nil => exact Invariant.nil cap
  | cons op older ih =>
      cases op with
      | read now k => exact ih.read now k
      | write now s => exact ih.write hcap now s
      | clear => exact Invariant.clear

/-! ### Reads -/

/-- **Soundness.**  What a read serves is the last write of its key, and is
fresh. -/
theorem read_sound {cap : Nat} (hcap : 0 < cap) {ops : List (Op κ ν τ)} {now : τ} {k : κ}
    {s : Slot κ ν τ} (h : (read now k (after cap ops)).1 = some s) :
    lastWrite k ops = some s ∧ now ≤ s.expires := by
  rcases read_cases now k (after cap ops) with ⟨_, hr⟩ | ⟨_, _, _, hr⟩ | ⟨s', hl, hfresh, hr⟩
  · simp [hr] at h
  · simp [hr] at h
  · rw [hr] at h
    obtain rfl := Option.some.inj h
    obtain ⟨hmem, rfl⟩ := lookup_eq_some hl
    exact ⟨(invariant hcap ops).faithful _ hmem, not_lt.mp hfresh⟩

/-- **Retention.**  The last write of a key is served while it is fresh and
fewer than `cap` distinct other keys were touched since the key was. -/
theorem read_retained {cap : Nat} (hcap : 0 < cap) {ops : List (Op κ ν τ)} {now : τ} {k : κ}
    {s : Slot κ ν τ} (hnow : ∀ t ∈ ops.filterMap Op.time, t ≤ now)
    (hw : lastWrite k ops = some s) (hfresh : now ≤ s.expires)
    (hcard : (othersSince k (touches cap ops)).card < cap) :
    (read now k (after cap ops)).1 = some s := by
  have hinv := invariant hcap ops
  obtain rfl := lastWrite_key hw
  have hlive : ¬ s.Expired now := not_lt.mpr hfresh
  have hin := hinv.retained now hnow s hw hlive hcard
  simp [read, hinv.lookup_of_mem hin, hlive]

end Lru
