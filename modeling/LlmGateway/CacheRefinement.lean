import LlmGateway.Cache
import LlmGateway.Lib.Lru

/-!
# The cache refines a least-recently-used store

`WellIndexed` is the invariant that ties the index to the list: node
identities and keys are distinct, and the index maps exactly the stored keys,
each to the node that carries it.  Every operation keeps it, so no iterator
dangles, and on well-indexed caches `get`, `put` and `clear` do to the list of
slots (`view`) what `Lru.read`, `Lru.write` and the empty store say.
-/

namespace Gateway

/-- The slot a node holds. -/
def Node.slot (n : Node) : Lru.Slot Str ChatResponse Time :=
  ⟨n.entry.key, n.entry.response, n.entry.expiresAt⟩

/-- The index knows exactly the nodes of the list. -/
structure WellIndexed (entries : List Node) (index : UnorderedMap Str Nat) (nextId : Nat) :
    Prop where
  ids : (entries.map Node.id).Nodup
  keys : (entries.map fun n => n.entry.key).Nodup
  index : ∀ k it, index.lookup k = some it ↔ ∃ n ∈ entries, n.id = it ∧ n.entry.key = k
  fresh : ∀ n ∈ entries, n.id < nextId

namespace WellIndexed

variable {entries before rest : List Node} {index : UnorderedMap Str Nat} {nextId : Nat}
  {n : Node}

theorem empty (nextId : Nat) : WellIndexed [] ∅ nextId where
  ids := List.nodup_nil
  keys := List.nodup_nil
  index := by simp
  fresh := by simp

/-- Erasing a node by its identity takes out that node only. -/
theorem eraseNode_split (h : WellIndexed (before ++ n :: rest) index nextId) :
    Cache.eraseNode n.id (before ++ n :: rest) = before ++ rest := by
  have hids := h.ids
  rw [List.map_append, List.map_cons] at hids
  have hother : ∀ m ∈ before ++ rest, m.id ≠ n.id := by
    intro m hm heq
    rw [List.nodup_middle, List.nodup_cons, ← List.map_append] at hids
    exact hids.1 (List.mem_map.mpr ⟨m, hm, heq⟩)
  unfold Cache.eraseNode
  rw [List.filter_append, List.filter_cons_of_neg (by simp), ← List.filter_append]
  exact List.filter_eq_self.mpr fun m hm => by simpa using hother m hm

/-- The key of a node occurs nowhere else. -/
theorem key_ne (h : WellIndexed (before ++ n :: rest) index nextId) :
    ∀ m ∈ before ++ rest, m.entry.key ≠ n.entry.key := by
  intro m hm heq
  have hkeys := h.keys
  rw [List.map_append, List.map_cons, List.nodup_middle, List.nodup_cons,
    ← List.map_append] at hkeys
  exact hkeys.1 (List.mem_map.mpr ⟨m, hm, heq⟩)

/-- Taking a node out of the list and its key out of the index. -/
theorem remove (h : WellIndexed (before ++ n :: rest) index nextId) :
    WellIndexed (before ++ rest) (index.erase n.entry.key) nextId := by
  have hsub : (before ++ rest).Sublist (before ++ n :: rest) :=
    (List.Sublist.refl before).append (List.sublist_cons_self n rest)
  refine ⟨(hsub.map _).nodup h.ids, (hsub.map _).nodup h.keys, ?_,
    fun m hm => h.fresh m (hsub.subset hm)⟩
  intro k it
  by_cases hk : k = n.entry.key
  · subst hk
    rw [AList.lookup_erase]
    constructor
    · intro hnone
      cases hnone
    · intro hnode
      obtain ⟨m, hm, -, hkey⟩ := hnode
      exact absurd hkey (h.key_ne m hm)
  · rw [AList.lookup_erase_ne hk, h.index]
    constructor
    · intro hnode
      obtain ⟨m, hm, hid, hkey⟩ := hnode
      refine ⟨m, ?_, hid, hkey⟩
      rcases List.mem_append.mp hm with hm | hm
      · exact List.mem_append_left _ hm
      · rcases List.mem_cons.mp hm with rfl | hm
        · exact absurd hkey.symm hk
        · exact List.mem_append_right _ hm
    · intro hnode
      obtain ⟨m, hm, hid, hkey⟩ := hnode
      exact ⟨m, hsub.subset hm, hid, hkey⟩

/-- Inserting an entry under a key that is not stored. -/
theorem push (h : WellIndexed entries index nextId) (entry : CacheEntry)
    (hnew : ∀ m ∈ entries, m.entry.key ≠ entry.key) :
    WellIndexed (⟨nextId, entry⟩ :: entries) (index.insert entry.key nextId) (nextId + 1) := by
  refine ⟨?_, ?_, ?_, ?_⟩
  · rw [List.map_cons, List.nodup_cons]
    refine ⟨fun hmem => ?_, h.ids⟩
    obtain ⟨m, hm, hid⟩ := List.mem_map.mp hmem
    have := h.fresh m hm
    simp only at hid
    omega
  · rw [List.map_cons, List.nodup_cons]
    refine ⟨fun hmem => ?_, h.keys⟩
    obtain ⟨m, hm, hkey⟩ := List.mem_map.mp hmem
    exact hnew m hm hkey
  · intro k it
    by_cases hk : k = entry.key
    · subst hk
      rw [AList.lookup_insert]
      constructor
      · intro hit
        exact ⟨_, List.mem_cons_self, Option.some.inj hit, rfl⟩
      · intro hnode
        obtain ⟨m, hm, hid, hkey⟩ := hnode
        rcases List.mem_cons.mp hm with rfl | hm
        · exact congrArg some hid
        · exact absurd hkey (hnew m hm)
    · rw [AList.lookup_insert_ne hk, h.index]
      constructor
      · intro hnode
        obtain ⟨m, hm, hrest⟩ := hnode
        exact ⟨m, List.mem_cons_of_mem _ hm, hrest⟩
      · intro hnode
        obtain ⟨m, hm, hid, hkey⟩ := hnode
        rcases List.mem_cons.mp hm with rfl | hm
        · exact absurd hkey.symm hk
        · exact ⟨m, hm, hid, hkey⟩
  · intro m hm
    rcases List.mem_cons.mp hm with rfl | hm
    · exact Nat.lt_succ_self _
    · exact (h.fresh m hm).trans (Nat.lt_succ_self _)

/-- Moving a node to the front, with an entry of the same key. -/
theorem moveToFront (h : WellIndexed (before ++ n :: rest) index nextId) {entry : CacheEntry}
    (hkey : entry.key = n.entry.key) :
    WellIndexed (⟨n.id, entry⟩ :: (before ++ rest)) index nextId := by
  have hids := h.ids
  have hkeys := h.keys
  rw [List.map_append, List.map_cons, List.nodup_middle, ← List.map_append] at hids hkeys
  refine ⟨hids, by simpa [hkey] using hkeys, ?_, ?_⟩
  · intro k it
    rw [h.index]
    constructor
    · intro hnode
      obtain ⟨m, hm, hid, hmk⟩ := hnode
      rcases List.mem_append.mp hm with hm | hm
      · exact ⟨m, by simp [hm], hid, hmk⟩
      · rcases List.mem_cons.mp hm with rfl | hm
        · exact ⟨_, List.mem_cons_self, hid, hkey.trans hmk⟩
        · exact ⟨m, by simp [hm], hid, hmk⟩
    · intro hnode
      obtain ⟨m, hm, hid, hmk⟩ := hnode
      rcases List.mem_cons.mp hm with rfl | hm
      · exact ⟨n, by simp, hid, hkey.symm.trans hmk⟩
      · exact ⟨m, by simpa using Or.imp_right (Or.inr (a := m = n)) (List.mem_append.mp hm),
          hid, hmk⟩
  · intro m hm
    rcases List.mem_cons.mp hm with rfl | hm
    · exact h.fresh n (by simp)
    · exact h.fresh m (by simpa using Or.imp_right (Or.inr (a := m = n)) (List.mem_append.mp hm))

/-- Removing a node removes its slot. -/
theorem slots_remove (h : WellIndexed (before ++ n :: rest) index nextId) :
    Lru.remove n.entry.key ((before ++ n :: rest).map Node.slot) =
      (before ++ rest).map Node.slot := by
  have hother := h.key_ne
  unfold Lru.remove
  rw [List.map_append, List.map_cons, List.filter_append,
    List.filter_cons_of_neg (by simp [Node.slot]), ← List.filter_append, ← List.map_append]
  refine List.filter_eq_self.mpr fun s hs => ?_
  obtain ⟨m, hm, rfl⟩ := List.mem_map.mp hs
  exact decide_eq_true (hother m hm)

/-- A stored slot is found under its key. -/
theorem slots_lookup (h : WellIndexed (before ++ n :: rest) index nextId) :
    Lru.lookup n.entry.key ((before ++ n :: rest).map Node.slot) = some n.slot := by
  have hother := h.key_ne
  unfold Lru.lookup
  rw [List.map_append, List.map_cons, List.find?_append]
  have hbefore : (before.map Node.slot).find? (fun s => s.key = n.entry.key) = none := by
    rw [List.find?_eq_none]
    intro s hs
    obtain ⟨m, hm, rfl⟩ := List.mem_map.mp hs
    exact fun heq => hother m (List.mem_append_left _ hm) (of_decide_eq_true heq)
  rw [hbefore]
  simp [Node.slot]

/-- A key the index does not know is not stored. -/
theorem slots_lookup_none (h : WellIndexed entries index nextId) {k : Str}
    (hk : index.lookup k = none) : ∀ m ∈ entries, m.entry.key ≠ k := by
  intro m hm heq
  have := (h.index k m.id).mpr ⟨m, hm, rfl, heq⟩
  rw [hk] at this
  cases this

end WellIndexed

namespace Cache

/-- The cache as a store of slots. -/
def view (c : Cache) : List (Lru.Slot Str ChatResponse Time) := c.entries.map Node.slot

/-- The invariant of a cache. -/
def Wf (c : Cache) : Prop := WellIndexed c.entries c.index c.nextId

theorem init_wf (cfg : CacheConfig) : (init cfg).Wf := WellIndexed.empty 0

theorem clear_wf (c : Cache) : c.clear.Wf := WellIndexed.empty c.nextId

/-- An iterator to a stored node refers to its entry. -/
theorem deref_split {c : Cache} (hwf : c.Wf) {before rest : List Node} {n : Node}
    (hsplit : c.entries = before ++ n :: rest) : c.deref n.id = some n.entry := by
  have hids := hwf.ids
  unfold deref
  rw [hsplit] at hids ⊢
  have hbefore : before.find? (fun m => m.id = n.id) = none := by
    rw [List.find?_eq_none]
    intro m hm
    rw [List.map_append, List.map_cons, List.nodup_middle, List.nodup_cons,
      ← List.map_append] at hids
    exact fun heq => hids.1 (List.mem_map.mpr
      ⟨m, List.mem_append_left _ hm, by simpa using heq⟩)
  rw [List.find?_append, hbefore]
  simp

/-- What the index says about a key: it is not stored, or the iterator leads
to its node. -/
theorem index_cases {c : Cache} (hwf : c.Wf) (k : Str) :
    (c.index.lookup k = none ∧ ∀ m ∈ c.entries, m.entry.key ≠ k) ∨
    ∃ before n rest, c.entries = before ++ n :: rest ∧ n.entry.key = k ∧
      c.index.lookup k = some n.id := by
  cases hl : c.index.lookup k with
  | none => exact .inl ⟨rfl, hwf.slots_lookup_none hl⟩
  | some it =>
      obtain ⟨n, hn, rfl, rfl⟩ := (hwf.index k it).mp hl
      obtain ⟨before, rest, hsplit⟩ := List.append_of_mem hn
      exact .inr ⟨before, n, rest, hsplit, rfl, rfl⟩

/-- **`get` refines a read.** -/
theorem get_refines (P : Platform) {cfg : CacheConfig} (hen : cfg.enabled = true) (now : Time)
    (req : ChatRequest) {c : Cache} (hwf : c.Wf) :
    (c.get P cfg now req).1 =
        (Lru.read now (makeKey P cfg req) c.view).1.map (fun s => s.value.asHit req) ∧
      (c.get P cfg now req).2.view = (Lru.read now (makeKey P cfg req) c.view).2 ∧
      (c.get P cfg now req).2.Wf := by
  have hon : (!cfg.enabled) = false := by simp [hen]
  rcases index_cases hwf (makeKey P cfg req) with
    ⟨hidx, habsent⟩ | ⟨before, n, rest, hsplit, hkey, hidx⟩
  · have hread : Lru.lookup (makeKey P cfg req) c.view = none := by
      rw [Lru.lookup_eq_none]
      intro s hs
      obtain ⟨m, hm, rfl⟩ := List.mem_map.mp hs
      exact habsent m hm
    simp only [get, hon, Lru.read, hread, hidx]
    exact ⟨rfl, rfl, hwf⟩
  · have hwf' : WellIndexed (before ++ n :: rest) c.index c.nextId := hsplit ▸ hwf
    have hread : Lru.lookup (makeKey P cfg req) c.view = some n.slot := by
      rw [view, hsplit, ← hkey]
      exact hwf'.slots_lookup
    have hremove : Lru.remove (makeKey P cfg req) c.view = (before ++ rest).map Node.slot := by
      rw [view, hsplit, ← hkey]
      exact hwf'.slots_remove
    have herase : eraseNode n.id c.entries = before ++ rest := by
      rw [hsplit]
      exact hwf'.eraseNode_split
    simp only [get, hon, Lru.read, hread, hidx, deref_split hwf hsplit, hremove, herase]
    by_cases hold : now > n.entry.expiresAt
    · have hexp : n.slot.Expired now := hold
      simp only [if_pos hold, if_pos hexp]
      exact ⟨rfl, rfl, hkey ▸ hwf'.remove⟩
    · have hexp : ¬ n.slot.Expired now := hold
      simp only [if_neg hold, if_neg hexp]
      exact ⟨rfl, rfl, hwf'.moveToFront rfl⟩

/-- What making room and dropping a key leave alone, whatever the index says. -/
structure SameSettings (c c' : Cache) : Prop where
  maxSize : c'.maxSize = c.maxSize
  ttlSeconds : c'.ttlSeconds = c.ttlSeconds
  hits : c'.hits = c.hits
  misses : c'.misses = c.misses
  savingsUsd : c'.savingsUsd = c.savingsUsd
  nextId : c'.nextId = c.nextId

theorem SameSettings.refl (c : Cache) : SameSettings c c := ⟨rfl, rfl, rfl, rfl, rfl, rfl⟩

theorem SameSettings.trans {a b c : Cache} (h : SameSettings a b) (h' : SameSettings b c) :
    SameSettings a c :=
  ⟨h'.maxSize.trans h.maxSize, h'.ttlSeconds.trans h.ttlSeconds, h'.hits.trans h.hits,
    h'.misses.trans h.misses, h'.savingsUsd.trans h.savingsUsd, h'.nextId.trans h.nextId⟩

/-- The entries that are gone from `c` to `c'` are the ones that were counted as
evicted. -/
def CountsEvicted (c c' : Cache) : Prop :=
  ∃ evicted : ℕ, c'.entries.length + evicted = c.entries.length ∧
    c'.evictions = c.evictions + .ofNat evicted

theorem CountsEvicted.refl (c : Cache) : CountsEvicted c c := ⟨0, rfl, (UInt64.add_zero _).symm⟩

theorem CountsEvicted.trans {a b c : Cache} (h : CountsEvicted a b) (h' : CountsEvicted b c) :
    CountsEvicted a c := by
  obtain ⟨first, hfirst, hcount⟩ := h
  obtain ⟨second, hsecond, hcount'⟩ := h'
  refine ⟨first + second, by omega, ?_⟩
  rw [hcount', hcount, UInt64.ofNat_add, UInt64.add_assoc]

theorem evictLru_same (c : Cache) : SameSettings c c.evictLru := by
  unfold evictLru
  split
  · exact SameSettings.refl c
  · exact ⟨rfl, rfl, rfl, rfl, rfl, rfl⟩

theorem evictToCapacity_same {c c' : Cache} {turns : Nat}
    (h : evictToCapacity turns c = some c') : SameSettings c c' := by
  induction turns generalizing c with
  | zero =>
      unfold evictToCapacity at h
      split at h
      · cases h
        exact SameSettings.refl _
      · cases h
  | succ turns ih =>
      unfold evictToCapacity at h
      split at h
      · cases h
        exact SameSettings.refl _
      · exact (evictLru_same c).trans (ih h)

theorem evictExpiredLoop_same (now : Time) (before rest : List Node) (c : Cache) :
    SameSettings c (evictExpiredLoop now before rest c) := by
  induction before generalizing rest c with
  | nil => exact ⟨rfl, rfl, rfl, rfl, rfl, rfl⟩
  | cons n before ih =>
      unfold evictExpiredLoop
      split
      · have hrest := ih rest
          { c with index := c.index.erase n.entry.key, evictions := c.evictions + 1 }
        exact ⟨hrest.maxSize, hrest.ttlSeconds, hrest.hits, hrest.misses, hrest.savingsUsd,
          hrest.nextId⟩
      · exact ih (n :: rest) c

theorem evictExpired_same (now : Time) (c : Cache) : SameSettings c (c.evictExpired now) :=
  evictExpiredLoop_same now c.entries.reverse [] c

theorem forget_same (key : Str) (c : Cache) : SameSettings c (c.forget key) := by
  unfold forget
  split
  · exact SameSettings.refl c
  · exact ⟨rfl, rfl, rfl, rfl, rfl, rfl⟩

/-- `evict_lru` drops the last node of a list that is not empty. -/
theorem evictLru_spec {c : Cache} (hwf : c.Wf) (hne : c.entries ≠ []) :
    c.evictLru.entries = c.entries.dropLast ∧ c.evictLru.Wf ∧ CountsEvicted c c.evictLru := by
  have hlast : c.entries.getLast? = some (c.entries.getLast hne) :=
    List.getLast?_eq_some_getLast hne
  have hwf' : WellIndexed (c.entries.dropLast ++ [c.entries.getLast hne]) c.index c.nextId := by
    rw [List.dropLast_append_getLast hne]
    exact hwf
  have hremoved := hwf'.remove
  rw [List.append_nil] at hremoved
  have hlong : 0 < c.entries.length := List.length_pos_of_ne_nil hne
  simp only [evictLru, hlast]
  refine ⟨trivial, hremoved, 1, ?_, rfl⟩
  rw [List.length_dropLast]
  omega

/-- The eviction loop of `put` ends when the capacity is positive, and cuts the
list below it. -/
theorem evictToCapacity_spec {c : Cache} (hwf : c.Wf) (hpos : 0 < c.maxSize) :
    ∀ turns, c.entries.length ≤ turns →
      ∃ c', evictToCapacity turns c = some c' ∧
        c'.entries = c.entries.take (c.maxSize - 1) ∧ c'.Wf ∧ CountsEvicted c c' := by
  intro turns
  induction turns generalizing c with
  | zero =>
      intro hlen
      have hlt : c.entries.length < c.maxSize := by omega
      refine ⟨c, by rw [evictToCapacity, if_pos hlt], ?_, hwf, CountsEvicted.refl c⟩
      rw [List.take_of_length_le (by omega)]
  | succ turns ih =>
      intro hlen
      by_cases hlt : c.entries.length < c.maxSize
      · refine ⟨c, by rw [evictToCapacity, if_pos hlt], ?_, hwf, CountsEvicted.refl c⟩
        rw [List.take_of_length_le (by omega)]
      · have hne : c.entries ≠ [] := by
          intro hnil
          rw [hnil] at hlt
          simp at hlt
          omega
        have hlong : 0 < c.entries.length := List.length_pos_of_ne_nil hne
        obtain ⟨hentries, hwf', hevicted⟩ := evictLru_spec hwf hne
        have hsize := (evictLru_same c).maxSize
        have hshort : c.evictLru.entries.length = c.entries.length - 1 := by
          rw [hentries, List.length_dropLast]
        obtain ⟨c', hrun, hentries', hwf'', hcount⟩ := ih hwf' (by rwa [hsize]) (by omega)
        refine ⟨c', ?_, ?_, hwf'', hevicted.trans hcount⟩
        · rw [evictToCapacity, if_neg hlt]
          exact hrun
        · rw [hentries', hsize, hentries, List.dropLast_eq_take, List.take_take]
          congr 1
          omega

/-- A capacity of zero is never undercut: the loop does not end. -/
theorem evictToCapacity_zero {c : Cache} (hzero : c.maxSize = 0) :
    ∀ turns, evictToCapacity turns c = none := by
  intro turns
  have hnot : ¬ c.entries.length < c.maxSize := by omega
  induction turns generalizing c with
  | zero => rw [evictToCapacity, if_neg hnot]
  | succ turns ih =>
      have hsame : c.evictLru.maxSize = 0 := (evictLru_same c).maxSize.trans hzero
      rw [evictToCapacity, if_neg hnot]
      exact ih hsame (by omega)

/-- With room for an entry the eviction loop returns, whatever the index says. -/
theorem evictToCapacity_isSome {c : Cache} (hpos : 0 < c.maxSize) :
    ∀ turns, c.entries.length ≤ turns → (evictToCapacity turns c).isSome := by
  intro turns
  induction turns generalizing c with
  | zero =>
      intro hle
      rw [evictToCapacity, if_pos (by omega)]
      rfl
  | succ turns ih =>
      intro hle
      by_cases hlt : c.entries.length < c.maxSize
      · rw [evictToCapacity, if_pos hlt]
        rfl
      · rw [evictToCapacity, if_neg hlt]
        have hne : c.entries ≠ [] := List.ne_nil_of_length_pos (by omega)
        have hsize := (evictLru_same c).maxSize
        have hshort : c.evictLru.entries.length = c.entries.length - 1 := by
          simp only [evictLru, List.getLast?_eq_some_getLast hne, List.length_dropLast]
        exact ih (by omega) (by omega)

/-- The sweep keeps the entries that have not expired, in order. -/
theorem evictExpiredLoop_spec (now : Time) (before rest : List Node) (c : Cache)
    (hwf : WellIndexed (before.reverse ++ rest) c.index c.nextId) :
    let c' := evictExpiredLoop now before rest c
    c'.entries = before.reverse.filter (fun n => ¬ now > n.entry.expiresAt) ++ rest ∧
      c'.Wf ∧
      ∃ evicted : ℕ, c'.entries.length + evicted = before.length + rest.length ∧
        c'.evictions = c.evictions + .ofNat evicted := by
  induction before generalizing rest c with
  | nil => exact ⟨rfl, hwf, 0, by simp [evictExpiredLoop], (UInt64.add_zero _).symm⟩
  | cons n before ih =>
      rw [List.reverse_cons, List.append_assoc, List.singleton_append] at hwf
      simp only [evictExpiredLoop, List.reverse_cons, List.filter_append]
      by_cases hold : now > n.entry.expiresAt
      · rw [if_pos hold]
        obtain ⟨hentries, hwf', evicted, hlength, hcount⟩ := ih rest
          { c with index := c.index.erase n.entry.key, evictions := c.evictions + 1 } hwf.remove
        refine ⟨by simp [hentries, hold], hwf', 1 + evicted, ?_, ?_⟩
        · rw [List.length_cons]
          omega
        · rw [hcount, UInt64.ofNat_add, ← UInt64.add_assoc]
          rfl
      · rw [if_neg hold]
        obtain ⟨hentries, hwf', evicted, hlength, hcount⟩ := ih (n :: rest) c hwf
        refine ⟨?_, hwf', evicted, by simp only [List.length_cons] at hlength ⊢; omega, hcount⟩
        rw [hentries]
        have hnot : now ≤ n.entry.expiresAt := not_lt.mp hold
        simp [hnot, List.append_assoc]

/-- **`evict_expired`.**  It visits every node once and removes exactly the
expired ones. -/
theorem evictExpired_spec (now : Time) {c : Cache} (hwf : c.Wf) :
    (c.evictExpired now).entries = c.entries.filter (fun n => ¬ now > n.entry.expiresAt) ∧
      (c.evictExpired now).Wf ∧ CountsEvicted c (c.evictExpired now) := by
  have hloop := evictExpiredLoop_spec now c.entries.reverse [] c
    (by rw [List.reverse_reverse, List.append_nil]; exact hwf)
  simpa [evictExpired, CountsEvicted] using hloop

/-- Dropping the entry under a key. -/
theorem forget_spec {c : Cache} (hwf : c.Wf) (key : Str) :
    (c.forget key).view = Lru.remove key c.view ∧ (c.forget key).Wf ∧
      (∀ m ∈ (c.forget key).entries, m.entry.key ≠ key) ∧
      (c.forget key).evictions = c.evictions := by
  rcases index_cases hwf key with ⟨hidx, habsent⟩ | ⟨before, n, rest, hsplit, rfl, hidx⟩
  · have hsame : c.forget key = c := by simp only [forget, hidx]
    rw [hsame]
    refine ⟨?_, hwf, habsent, rfl⟩
    refine (List.filter_eq_self.mpr fun s hs => ?_).symm
    obtain ⟨m, hm, rfl⟩ := List.mem_map.mp hs
    exact decide_eq_true (habsent m hm)
  · have hwf' : WellIndexed (before ++ n :: rest) c.index c.nextId := hsplit ▸ hwf
    have hentries : (c.forget n.entry.key).entries = before ++ rest := by
      simp only [forget, hidx, hsplit]
      exact hwf'.eraseNode_split
    refine ⟨?_, ?_, ?_, by simp only [forget, hidx]⟩
    · rw [view, hentries, view, hsplit]
      exact hwf'.slots_remove.symm
    · unfold Wf
      rw [hentries]
      simp only [forget, hidx]
      exact hwf'.remove
    · rw [hentries]
      exact hwf'.key_ne

/-- The cache after the sweep of a crowded list. -/
def sweepCrowded (now : Time) (c : Cache) : Cache :=
  if c.entries.length > c.maxSize / 2 then c.evictExpired now else c

theorem sweepCrowded_same (now : Time) (c : Cache) : SameSettings c (c.sweepCrowded now) := by
  unfold sweepCrowded
  split
  · exact evictExpired_same now c
  · exact SameSettings.refl c

theorem sweepCrowded_spec (now : Time) {c : Cache} (hwf : c.Wf) :
    (c.sweepCrowded now).Wf ∧ (∀ m ∈ (c.sweepCrowded now).entries, m ∈ c.entries) ∧
      (c.sweepCrowded now).view =
        (if c.maxSize / 2 < c.view.length then Lru.sweep now c.view else c.view) := by
  obtain ⟨hentries, hwf', -⟩ := evictExpired_spec now hwf
  have hsweep : (c.evictExpired now).view = Lru.sweep now c.view := by
    rw [view, hentries, view, Lru.sweep, List.filter_map]
    rfl
  have hlength : c.entries.length = c.view.length := by simp [view]
  unfold sweepCrowded
  by_cases hcrowded : c.entries.length > c.maxSize / 2
  · rw [if_pos hcrowded, if_pos (hlength ▸ hcrowded)]
    refine ⟨hwf', fun m hm => ?_, hsweep⟩
    rw [hentries] at hm
    exact List.mem_of_mem_filter hm
  · rw [if_neg hcrowded, if_neg (hlength ▸ hcrowded)]
    exact ⟨hwf, fun _ hm => hm, rfl⟩

/-- The cache on which `put` makes room: under the settings it has read, and
without the key of the request. -/
def withoutKey (P : Platform) (cfg : CacheConfig) (req : ChatRequest) (c : Cache) : Cache :=
  ({ c with maxSize := toSizeT cfg.maxEntries, ttlSeconds := cfg.ttlSeconds } : Cache).forget
    (makeKey P cfg req)

/-- What `put` does once there is room. -/
def store (P : Platform) (cfg : CacheConfig) (now : Time) (req : ChatRequest)
    (resp : ChatResponse) (c : Cache) : Cache :=
  (c.sweepCrowded now).pushFront
    ⟨makeKey P cfg req, resp, now + seconds (c.sweepCrowded now).ttlSeconds, now⟩

theorem withoutKey_same (P : Platform) (cfg : CacheConfig) (req : ChatRequest) (c : Cache) :
    SameSettings { c with maxSize := toSizeT cfg.maxEntries, ttlSeconds := cfg.ttlSeconds }
      (c.withoutKey P cfg req) :=
  forget_same _ _

theorem withoutKey_spec (P : Platform) (cfg : CacheConfig) (req : ChatRequest) {c : Cache}
    (hwf : c.Wf) :
    (c.withoutKey P cfg req).view = Lru.remove (makeKey P cfg req) c.view ∧
      (c.withoutKey P cfg req).Wf ∧
      (∀ m ∈ (c.withoutKey P cfg req).entries, m.entry.key ≠ makeKey P cfg req) ∧
      (c.withoutKey P cfg req).evictions = c.evictions := by
  let c₀ : Cache := { c with maxSize := toSizeT cfg.maxEntries, ttlSeconds := cfg.ttlSeconds }
  have hwf₀ : c₀.Wf := hwf
  exact forget_spec hwf₀ (makeKey P cfg req)

/-- A `put` that is switched off, or for a streamed request, changes nothing. -/
theorem put_of_not_effective {P : Platform} {cfg : CacheConfig} {req : ChatRequest} {c : Cache}
    (h : ¬ (cfg.enabled = true ∧ req.stream = false)) (now : Time) (resp : ChatResponse) :
    c.put P cfg now req resp = some c := by
  unfold put
  by_cases hen : cfg.enabled = true
  · have hstream : req.stream = true := by simpa [hen] using h
    simp [hen, hstream]
  · simp [hen]

/-- Any other drops the key, makes room and stores. -/
theorem put_of_effective (P : Platform) {cfg : CacheConfig} (hen : cfg.enabled = true)
    (now : Time) {req : ChatRequest} (hstream : req.stream = false) (resp : ChatResponse)
    (c : Cache) :
    c.put P cfg now req resp =
      (evictToCapacity (c.withoutKey P cfg req).entries.length (c.withoutKey P cfg req)).map
        (store P cfg now req resp) := by
  have hon : (!cfg.enabled) = false := by simp [hen]
  simp only [put, hon, hstream, Bool.false_eq_true, if_false, withoutKey]
  split
  · next hrun => rw [hrun, Option.map_none]
  · next c₂ hrun =>
      rw [hrun, Option.map_some]
      rfl

/-- What a `put` that returned has done. -/
theorem put_cases {P : Platform} {cfg : CacheConfig} {now : Time} {req : ChatRequest}
    {resp : ChatResponse} {c c' : Cache} (h : c.put P cfg now req resp = some c') :
    (¬ (cfg.enabled = true ∧ req.stream = false) ∧ c' = c) ∨
      (cfg.enabled = true ∧ req.stream = false) ∧
        ∃ c₂, evictToCapacity (c.withoutKey P cfg req).entries.length (c.withoutKey P cfg req) =
            some c₂ ∧ c' = c₂.store P cfg now req resp := by
  by_cases heff : cfg.enabled = true ∧ req.stream = false
  · rw [put_of_effective P heff.1 now heff.2, Option.map_eq_some_iff] at h
    obtain ⟨c₂, hrun, rfl⟩ := h
    exact .inr ⟨heff, c₂, hrun, rfl⟩
  · rw [put_of_not_effective heff] at h
    exact .inl ⟨heff, (Option.some.inj h).symm⟩

/-- `put` returns unless it has to make room in a cache that has none. -/
theorem put_isSome_iff (P : Platform) (cfg : CacheConfig) (now : Time) (req : ChatRequest)
    (resp : ChatResponse) (c : Cache) :
    (c.put P cfg now req resp).isSome ↔
      cfg.enabled = false ∨ req.stream = true ∨ 0 < toSizeT cfg.maxEntries := by
  by_cases heff : cfg.enabled = true ∧ req.stream = false
  · have hsize := (withoutKey_same P cfg req c).maxSize
    simp only [put_of_effective P heff.1 now heff.2, Option.isSome_map, heff.1, heff.2,
      Bool.true_eq_false, Bool.false_eq_true, false_or]
    rcases Nat.eq_zero_or_pos (toSizeT cfg.maxEntries) with hzero | hpos
    · rw [evictToCapacity_zero (hsize.trans hzero), hzero]
      simp
    · exact iff_of_true (evictToCapacity_isSome (hsize ▸ hpos) _ (Nat.le_refl _)) hpos
  · rw [put_of_not_effective heff]
    refine iff_of_true rfl ?_
    rcases Bool.eq_false_or_eq_true cfg.enabled with hen | hoff
    · exact .inr (.inl (by simpa [hen] using heff))
    · exact .inl hoff

/-- **`put` refines a write.**  With the cache on, a request that is not
streamed and a positive capacity, `put` returns. -/
theorem put_refines (P : Platform) {cfg : CacheConfig} (hen : cfg.enabled = true) (now : Time)
    {req : ChatRequest} (hstream : req.stream = false) (resp : ChatResponse)
    (hpos : 0 < toSizeT cfg.maxEntries) {c : Cache} (hwf : c.Wf) :
    ∃ c', c.put P cfg now req resp = some c' ∧ c'.Wf ∧
      c'.view = Lru.write (toSizeT cfg.maxEntries) now
        ⟨makeKey P cfg req, resp, now + seconds cfg.ttlSeconds⟩ c.view ∧
      c'.maxSize = toSizeT cfg.maxEntries ∧ c'.ttlSeconds = cfg.ttlSeconds := by
  obtain ⟨hview₁, hwf₁, habsent₁, -⟩ := withoutKey_spec P cfg req hwf
  have hsame₁ := withoutKey_same P cfg req c
  obtain ⟨c₂, hrun, hentries₂, hwf₂, -⟩ := evictToCapacity_spec hwf₁
    (by rw [hsame₁.maxSize]; exact hpos) _ (Nat.le_refl _)
  have hsame₂ := hsame₁.trans (evictToCapacity_same hrun)
  obtain ⟨hwf₃, hsub₃, hview₃⟩ := sweepCrowded_spec now hwf₂
  have hsettings := hsame₂.trans (sweepCrowded_same now c₂)
  have hroom : c₂.view = Lru.room (toSizeT cfg.maxEntries) (makeKey P cfg req) c.view := by
    rw [view, hentries₂, List.map_take, ← view, hview₁, hsame₁.maxSize]
    rfl
  have hkept : (c₂.sweepCrowded now).view =
      Lru.kept (toSizeT cfg.maxEntries) now (makeKey P cfg req) c.view := by
    rw [hview₃, hroom, hsame₂.maxSize]
    rfl
  have habsent₃ : ∀ m ∈ (c₂.sweepCrowded now).entries, m.entry.key ≠ makeKey P cfg req := by
    intro m hm
    have hm₂ := hsub₃ m hm
    rw [hentries₂] at hm₂
    exact habsent₁ m (List.mem_of_mem_take hm₂)
  refine ⟨c₂.store P cfg now req resp, ?_, ?_, ?_, ?_, ?_⟩
  · rw [put_of_effective P hen now hstream, hrun, Option.map_some]
  · exact hwf₃.push _ habsent₃
  · rw [Lru.write, ← hkept]
    simp [view, store, pushFront, Node.slot, hsettings.ttlSeconds]
  · exact hsettings.maxSize
  · exact hsettings.ttlSeconds

end Cache

end Gateway
