import LlmGateway.CacheRefinement
import LlmGateway.Lib.Cursor

/-!
# The sweep of expired entries, iterator by iterator

`evictExpiredLoop` states the loop of `Cache::evict_expired` over the two halves
of the list.  Here the loop runs on its iterator: `begin()` is read again in
front of every turn, `--it` and `it->expires_at` are undefined where there is no
such node, and `entries_.erase(it)` hands back the node behind the erased one.

The loop keeps the iterator between the nodes it has still to visit and the
nodes it has visited and kept (`Between`).  From this follow that no turn is
undefined, that every node is visited once, and what the sweep leaves behind.
-/

namespace Gateway

/-! ## The loop over the two halves -/

namespace Cache

/-- The halves of the list decide what the loop does; the list that the cache
still holds does not matter. -/
theorem evictExpiredLoop_entries (now : Time) (before rest entries : List Node) (c : Cache) :
    evictExpiredLoop now before rest { c with entries := entries } =
      evictExpiredLoop now before rest c := by
  induction before generalizing rest c with
  | nil => rfl
  | cons n before ih =>
      unfold evictExpiredLoop
      by_cases hold : now > n.entry.expiresAt
      · rw [if_pos hold, if_pos hold]
        exact ih rest { c with index := c.index.erase n.entry.key, evictions := c.evictions + 1 }
      · rw [if_neg hold, if_neg hold]
        exact ih (n :: rest) c

/-- The loop drops the keys of the expired nodes it visits from the index, and no
others. -/
theorem evictExpiredLoop_lookup (now : Time) (before rest : List Node) (c : Cache) (k : Str) :
    (evictExpiredLoop now before rest c).index.lookup k =
      if ∃ n ∈ before, now > n.entry.expiresAt ∧ n.entry.key = k then none
      else c.index.lookup k := by
  induction before generalizing rest c with
  | nil => simp [evictExpiredLoop]
  | cons n before ih =>
      rw [evictExpiredLoop]
      simp only [List.exists_mem_cons_iff]
      by_cases hold : now > n.entry.expiresAt
      · rw [if_pos hold, ih]
        by_cases hk : n.entry.key = k
        · subst hk
          simp [hold, AList.lookup_erase]
        · rw [AList.lookup_erase_ne (Ne.symm hk)]
          simp [hk]
      · rw [if_neg hold, ih]
        simp [hold]

/-- The sweep counts the entries that have expired. -/
theorem evictExpired_evictions (now : Time) {c : Cache} (hwf : c.Wf) :
    (c.evictExpired now).evictions =
      c.evictions + .ofNat (c.entries.countP fun n => n.entry.expiresAt < now) := by
  obtain ⟨hentries, -, evicted, hcount, hevictions⟩ := evictExpired_spec now hwf
  have hlength : c.entries.length = c.entries.countP (fun n => n.entry.expiresAt < now) +
      c.entries.countP (fun n => ¬ now > n.entry.expiresAt) := by
    simpa using List.length_eq_countP_add_countP fun n : Node => n.entry.expiresAt < now
  rw [hentries, ← List.countP_eq_length_filter] at hcount
  have hevicted : evicted = c.entries.countP fun n => n.entry.expiresAt < now := by omega
  rw [hevictions, hevicted]

end Cache

/-! ## The loop on its iterator -/

/-- The state of the loop of `Cache::evict_expired`: the cache and `it`.  `visited`
is not in the program; it lists the nodes that `--it` has led to, the latest first. -/
structure Sweep where
  cache : Cache
  it : Option Nat
  visited : List Nat

namespace Sweep

/-- `auto it = entries_.end();` -/
def enter (c : Cache) : Sweep := ⟨c, none, []⟩

/-- The body of the loop; `none` where the program has no defined behaviour. -/
def turn (now : Time) (s : Sweep) : Option Sweep :=
  match Cursor.prev Node.id s.cache.entries s.it with
  | none => none
  | some it =>
      match s.cache.deref it with
      | none => none
      | some entry =>
          if now > entry.expiresAt then
            some
              { cache := { s.cache with
                  index := s.cache.index.erase entry.key
                  entries := Cache.eraseNode it s.cache.entries
                  evictions := s.cache.evictions + 1 }
                it := Cursor.next Node.id s.cache.entries it
                visited := it :: s.visited }
          else some { s with it := some it, visited := it :: s.visited }

/-- `while (it != entries_.begin())`, given so many turns; `none` when they do not
suffice or one of them is undefined. -/
def run (now : Time) : Nat → Sweep → Option Sweep
  | turns, s =>
      if s.it = Cursor.start Node.id s.cache.entries then some s
      else
        match turns with
        | 0 => none
        | turns + 1 => (s.turn now).bind (run now turns)

/-- The loop invariant: the iterator stands between the nodes still to visit, the
nearest first, and the nodes that were kept. -/
structure Between (before rest : List Node) (s : Sweep) : Prop where
  entries : s.cache.entries = before.reverse ++ rest
  it : s.it = Cursor.start Node.id rest
  wf : s.cache.Wf

theorem enter_between {c : Cache} (hwf : c.Wf) : Between c.entries.reverse [] (enter c) where
  entries := by rw [List.reverse_reverse, List.append_nil]; rfl
  it := rfl
  wf := hwf

namespace Between

variable {now : Time} {n : Node} {before rest : List Node} {s : Sweep}

/-- The loop ends when no node is left to visit, and not before. -/
theorem it_eq_start_iff (h : Between before rest s) :
    s.it = Cursor.start Node.id s.cache.entries ↔ before = [] := by
  have hids := h.wf.ids
  rw [h.entries] at hids
  rw [h.it, h.entries, Cursor.start_eq_iff hids, List.reverse_eq_nil_iff]

/-- The list around the node that the next turn visits. -/
theorem split (h : Between (n :: before) rest s) :
    s.cache.entries = before.reverse ++ n :: rest := by
  rw [h.entries, List.reverse_cons, List.append_assoc, List.singleton_append]

theorem prev_eq (h : Between (n :: before) rest s) :
    Cursor.prev Node.id s.cache.entries s.it = some n.id := by
  have hids := h.wf.ids
  rw [h.split] at hids
  rw [h.split, h.it]
  exact Cursor.prev_start hids

/-- One turn visits the node in front of the iterator.  An expired one goes and the
iterator is back where it was; one that has not expired is passed. -/
theorem turn_eq (now : Time) (h : Between (n :: before) rest s) :
    ∃ rest' s', s.turn now = some s' ∧ Between before rest' s' ∧
      s'.visited = n.id :: s.visited ∧
      Cache.evictExpiredLoop now before rest' s'.cache =
        Cache.evictExpiredLoop now (n :: before) rest s.cache := by
  have hwf : WellIndexed (before.reverse ++ n :: rest) s.cache.index s.cache.nextId :=
    h.split ▸ h.wf
  simp only [turn, h.prev_eq, Cache.deref_split h.wf h.split, Cache.evictExpiredLoop]
  by_cases hold : now > n.entry.expiresAt
  · have hnext : Cursor.next Node.id s.cache.entries n.id = Cursor.start Node.id rest := by
      rw [h.split]
      exact Cursor.next_eq hwf.ids
    have herase : Cache.eraseNode n.id s.cache.entries = before.reverse ++ rest := by
      rw [h.split]
      exact hwf.eraseNode_split
    simp only [if_pos hold, hnext, herase]
    refine ⟨rest, _, rfl, ⟨rfl, rfl, hwf.remove⟩, rfl, ?_⟩
    exact Cache.evictExpiredLoop_entries now before rest (before.reverse ++ rest)
      { s.cache with
        index := s.cache.index.erase n.entry.key
        evictions := s.cache.evictions + 1 }
  · simp only [if_neg hold]
    exact ⟨n :: rest, _, rfl, ⟨h.split, rfl, h.wf⟩, rfl, rfl⟩

end Between

/-- One turn of the loop. -/
theorem run_succ {now : Time} {s s' : Sweep} (turns : Nat)
    (hnot : ¬ s.it = Cursor.start Node.id s.cache.entries) (hturn : s.turn now = some s') :
    run now (turns + 1) s = run now turns s' := by
  rw [run, if_neg hnot]
  simp only [hturn, Option.bind_some]

/-- **The loop on its iterator runs as the loop over the two halves does**, in
one turn for each node in front of it, and ends at `begin()`. -/
theorem run_of_between {now : Time} {before rest : List Node} {s : Sweep}
    (h : Between before rest s) {turns : Nat} (hturns : before.length ≤ turns) :
    run now turns s = some
      { cache := Cache.evictExpiredLoop now before rest s.cache
        it := Cursor.start Node.id (Cache.evictExpiredLoop now before rest s.cache).entries
        visited := before.reverse.map Node.id ++ s.visited } := by
  induction before generalizing rest s turns with
  | nil =>
      have hentries : s.cache.entries = rest := h.entries
      have hit := h.it_eq_start_iff.mpr rfl
      unfold run
      rw [if_pos hit, Cache.evictExpiredLoop, ← hentries, ← hit]
      rfl
  | cons n before ih =>
      have hnot : ¬ s.it = Cursor.start Node.id s.cache.entries := by
        intro hit
        exact List.cons_ne_nil n before (h.it_eq_start_iff.mp hit)
      have hvisited : (n :: before).reverse.map Node.id ++ s.visited =
          before.reverse.map Node.id ++ n.id :: s.visited := by
        rw [List.reverse_cons, List.map_append, List.append_assoc]
        rfl
      cases turns with
      | zero => exact absurd hturns (Nat.not_succ_le_zero before.length)
      | succ turns =>
          have hrest : before.length ≤ turns := Nat.le_of_succ_le_succ hturns
          obtain ⟨rest', s', hturn, hbetween, hseen, hloop⟩ := h.turn_eq now
          rw [run_succ turns hnot hturn, ih hbetween hrest, hseen, hloop, hvisited]

/-- What the loop has done when it ends: it has visited every node once, latest
first, and of the cache it has taken the expired entries and their keys. -/
structure Swept (now : Time) (c : Cache) (s : Sweep) : Prop where
  visited : s.visited = c.entries.map Node.id
  once : s.visited.Nodup
  entries : s.cache.entries = c.entries.filter fun n => ¬ n.entry.expiresAt < now
  index : ∀ k, s.cache.index.lookup k =
    if ∃ n ∈ c.entries, n.entry.expiresAt < now ∧ n.entry.key = k then none
    else c.index.lookup k
  evictions : s.cache.evictions =
    c.evictions + .ofNat (c.entries.countP fun n => n.entry.expiresAt < now)
  wf : s.cache.Wf
  same : Cache.SameSettings c s.cache

/-- **`evict_expired`.**  On every cache that its index describes, and for every
clock value, the loop ends with every node visited once, the expired entries and
their keys gone, and the others where they were.  This is the sweep that `put`
runs. -/
theorem run_enter_of_wf (now : Time) {c : Cache} (hwf : c.Wf) :
    ∃ s, (∀ turns, c.entries.length ≤ turns → run now turns (enter c) = some s) ∧
      s.cache = c.evictExpired now ∧ Swept now c s := by
  obtain ⟨hentries, hwf', -⟩ := Cache.evictExpired_spec now hwf
  refine ⟨⟨c.evictExpired now, Cursor.start Node.id (c.evictExpired now).entries,
    c.entries.map Node.id⟩, fun turns hturns => ?_, rfl, ?_⟩
  · have hlength : c.entries.reverse.length ≤ turns := by rwa [List.length_reverse]
    rw [run_of_between (enter_between hwf) hlength, List.reverse_reverse, Cache.evictExpired]
    simp only [enter, List.append_nil]
  · exact
      { visited := rfl
        once := hwf.ids
        entries := hentries
        index := fun k => by
          rw [Cache.evictExpired, Cache.evictExpiredLoop_lookup]
          simp only [List.mem_reverse]
        evictions := Cache.evictExpired_evictions now hwf
        wf := hwf'
        same := Cache.evictExpired_same now c }

/-- Three entries, of which the first and the last put in have expired at 5. -/
def ages : Cache :=
  (((Cache.init {}).pushFront ⟨str "a", {}, 4, 0⟩).pushFront ⟨str "b", {}, 5, 0⟩).pushFront
    ⟨str "c", {}, 2, 0⟩

theorem ages_wf : ages.Wf :=
  (((Cache.init_wf {}).push ⟨str "a", {}, 4, 0⟩ (by simp [Cache.init])).push
    ⟨str "b", {}, 5, 0⟩ (by simp [Cache.init]; decide)).push
    ⟨str "c", {}, 2, 0⟩ (by simp [Cache.init]; decide)

theorem run_enter_of_three :
    ∃ s, run 5 3 (enter ages) = some s ∧ s.visited = [2, 1, 0] ∧
      s.cache.entries.map Node.id = [1] ∧ s.cache.evictions = 2 := by
  obtain ⟨s, hrun, -, hswept⟩ := run_enter_of_wf 5 ages_wf
  refine ⟨s, hrun 3 (Nat.le_refl 3), hswept.visited, ?_, ?_⟩
  · rw [hswept.entries]
    decide
  · rw [hswept.evictions]
    decide

end Sweep

end Gateway
