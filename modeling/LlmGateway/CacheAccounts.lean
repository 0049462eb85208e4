import LlmGateway.Eviction

/-!
# The books of the cache

The cache keeps three counters and a sum.  Every operation has several ways out, and each
of them has to touch the right one; an entry leaves the list by eviction, which
is counted, or because it is overwritten, found expired or cleared, which is
not.  `Booked` says what one operation adds to the books, with a lemma for
`get`, `put` and `clear`, and `books_balance` adds them up over every history.
-/

namespace Gateway

namespace Cache

variable {P : Platform} {cfg : CacheConfig} {c c' : Cache}

/-- The entry stored under the key of a request. -/
def stored (P : Platform) (cfg : CacheConfig) (req : ChatRequest) (c : Cache) :
    Option CacheEntry :=
  (c.entries.find? fun n => n.entry.key = makeKey P cfg req).map Node.entry

/-- From `c` to `c'` the cache has counted so many lookups and saved so much; so
many entries came in, and so many went out without being evicted. -/
structure Booked (lookups : ℕ) (saved : Double) (came went : ℕ) (c c' : Cache) : Prop where
  lookups : ∃ hits misses : ℕ, hits + misses = lookups ∧ c'.hits = c.hits + .ofNat hits ∧
    c'.misses = c.misses + .ofNat misses
  savings : c'.savingsUsd = c.savingsUsd + saved
  entries : ∃ evicted : ℕ, c'.entries.length + evicted + went = c.entries.length + came ∧
    c'.evictions = c.evictions + .ofNat evicted

/-- The counters are these numbers, as far as 64 bits hold them. -/
structure Shows (hits misses evicted : ℕ) (c : Cache) : Prop where
  hits : c.hits = .ofNat hits
  misses : c.misses = .ofNat misses
  evictions : c.evictions = .ofNat evicted

theorem Booked.refl (c : Cache) : Booked 0 0 0 0 c c :=
  ⟨⟨0, 0, rfl, (UInt64.add_zero _).symm, (UInt64.add_zero _).symm⟩, (add_zero _).symm,
    0, rfl, (UInt64.add_zero _).symm⟩

/-- A lookup that counts a miss and leaves the entries alone. -/
theorem Booked.miss (c : Cache) : Booked 1 0 0 0 c { c with misses := c.misses + 1 } :=
  ⟨⟨0, 1, rfl, (UInt64.add_zero _).symm, rfl⟩, (add_zero _).symm,
    0, rfl, (UInt64.add_zero _).symm⟩

/-- A key the index does not know has no entry, and the iterator of one that it
knows leads to the entry. -/
theorem stored_cases (P : Platform) (cfg : CacheConfig) (hwf : c.Wf) (req : ChatRequest) :
    (c.stored P cfg req = none ∧ c.index.lookup (makeKey P cfg req) = none) ∨
    ∃ before n rest, c.entries = before ++ n :: rest ∧ n.entry.key = makeKey P cfg req ∧
      c.stored P cfg req = some n.entry ∧
      c.index.lookup (makeKey P cfg req) = some n.id := by
  rcases index_cases hwf (makeKey P cfg req) with
    ⟨hidx, habsent⟩ | ⟨before, n, rest, hsplit, hkey, hidx⟩
  · refine .inl ⟨?_, hidx⟩
    rw [stored, Option.map_eq_none_iff, List.find?_eq_none]
    intro m hm
    simpa using habsent m hm
  · refine .inr ⟨before, n, rest, hsplit, hkey, ?_, hidx⟩
    have hwf' : WellIndexed (before ++ n :: rest) c.index c.nextId := hsplit ▸ hwf
    have hbefore : before.find? (fun m => m.entry.key = makeKey P cfg req) = none := by
      rw [List.find?_eq_none]
      intro m hm
      have hne := hwf'.key_ne m (List.mem_append_left _ hm)
      rw [hkey] at hne
      simpa using hne
    rw [stored, hsplit, List.find?_append, hbefore, Option.none_or,
      List.find?_cons_of_pos (by simpa using hkey)]
    rfl

/-- A node taken out of the middle leaves the rest. -/
theorem length_eraseNode (hwf : c.Wf) {before rest : List Node} {n : Node}
    (hsplit : c.entries = before ++ n :: rest) :
    (eraseNode n.id c.entries).length + 1 = c.entries.length := by
  have hwf' : WellIndexed (before ++ n :: rest) c.index c.nextId := hsplit ▸ hwf
  rw [hsplit, hwf'.eraseNode_split, List.length_append, List.length_append, List.length_cons]
  omega

/-- A `get` that finds nothing counts a miss. -/
theorem get_of_not_stored (hwf : c.Wf) (now : Time) {req : ChatRequest}
    (h : cfg.enabled = false ∨ c.stored P cfg req = none) :
    c.get P cfg now req = (none, { c with misses := c.misses + 1 }) := by
  unfold get
  by_cases hen : cfg.enabled = true
  · have hnone : c.stored P cfg req = none := h.resolve_left (by simp [hen])
    rcases stored_cases P cfg hwf req with
      ⟨-, hidx⟩ | ⟨before, n, rest, -, -, hstored, -⟩
    · simp [hen, hidx]
    · rw [hnone] at hstored
      cases hstored
  · simp [hen]

/-- The node of a stored entry. -/
theorem node_of_stored (hwf : c.Wf) {req : ChatRequest} {entry : CacheEntry}
    (hstored : c.stored P cfg req = some entry) :
    ∃ before n rest, c.entries = before ++ n :: rest ∧ n.entry = entry ∧
      n.entry.key = makeKey P cfg req ∧ c.index.lookup (makeKey P cfg req) = some n.id := by
  rcases stored_cases P cfg hwf req with
    ⟨hnone, -⟩ | ⟨before, n, rest, hsplit, hkey, hfound, hidx⟩
  · rw [hnone] at hstored
    cases hstored
  · cases hfound.symm.trans hstored
    exact ⟨before, n, rest, hsplit, rfl, hkey, hidx⟩

/-- A `get` that finds an expired entry drops it and counts a miss. -/
theorem get_of_expired (hwf : c.Wf) (hen : cfg.enabled = true) {now : Time} {req : ChatRequest}
    {entry : CacheEntry} (hstored : c.stored P cfg req = some entry)
    (hold : now > entry.expiresAt) :
    (c.get P cfg now req).1 = none ∧ Booked 1 0 0 1 c (c.get P cfg now req).2 ∧
      (c.get P cfg now req).2.stored P cfg req = none := by
  obtain ⟨before, n, rest, hsplit, rfl, hkey, hidx⟩ := node_of_stored hwf hstored
  have hwf' : WellIndexed (before ++ n :: rest) c.index c.nextId := hsplit ▸ hwf
  have hlength := length_eraseNode hwf hsplit
  have hget : c.get P cfg now req = (none, { c with
      entries := eraseNode n.id c.entries
      index := c.index.erase (makeKey P cfg req)
      misses := c.misses + 1 }) := by
    simp [get, hen, hidx, deref_split hwf hsplit, hold]
  rw [hget]
  refine ⟨rfl, ⟨⟨0, 1, rfl, (UInt64.add_zero _).symm, rfl⟩, (add_zero _).symm,
    0, ?_, (UInt64.add_zero _).symm⟩, ?_⟩
  · simp only
    omega
  · rw [stored, Option.map_eq_none_iff, List.find?_eq_none, hsplit, hwf'.eraseNode_split]
    intro m hm
    have hne := hwf'.key_ne m hm
    rw [hkey] at hne
    simpa using hne

/-- A `get` that finds a live entry serves it and books what it cost. -/
theorem get_of_live (hwf : c.Wf) (hen : cfg.enabled = true) {now : Time} {req : ChatRequest}
    {entry : CacheEntry} (hstored : c.stored P cfg req = some entry)
    (hfresh : ¬ now > entry.expiresAt) :
    (c.get P cfg now req).1 = some (entry.response.asHit req) ∧
      Booked 1 entry.response.costUsd 0 0 c (c.get P cfg now req).2 := by
  obtain ⟨before, n, rest, hsplit, rfl, -, hidx⟩ := node_of_stored hwf hstored
  have hlength := length_eraseNode hwf hsplit
  have hget : c.get P cfg now req = (some (n.entry.response.asHit req), { c with
      entries := ⟨n.id, { n.entry with lastAccessed := now }⟩ :: eraseNode n.id c.entries
      hits := c.hits + 1
      savingsUsd := c.savingsUsd + n.entry.response.costUsd }) := by
    simp only [get, hen, Bool.not_true, Bool.false_eq_true, if_false, hidx,
      deref_split hwf hsplit, if_neg hfresh]
  rw [hget]
  refine ⟨rfl, ⟨⟨1, 0, rfl, rfl, (UInt64.add_zero _).symm⟩, rfl,
    0, ?_, (UInt64.add_zero _).symm⟩⟩
  simp only [List.length_cons]
  omega

/-- Forgetting a key takes out its entry, if there is one. -/
theorem withoutKey_length (hwf : c.Wf) (req : ChatRequest) :
    (c.withoutKey P cfg req).entries.length +
      (if (c.stored P cfg req).isSome then 1 else 0) = c.entries.length := by
  rcases stored_cases P cfg hwf req with
    ⟨hnone, hidx⟩ | ⟨before, n, rest, hsplit, -, hfound, hidx⟩
  · rw [hnone]
    simp [withoutKey, forget, hidx]
  · have hlength := length_eraseNode hwf hsplit
    rw [hfound]
    simpa [withoutKey, forget, hidx] using hlength

/-- The sweep counts every entry it takes out. -/
theorem sweepCrowded_evictions (now : Time) (hwf : c.Wf) :
    CountsEvicted c (c.sweepCrowded now) := by
  unfold sweepCrowded
  split
  · exact (evictExpired_spec now hwf).2.2
  · exact CountsEvicted.refl c

/-- An effective `put` brings one entry in; the one it overwrites goes out. -/
theorem put_booked (hwf : c.Wf) (hen : cfg.enabled = true) {now : Time} {req : ChatRequest}
    (hstream : req.stream = false) {resp : ChatResponse} (hpos : 0 < toSizeT cfg.maxEntries)
    (hput : c.put P cfg now req resp = some c') :
    Booked 0 0 1 (if (c.stored P cfg req).isSome then 1 else 0) c c' := by
  have hlength : (c.withoutKey P cfg req).entries.length +
      (if (c.stored P cfg req).isSome then 1 else 0) = c.entries.length := withoutKey_length hwf req
  obtain ⟨-, hwf₁, -, hevictions₁⟩ := withoutKey_spec P cfg req hwf
  have hsame₁ := withoutKey_same P cfg req c
  obtain ⟨c₂, hrun, -, hwf₂, hevictions₂⟩ := evictToCapacity_spec hwf₁
    (by rw [hsame₁.maxSize]; exact hpos) _ (Nat.le_refl _)
  obtain ⟨evicted, hcount, hevictions⟩ := hevictions₂.trans (sweepCrowded_evictions now hwf₂)
  have hsame := (hsame₁.trans (evictToCapacity_same hrun)).trans (sweepCrowded_same now c₂)
  have hhits : (c₂.sweepCrowded now).hits = c.hits := hsame.hits
  have hmisses : (c₂.sweepCrowded now).misses = c.misses := hsame.misses
  rw [put_of_effective P hen now hstream, hrun, Option.map_some] at hput
  cases hput
  refine ⟨⟨0, 0, rfl, hhits.trans (UInt64.add_zero _).symm, hmisses.trans (UInt64.add_zero _).symm⟩,
    hsame.savingsUsd.trans (add_zero _).symm, evicted, ?_, ?_⟩
  · simp only [store, pushFront, List.length_cons]
    omega
  · rw [← hevictions₁]
    exact hevictions

end Cache

namespace ConfiguredOp

/-- The sum over a history of what each operation amounts to on the cache it
runs on. -/
def total {ν : Type} [Zero ν] [Add ν] (P : Platform) (start : CacheConfig)
    (amount : ConfiguredOp → Cache → ν) : List ConfiguredOp → ν
  | [] => 0
  | o :: older => total P start amount older + ((after P start older).elim 0 fun c => amount o c)

def isGet (o : ConfiguredOp) : Bool :=
  match o.op with
  | .get _ _ => true
  | _ => false

/-- A `put` that stores its response. -/
def isEffectivePut (o : ConfiguredOp) : Bool :=
  match o.op with
  | .put _ req _ => o.cfg.enabled && !req.stream
  | _ => false

/-- The stored cost of the response that a `get` serves. -/
def saved (P : Platform) (o : ConfiguredOp) (c : Cache) : Double :=
  match o.op with
  | .get now req =>
      if (c.get P o.cfg now req).1.isSome then
        (c.stored P o.cfg req).elim 0 fun entry => entry.response.costUsd
      else 0
  | _ => 0

/-- A `put` that overwrites a key. -/
def overwrites (P : Platform) (o : ConfiguredOp) (c : Cache) : Nat :=
  match o.op with
  | .put _ req _ => if o.isEffectivePut && (c.stored P o.cfg req).isSome then 1 else 0
  | _ => 0

/-- A `get` that drops an expired entry: it was stored, and no longer is. -/
def dropsExpired (P : Platform) (o : ConfiguredOp) (c : Cache) : Nat :=
  match o.op with
  | .get now req =>
      if (c.stored P o.cfg req).any (fun entry => now > entry.expiresAt) &&
          ((c.get P o.cfg now req).2.stored P o.cfg req).isNone then 1
      else 0
  | _ => 0

/-- The entries that a `clear` removes. -/
def cleared (o : ConfiguredOp) (c : Cache) : Nat :=
  match o.op with
  | .clear => c.entries.length
  | _ => 0

variable {P : Platform}

/-- What one operation adds to the books. -/
theorem step_booked {o : ConfiguredOp} (hcap : 1 ≤ o.cfg.maxEntries) {c c' : Cache} (hwf : c.Wf)
    (hstep : o.op.step P o.cfg c = some c') :
    Cache.Booked (if o.isGet then 1 else 0) (o.saved P c) (if o.isEffectivePut then 1 else 0)
      (o.overwrites P c + o.dropsExpired P c + o.cleared c) c c' := by
  obtain ⟨cfg, op⟩ := o
  cases op with
  | clear =>
      cases hstep
      refine ⟨(Cache.Booked.refl c).lookups, (add_zero _).symm, 0, ?_, (UInt64.add_zero _).symm⟩
      simp [Cache.clear, overwrites, dropsExpired, cleared, isEffectivePut]
  | put now req resp =>
      simp only [CacheOp.step] at hstep
      by_cases heffective : cfg.enabled = true ∧ req.stream = false
      · obtain ⟨hen, hstream⟩ := heffective
        have hsize : (toSizeT cfg.maxEntries : ℤ) = cfg.maxEntries := toSizeT_of_pos hcap
        have hcap' : 1 ≤ cfg.maxEntries := hcap
        have hbooked := Cache.put_booked hwf hen hstream (by omega) hstep
        simpa [isGet, saved, overwrites, dropsExpired, cleared, isEffectivePut, hen, hstream]
          using hbooked
      · have hoff : (cfg.enabled && !req.stream) = false := by
          simpa [Bool.and_eq_false_iff] using heffective
        cases (Cache.put_of_not_effective heffective now resp).symm.trans hstep
        simpa [isGet, saved, overwrites, dropsExpired, cleared, isEffectivePut, hoff]
          using Cache.Booked.refl c
  | get now req =>
      cases hstep
      by_cases hmiss : cfg.enabled = false ∨ c.stored P cfg req = none
      · have hget := Cache.get_of_not_stored hwf now hmiss
        have hkept : ({ c with misses := c.misses + 1 } : Cache).stored P cfg req =
            c.stored P cfg req := rfl
        have hnothing : ((c.stored P cfg req).any (fun entry => now > entry.expiresAt) &&
            (c.stored P cfg req).isNone) = false := by
          cases c.stored P cfg req <;> simp
        simp only [isGet, saved, overwrites, dropsExpired, cleared, isEffectivePut, hget, hkept,
          hnothing]
        exact Cache.Booked.miss c
      · obtain ⟨hen, hsome⟩ := not_or.mp hmiss
        obtain ⟨entry, hstored⟩ := Option.ne_none_iff_exists'.mp hsome
        have hon : cfg.enabled = true := by simpa using hen
        by_cases hold : now > entry.expiresAt
        · obtain ⟨hnone, hbooked, hgone⟩ := Cache.get_of_expired hwf hon hstored hold
          simpa [isGet, saved, overwrites, dropsExpired, cleared, isEffectivePut, hnone, hstored,
            hgone, hold] using hbooked
        · obtain ⟨hserved, hbooked⟩ := Cache.get_of_live hwf hon hstored hold
          simpa [isGet, saved, overwrites, dropsExpired, cleared, isEffectivePut, hserved, hstored,
            hold] using hbooked

/-- The books add up over a history, one operation after the other. -/
theorem exists_balance (P : Platform) (start : CacheConfig) (history : List ConfiguredOp)
    (hcap : ∀ o ∈ history, 1 ≤ o.cfg.maxEntries) :
    ∃ c, ∃ hits misses evicted : ℕ, after P start history = some c ∧
      c.Shows hits misses evicted ∧
      hits + misses = history.countP isGet ∧
      c.savingsUsd = total P start (saved P) history ∧
      history.countP isEffectivePut = c.entries.length + evicted +
        total P start (overwrites P) history + total P start (dropsExpired P) history +
        total P start cleared history := by
  induction history with
  | nil => exact ⟨_, 0, 0, 0, rfl, ⟨rfl, rfl, rfl⟩, rfl, rfl, rfl⟩
  | cons o older ih =>
      have hroom := hcap o List.mem_cons_self
      have hcap' : ∀ o' ∈ older, 1 ≤ o'.cfg.maxEntries :=
        fun o' ho' => hcap o' (List.mem_cons_of_mem o ho')
      obtain ⟨c, hits, misses, evicted, hafter, hshows, hlookups, hsavings, hentries⟩ := ih hcap'
      obtain ⟨d, hd, hc⟩ := after_keeps_consistent P start older hcap'
      cases hafter.symm.trans hd
      obtain ⟨c', hstep, -⟩ := step_consistent (P := P) hroom hc
      obtain ⟨⟨newHits, newMisses, hnew, hhits, hmisses⟩, hsaved, newEvicted, hcount, hevicted⟩ :=
        step_booked hroom hc.wf hstep
      refine ⟨c', hits + newHits, misses + newMisses, evicted + newEvicted,
        by rw [after, hafter]; exact hstep, ⟨?_, ?_, ?_⟩, ?_, ?_, ?_⟩
      · rw [hhits, hshows.hits, UInt64.ofNat_add]
      · rw [hmisses, hshows.misses, UInt64.ofNat_add]
      · rw [hevicted, hshows.evictions, UInt64.ofNat_add]
      · rw [List.countP_cons, ← hlookups, ← hnew]
        omega
      · rw [total, hafter, ← hsavings]
        exact hsaved
      · simp only [total, hafter, Option.elim_some, List.countP_cons]
        omega

/-- **The books of the cache.**  After every history under changing settings with
room for an entry, hits and misses add up to the lookups, the savings to what
the responses served had cost, and every entry that was put is still stored, was
evicted, was overwritten, was found expired by a lookup or was cleared.  The
counters hold these numbers themselves until 64 bits no longer do. -/
theorem books_balance (P : Platform) (start : CacheConfig) (history : List ConfiguredOp)
    (hcap : ∀ o ∈ history, 1 ≤ o.cfg.maxEntries) :
    ∃ c, ∃ hits misses evicted : ℕ, after P start history = some c ∧
      c.Shows hits misses evicted ∧
      hits + misses = history.countP isGet ∧
      c.savingsUsd = total P start (saved P) history ∧
      history.countP isEffectivePut = c.entries.length + evicted +
        total P start (overwrites P) history + total P start (dropsExpired P) history +
        total P start cleared history ∧
      (history.length < 2 ^ 64 →
        c.hits.toNat = hits ∧ c.misses.toNat = misses ∧ c.evictions.toNat = evicted) := by
  obtain ⟨c, hits, misses, evicted, hafter, hshows, hlookups, hsavings, hentries⟩ :=
    exists_balance P start history hcap
  refine ⟨c, hits, misses, evicted, hafter, hshows, hlookups, hsavings, hentries, fun hshort => ?_⟩
  have hgets : history.countP isGet ≤ history.length := List.countP_le_length
  have hputs : history.countP isEffectivePut ≤ history.length := List.countP_le_length
  have hsize : UInt64.size = 2 ^ 64 := rfl
  rw [hshows.hits, hshows.misses, hshows.evictions]
  exact ⟨UInt64.toNat_ofNat_of_lt' (by omega), UInt64.toNat_ofNat_of_lt' (by omega),
    UInt64.toNat_ofNat_of_lt' (by omega)⟩

/-- Two puts under one key, a lookup that hits and a clear. -/
theorem books_balance_cleared :
    ∃ c, after (cLocale fnv1a) {}
        [⟨{}, .clear⟩, ⟨{}, .get 2 { model := str "a" }⟩,
          ⟨{}, .put 1 { model := str "a" } { costUsd := 3 }⟩,
          ⟨{}, .put 0 { model := str "a" } {}⟩] = some c ∧
      c.hits.toNat + c.misses.toNat = 1 := by
  obtain ⟨c, hits, misses, evicted, hafter, -, hlookups, -, -, hwhole⟩ :=
    books_balance (cLocale fnv1a) {}
      [⟨{}, .clear⟩, ⟨{}, .get 2 { model := str "a" }⟩,
        ⟨{}, .put 1 { model := str "a" } { costUsd := 3 }⟩,
        ⟨{}, .put 0 { model := str "a" } {}⟩] (by simp)
  obtain ⟨hhits, hmisses, -⟩ := hwhole (by decide)
  exact ⟨c, hafter, by rw [hhits, hmisses]; exact hlookups⟩

end ConfiguredOp

end Gateway
