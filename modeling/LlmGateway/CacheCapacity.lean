import LlmGateway.CacheHistory

/-!
# The cache under changing settings

`put` reads the capacity and the time to live again on every call, and the
cache may be switched off and on between calls.  `consistent_after` is the
invariant that every history keeps under such changes: the index and the list
agree, and the list is within the capacity it was last cut to.

The capacity comes from an `int` that nobody checks.  `put_settles_iff` says for
which values of it a `put` returns within the bound.
-/

namespace Gateway

/-- An operation on the cache and the settings in force when it runs. -/
structure ConfiguredOp where
  cfg : CacheConfig
  op : CacheOp

namespace Cache

/-- The index and the list agree, and the list is within the capacity. -/
structure Consistent (c : Cache) : Prop where
  wf : c.Wf
  size : c.entries.length ≤ c.maxSize

variable {P : Platform} {cfg : CacheConfig} {c : Cache}

theorem Consistent.get (h : c.Consistent) (now : Time) (req : ChatRequest) :
    (c.get P cfg now req).2.Consistent := by
  by_cases hen : cfg.enabled = true
  · obtain ⟨-, hview, hwf⟩ := get_refines P hen now req h.wf
    have hsettings : (c.get P cfg now req).2.maxSize = c.maxSize := by
      unfold Cache.get
      split
      · rfl
      · simp only
        split
        · rfl
        · split
          · rfl
          · split <;> rfl
    have hshort := Lru.read_length now (makeKey P cfg req) c.view
    rw [← hview, view, view, List.length_map, List.length_map] at hshort
    exact ⟨hwf, by rw [hsettings]; exact hshort.trans h.size⟩
  · have hoff : c.get P cfg now req = (none, { c with misses := c.misses + 1 }) := by
      unfold Cache.get
      rw [if_pos (by simpa using hen)]
    rw [hoff]
    exact ⟨h.wf, h.size⟩

theorem consistent_init (cfg : CacheConfig) : (init cfg).Consistent :=
  ⟨init_wf cfg, Nat.zero_le _⟩

theorem Consistent.clear (c : Cache) : c.clear.Consistent :=
  ⟨clear_wf c, Nat.zero_le _⟩

/-- An effective `put` returns within the capacity of its own settings. -/
theorem Consistent.put (h : c.Consistent) (hen : cfg.enabled = true) (now : Time)
    {req : ChatRequest} (hstream : req.stream = false) (resp : ChatResponse)
    (hcap : 1 ≤ cfg.maxEntries) :
    ∃ c', c.put P cfg now req resp = some c' ∧ c'.Consistent ∧
      (c'.entries.length : ℤ) ≤ cfg.maxEntries := by
  have hsize := toSizeT_of_pos hcap
  have hpos : 0 < toSizeT cfg.maxEntries := by omega
  obtain ⟨c', hput, hwf, hview, hmax, -⟩ := put_refines P hen now hstream resp hpos h.wf
  have hlength := Lru.write_length hpos now
    ⟨makeKey P cfg req, resp, now + seconds cfg.ttlSeconds⟩ c.view
  rw [← hview, view, List.length_map] at hlength
  exact ⟨c', hput, ⟨hwf, by rw [hmax]; exact hlength⟩, by omega⟩

end Cache

namespace ConfiguredOp

/-- The cache after a history under changing settings, newest operation first,
from the state the constructor leaves behind. -/
def after (P : Platform) (start : CacheConfig) : List ConfiguredOp → Option Cache
  | [] => some (Cache.init start)
  | o :: older => (after P start older).bind fun c => o.op.step P o.cfg c

variable {P : Platform}

theorem step_consistent {o : ConfiguredOp} (hcap : 1 ≤ o.cfg.maxEntries) {c : Cache}
    (h : c.Consistent) : ∃ c', o.op.step P o.cfg c = some c' ∧ c'.Consistent := by
  obtain ⟨cfg, op⟩ := o
  cases op with
  | get now req => exact ⟨_, rfl, h.get now req⟩
  | clear => exact ⟨_, rfl, .clear c⟩
  | put now req resp =>
      by_cases heff : cfg.enabled = true ∧ req.stream = false
      · obtain ⟨c', hput, hc', -⟩ := h.put (P := P) heff.1 now heff.2 resp hcap
        exact ⟨c', hput, hc'⟩
      · exact ⟨c, Cache.put_of_not_effective heff now resp, h⟩

/-- The invariant holds after every history with room for an entry. -/
theorem after_keeps_consistent (P : Platform) (start : CacheConfig) (history : List ConfiguredOp)
    (hcap : ∀ o ∈ history, 1 ≤ o.cfg.maxEntries) :
    ∃ c, after P start history = some c ∧ c.Consistent := by
  induction history with
  | nil => exact ⟨_, rfl, Cache.consistent_init start⟩
  | cons o older ih =>
      obtain ⟨c, hafter, hc⟩ := ih fun o' ho' => hcap o' (List.mem_cons_of_mem o ho')
      obtain ⟨c', hstep, hc'⟩ := step_consistent (P := P) (hcap o List.mem_cons_self) hc
      exact ⟨c', by rw [after, hafter]; exact hstep, hc'⟩

/-- **The index and the list.**  After every history of operations under
changing settings with room for at least one entry, the stored keys are
distinct, the index maps exactly them, each to the one node that carries it, and
the list is within the capacity it was last cut to; and a further effective
`put` returns within the capacity of its own settings. -/
theorem consistent_after (P : Platform) (start : CacheConfig) (history : List ConfiguredOp)
    (hcap : ∀ o ∈ history, 1 ≤ o.cfg.maxEntries) :
    ∃ c, after P start history = some c ∧
      (c.entries.map fun n => n.entry.key).Nodup ∧
      (∀ k, k ∈ c.index ↔ ∃ n ∈ c.entries, n.entry.key = k) ∧
      (∀ k it, c.index.lookup k = some it →
        ∃ before n rest, c.entries = before ++ n :: rest ∧ n.id = it ∧ n.entry.key = k ∧
          c.deref it = some n.entry) ∧
      c.entries.length ≤ c.maxSize ∧
      ∀ cfg now req resp, cfg.enabled = true → req.stream = false → 1 ≤ cfg.maxEntries →
        ∃ c', c.put P cfg now req resp = some c' ∧
          (c'.entries.length : ℤ) ≤ cfg.maxEntries := by
  obtain ⟨c, hafter, hc⟩ := after_keeps_consistent P start history hcap
  refine ⟨c, hafter, hc.wf.keys, fun k => ?_, fun k it hit => ?_, hc.size, ?_⟩
  · rw [← AList.lookup_isSome, Option.isSome_iff_exists]
    constructor
    · intro hit
      obtain ⟨it, hit⟩ := hit
      obtain ⟨n, hn, -, hkey⟩ := (hc.wf.index k it).mp hit
      exact ⟨n, hn, hkey⟩
    · intro hnode
      obtain ⟨n, hn, hkey⟩ := hnode
      exact ⟨n.id, (hc.wf.index k n.id).mpr ⟨n, hn, rfl, hkey⟩⟩
  · obtain ⟨n, hn, hid, hkey⟩ := (hc.wf.index k it).mp hit
    obtain ⟨before, rest, hsplit⟩ := List.append_of_mem hn
    exact ⟨before, n, rest, hsplit, hid, hkey, hid ▸ Cache.deref_split hc.wf hsplit⟩
  · intro cfg now req resp hen hstream hroom
    obtain ⟨c', hput, -, hlength⟩ := hc.put (P := P) hen now hstream resp hroom
    exact ⟨c', hput, hlength⟩

/-- A put into a cache that is cut from two entries to one. -/
theorem consistent_after_shrinking :
    ∃ c, after (cLocale fnv1a) {}
        [⟨{ maxEntries := 1 }, .put 2 { model := str "c" } {}⟩,
         ⟨{ maxEntries := 2 }, .put 1 { model := str "b" } {}⟩,
         ⟨{ maxEntries := 2 }, .put 0 { model := str "a" } {}⟩] = some c ∧
      c.entries.length ≤ c.maxSize := by
  obtain ⟨c, hafter, -, -, -, hsize, -⟩ := consistent_after (cLocale fnv1a) {}
    [⟨{ maxEntries := 1 }, .put 2 { model := str "c" } {}⟩,
     ⟨{ maxEntries := 2 }, .put 1 { model := str "b" } {}⟩,
     ⟨{ maxEntries := 2 }, .put 0 { model := str "a" } {}⟩] (by simp)
  exact ⟨c, hafter, hsize⟩

end ConfiguredOp

/-! ## Any capacity -/

namespace Cache

variable {P : Platform} {cfg : CacheConfig} {c c' : Cache}

/-- What the eviction loop returns is below the capacity. -/
theorem evictToCapacity_below {turns : Nat} (h : evictToCapacity turns c = some c') :
    c'.entries.length < c.maxSize := by
  induction turns generalizing c with
  | zero =>
      rw [evictToCapacity] at h
      split at h
      · next hlt =>
          cases h
          exact hlt
      · cases h
  | succ turns ih =>
      rw [evictToCapacity] at h
      split at h
      · next hlt =>
          cases h
          exact hlt
      · have hbelow := ih h
        rwa [(evictLru_same c).maxSize] at hbelow

/-- `put` returns exactly when its eviction loop ends, however many turns that
takes. -/
theorem put_isSome_iff_loop_ends (hen : cfg.enabled = true) (now : Time) {req : ChatRequest}
    (hstream : req.stream = false) (resp : ChatResponse) :
    (c.put P cfg now req resp).isSome ↔
      ∃ turns, (evictToCapacity turns
        ({ c with maxSize := toSizeT cfg.maxEntries, ttlSeconds := cfg.ttlSeconds }.forget
          (makeKey P cfg req))).isSome := by
  have hput := put_isSome_iff P cfg now req resp c
  simp only [hen, hstream, Bool.true_eq_false, Bool.false_eq_true, false_or] at hput
  rw [hput]
  constructor
  · intro hpos
    have hsize := (withoutKey_same P cfg req c).maxSize
    exact ⟨_, evictToCapacity_isSome (hsize ▸ hpos) _ (Nat.le_refl _)⟩
  · intro h
    obtain ⟨turns, hsome⟩ := h
    obtain ⟨c', hrun⟩ := Option.isSome_iff_exists.mp hsome
    have hbelow := evictToCapacity_below hrun
    rw [(forget_same _ _).maxSize] at hbelow
    exact Nat.zero_lt_of_lt hbelow

theorem evictExpiredLoop_length (now : Time) (before rest : List Node) (c : Cache) :
    (evictExpiredLoop now before rest c).entries.length ≤ before.length + rest.length := by
  induction before generalizing rest c with
  | nil => simp [evictExpiredLoop]
  | cons n before ih =>
      rw [evictExpiredLoop]
      split
      · have hshort := ih rest
          { c with index := c.index.erase n.entry.key, evictions := c.evictions + 1 }
        rw [List.length_cons]
        omega
      · have hshort := ih (n :: rest) c
        rw [List.length_cons] at hshort ⊢
        omega

theorem sweepCrowded_length (now : Time) (c : Cache) :
    (c.sweepCrowded now).entries.length ≤ c.entries.length := by
  unfold sweepCrowded
  split
  · have hshort := evictExpiredLoop_length now c.entries.reverse [] c
    rwa [List.length_reverse] at hshort
  · exact Nat.le_refl _

/-- A `put` that takes effect leaves an entry, and no more than the capacity. -/
theorem put_length (hen : cfg.enabled = true) {now : Time} {req : ChatRequest}
    (hstream : req.stream = false) {resp : ChatResponse}
    (h : c.put P cfg now req resp = some c') :
    0 < c'.entries.length ∧ c'.entries.length ≤ toSizeT cfg.maxEntries := by
  rw [put_of_effective P hen now hstream, Option.map_eq_some_iff] at h
  obtain ⟨c₂, hrun, rfl⟩ := h
  have hbelow := evictToCapacity_below hrun
  have hsize : (c.withoutKey P cfg req).maxSize = toSizeT cfg.maxEntries :=
    (withoutKey_same P cfg req c).maxSize
  have hswept := sweepCrowded_length now c₂
  simp only [store, pushFront, List.length_cons]
  omega

/-- **`put` for every capacity.**  From every state of the cache, a `put` of a
request that is not streamed returns with no more entries than the configured
number (none if that is negative) exactly when the cache is on and the number is
positive, or the cache is off and was within it before. -/
theorem put_settles_iff (P : Platform) (cfg : CacheConfig) (now : Time) (req : ChatRequest)
    (hstream : req.stream = false) (resp : ChatResponse) (c : Cache) :
    (∃ c', c.put P cfg now req resp = some c' ∧
        (c'.entries.length : ℤ) ≤ max cfg.maxEntries 0) ↔
      (cfg.enabled = true ∧ 1 ≤ cfg.maxEntries) ∨
        (cfg.enabled = false ∧ (c.entries.length : ℤ) ≤ max cfg.maxEntries 0) := by
  cases hen : cfg.enabled with
  | false => simp [put, hen]
  | true =>
      simp only [true_and, Bool.true_eq_false, false_and, or_false]
      constructor
      · intro h
        obtain ⟨c', hput, hbound⟩ := h
        obtain ⟨hsome, -⟩ := put_length hen hstream hput
        omega
      · intro hcap
        have hsize := toSizeT_of_pos hcap
        have hreturns : (c.put P cfg now req resp).isSome :=
          (put_isSome_iff P cfg now req resp c).mpr (.inr (.inr (by omega)))
        obtain ⟨c', hput⟩ := Option.isSome_iff_exists.mp hreturns
        obtain ⟨-, hlength⟩ := put_length hen hstream hput
        exact ⟨c', hput, by omega⟩

/-- Three entries, stored while there was room. -/
def threeEntries : Cache :=
  (((init {}).pushFront ⟨str "a", {}, 9, 0⟩).pushFront ⟨str "b", {}, 9, 0⟩).pushFront
    ⟨str "c", {}, 9, 0⟩

/-- The next put under a smaller bound cuts them down to it. -/
theorem put_settles_iff_cut :
    ∃ c', threeEntries.put (cLocale fnv1a) { maxEntries := 2 } 1 { model := str "m" } {} = some c' ∧
      (c'.entries.length : ℤ) ≤ 2 :=
  (put_settles_iff (cLocale fnv1a) { maxEntries := 2 } 1 { model := str "m" } rfl {}
    threeEntries).mpr (.inl ⟨rfl, by decide⟩)

/-- With a configured number of zero the eviction loop never ends. -/
theorem put_hangs_without_room :
    ¬ ∀ (P : Platform) (cfg : CacheConfig) (now : Time) (req : ChatRequest) (resp : ChatResponse)
        (c : Cache), req.stream = false →
      ∃ c', c.put P cfg now req resp = some c' ∧
        (c'.entries.length : ℤ) ≤ max cfg.maxEntries 0 := by
  intro h
  obtain ⟨c', hput, -⟩ := h (cLocale fnv1a) { maxEntries := 0 } 0 { model := str "m" } {}
    (init { maxEntries := 0 }) rfl
  have hhangs : ((init { maxEntries := 0 }).put (cLocale fnv1a) { maxEntries := 0 } 0
      { model := str "m" } {}).isSome = false := by decide
  rw [hput] at hhangs
  cases hhangs

end Cache

end Gateway
