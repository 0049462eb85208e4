import LlmGateway.CacheRefinement
import LlmGateway.Lib.LruInclusion

/-!
# The cache over whole histories

A history is a list of cache operations, the newest first, run from the state
the constructor leaves behind under one configuration.  `get_history` is the
contract of a lookup in terms of the history alone: what it may serve
(soundness) and what it must serve (retention).  `get_of_larger` compares two
capacities on one history.  Both proofs run the history on the
least-recently-used store that the cache refines.
-/

namespace Gateway

/-- An operation on the cache, with the time at which it runs. -/
inductive CacheOp where
  | get (now : Time) (req : ChatRequest)
  | put (now : Time) (req : ChatRequest) (resp : ChatResponse)
  | clear

namespace CacheOp

def time : CacheOp → Option Time
  | get now _ => some now
  | put now _ _ => some now
  | clear => none

/-- The cache after an operation; `none` when the operation does not return. -/
def step (P : Platform) (cfg : CacheConfig) (c : Cache) : CacheOp → Option Cache
  | get now req => some (c.get P cfg now req).2
  | put now req resp => c.put P cfg now req resp
  | clear => some c.clear

/-- The cache after a history, newest operation first. -/
def after (P : Platform) (cfg : CacheConfig) : List CacheOp → Option Cache
  | [] => some (Cache.init cfg)
  | op :: older => (after P cfg older).bind fun c => op.step P cfg c

/-- The last put of a request that is not streamed under `key`, since the last
clear: its time and the response it stored. -/
def lastPut (P : Platform) (cfg : CacheConfig) (key : Str) :
    List CacheOp → Option (Time × ChatResponse)
  | [] => none
  | clear :: _ => none
  | get _ _ :: older => lastPut P cfg key older
  | put s req resp :: older =>
      if req.stream = false ∧ makeKey P cfg req = key then some (s, resp)
      else lastPut P cfg key older

/-- The key that an operation on the cache `c` stores or hits. -/
def touched (P : Platform) (cfg : CacheConfig) (c : Cache) : CacheOp → Option Str
  | get now req => (c.get P cfg now req).1.map fun _ => makeKey P cfg req
  | put _ req _ => if req.stream then none else some (makeKey P cfg req)
  | clear => none

/-- The keys a history stores or hits, newest first. -/
def touches (P : Platform) (cfg : CacheConfig) : List CacheOp → List Str
  | [] => []
  | op :: older =>
      ((after P cfg older).bind fun c => op.touched P cfg c).toList ++ touches P cfg older

/-- The clock does not run backwards along a history. -/
def Chronological (ops : List CacheOp) : Prop :=
  (ops.filterMap time).Pairwise fun later earlier => earlier ≤ later

/-- The operation on the store of slots that a cache operation amounts to. -/
def onStore (P : Platform) (cfg : CacheConfig) :
    CacheOp → Option (Lru.Op Str ChatResponse Time)
  | get now req => some (.read now (makeKey P cfg req))
  | put now req resp =>
      if req.stream then none
      else some (.write now ⟨makeKey P cfg req, resp, now + seconds cfg.ttlSeconds⟩)
  | clear => some .clear

variable {P : Platform} {cfg : CacheConfig}

/-- **Refinement over histories.**  With the cache on and a positive capacity
every history returns, keeps the invariant and shows the slots of the
corresponding store; it also touches the same keys. -/
theorem after_refines (hen : cfg.enabled = true) (hpos : 0 < toSizeT cfg.maxEntries)
    (ops : List CacheOp) :
    ∃ c, after P cfg ops = some c ∧ c.Wf ∧
      c.view = Lru.after (toSizeT cfg.maxEntries) (ops.filterMap (onStore P cfg)) ∧
      touches P cfg ops = Lru.touches (toSizeT cfg.maxEntries) (ops.filterMap (onStore P cfg)) := by
  induction ops with
  | nil => exact ⟨Cache.init cfg, rfl, Cache.init_wf cfg, rfl, rfl⟩
  | cons op older ih =>
      obtain ⟨c, hafter, hwf, hview, htouches⟩ := ih
      simp only [after, touches, hafter, Option.bind_some, htouches]
      cases op with
      | get now req =>
          obtain ⟨hresp, hstore, hwf'⟩ := Cache.get_refines P hen now req hwf
          refine ⟨_, rfl, hwf', ?_, ?_⟩
          · rw [hstore, hview]
            simp [onStore, Lru.after, Lru.step]
          · simp [onStore, touched, hresp, hview, Lru.touches, Lru.touched, Function.comp_def]
      | put now req resp =>
          by_cases hstream : req.stream = true
          · refine ⟨c, Cache.put_of_not_effective (by simp [hstream]) now resp, hwf, ?_, ?_⟩
            · simpa [onStore, hstream] using hview
            · simp [onStore, touched, hstream]
          · have hoff : req.stream = false := by simpa using hstream
            obtain ⟨c', hput, hwf', hstore, -, -⟩ :=
              Cache.put_refines P hen now hoff resp hpos hwf
            refine ⟨c', hput, hwf', ?_, ?_⟩
            · rw [hstore, hview]
              simp [onStore, hoff, Lru.after, Lru.step]
            · simp [onStore, touched, hoff, Lru.touches, Lru.touched]
      | clear =>
          refine ⟨c.clear, rfl, Cache.clear_wf c, ?_, ?_⟩
          · simp [onStore, Cache.view, Cache.clear, Lru.after, Lru.step]
          · simp [onStore, touched, Lru.touches, Lru.touched]

/-- The last put is the last write of the store. -/
theorem lastPut_eq (key : Str) (ops : List CacheOp) :
    Lru.lastWrite key (ops.filterMap (onStore P cfg)) =
      (lastPut P cfg key ops).map fun p => ⟨key, p.2, p.1 + seconds cfg.ttlSeconds⟩ := by
  induction ops with
  | nil => rfl
  | cons op older ih =>
      cases op with
      | get now req =>
          simpa [onStore, Lru.lastWrite, lastPut] using ih
      | clear => simp [onStore, Lru.lastWrite, lastPut]
      | put now req resp =>
          by_cases hstream : req.stream = true
          · simpa [onStore, lastPut, hstream] using ih
          · by_cases hkey : makeKey P cfg req = key
            · simp [onStore, lastPut, hstream, hkey, Lru.lastWrite]
            · simpa [onStore, lastPut, hstream, hkey, Lru.lastWrite] using ih

theorem time_onStore {op : CacheOp} {o : Lru.Op Str ChatResponse Time}
    (h : op.onStore P cfg = some o) : op.time = o.time := by
  cases op with
  | get now req => cases h; rfl
  | clear => cases h; rfl
  | put now req resp =>
      simp only [onStore] at h
      split at h
      · cases h
      · cases h; rfl

/-- No operation of the store is later than a lookup that follows the history. -/
theorem times_le {ops : List CacheOp} {now : Time} {req : ChatRequest}
    (hclock : Chronological (get now req :: ops)) :
    ∀ t ∈ (ops.filterMap (onStore P cfg)).filterMap Lru.Op.time, t ≤ now := by
  intro t ht
  obtain ⟨o, ho, hot⟩ := List.mem_filterMap.mp ht
  obtain ⟨op, hop, hstore⟩ := List.mem_filterMap.mp ho
  have hmem : t ∈ ops.filterMap time :=
    List.mem_filterMap.mpr ⟨op, hop, (time_onStore hstore).trans hot⟩
  simp only [Chronological, List.filterMap_cons, time] at hclock
  exact (List.pairwise_cons.mp hclock).1 t hmem

/-- **The contract of `get`.**  After every history under a fixed configuration
with the cache on and room for at least one entry, a lookup at `now` serves
only the response of the last put of its key, within its time to live; and it
does serve that response while it is alive and fewer than `max_entries` other
keys were stored or hit since the key was. -/
theorem get_history (P : Platform) (cfg : CacheConfig) (hen : cfg.enabled = true)
    (hcap : 1 ≤ cfg.maxEntries) (ops : List CacheOp) (now : Time) (req : ChatRequest)
    (hclock : Chronological (get now req :: ops)) :
    ∃ c, after P cfg ops = some c ∧
      (∀ resp, (c.get P cfg now req).1 = some resp →
        ∃ s stored, lastPut P cfg (makeKey P cfg req) ops = some (s, stored) ∧
          resp = stored.asHit req ∧ now ≤ s + seconds cfg.ttlSeconds) ∧
      (∀ s stored, lastPut P cfg (makeKey P cfg req) ops = some (s, stored) →
        now ≤ s + seconds cfg.ttlSeconds →
        ((Lru.othersSince (makeKey P cfg req) (touches P cfg ops)).card : ℤ) < cfg.maxEntries →
          (c.get P cfg now req).1 = some (stored.asHit req)) := by
  have hsize := toSizeT_of_pos hcap
  have hpos : 0 < toSizeT cfg.maxEntries := by omega
  obtain ⟨c, hafter, hwf, hview, htouches⟩ := after_refines (P := P) hen hpos ops
  obtain ⟨hresp, -, -⟩ := Cache.get_refines P hen now req hwf
  refine ⟨c, hafter, ?_, ?_⟩
  · intro resp hget
    rw [hresp] at hget
    obtain ⟨slot, hread, rfl⟩ := Option.map_eq_some_iff.mp hget
    rw [hview] at hread
    obtain ⟨hlast, hfresh⟩ := Lru.read_sound hpos hread
    rw [lastPut_eq] at hlast
    obtain ⟨⟨s, stored⟩, hput, rfl⟩ := Option.map_eq_some_iff.mp hlast
    exact ⟨s, stored, hput, rfl, hfresh⟩
  · intro s stored hput hfresh hcard
    have hlast : Lru.lastWrite (makeKey P cfg req) (ops.filterMap (onStore P cfg)) =
        some ⟨makeKey P cfg req, stored, s + seconds cfg.ttlSeconds⟩ := by
      rw [lastPut_eq, hput]
      rfl
    have hread := Lru.read_retained hpos (times_le hclock) hlast hfresh
      (by rw [← htouches]; omega)
    rw [hresp, hview, hread]
    rfl

/-- Two keys in a cache of two: the first is stored again, and the second looked up
after it. -/
def storedAgain : List CacheOp :=
  [get 3 { model := str "b" },
    put 2 { model := str "a" } { content := str "new" },
    put 1 { model := str "b" } {},
    put 0 { model := str "a" } { content := str "old" }]

theorem get_history_storedAgain :
    ∃ c, after (cLocale fnv1a) { maxEntries := 2 } storedAgain = some c ∧
      (c.get (cLocale fnv1a) { maxEntries := 2 } (seconds 1) { model := str "a" }).1 =
        some (ChatResponse.asHit { content := str "new" } { model := str "a" }) := by
  obtain ⟨c, hafter, -, hretained⟩ := get_history (cLocale fnv1a) { maxEntries := 2 } rfl
    (by decide) storedAgain (seconds 1) { model := str "a" }
    (by simp [Chronological, storedAgain, time, seconds])
  have hothers : (Lru.othersSince
      (makeKey (cLocale fnv1a) { maxEntries := 2 } { model := str "a" })
      (touches (cLocale fnv1a) { maxEntries := 2 } storedAgain)).card < 2 := by
    with_unfolding_all decide
  exact ⟨c, hafter, hretained 2 { content := str "new" } (by with_unfolding_all rfl) (by decide)
    (by simpa using hothers)⟩

/-- The store of a history under a capacity set apart from the other settings. -/
theorem after_refines_with {n : ℤ} (hen : cfg.enabled = true) (hn : 1 ≤ n)
    (ops : List CacheOp) :
    ∃ c, after P { cfg with maxEntries := n } ops = some c ∧ c.Wf ∧
      c.view = Lru.after (toSizeT n) (ops.filterMap (onStore P cfg)) := by
  have hsize := toSizeT_of_pos hn
  have hstore : onStore P { cfg with maxEntries := n } = onStore P cfg := by
    funext op
    cases op <;> rfl
  have hen' : ({ cfg with maxEntries := n } : CacheConfig).enabled = true := hen
  obtain ⟨c, hafter, hwf, hview, -⟩ := after_refines (P := P) hen' (by dsimp only; omega) ops
  exact ⟨c, hafter, hwf, by rw [hview, hstore]⟩

/-- With a time to live that is not negative, no entry is stale when it is
stored. -/
theorem timely_onStore (httl : 0 ≤ cfg.ttlSeconds) {ops : List CacheOp}
    (hclock : Chronological ops) : Lru.Timely (ops.filterMap (onStore P cfg)) where
  clock := by
    rw [List.pairwise_filterMap, List.pairwise_filterMap]
    refine (List.pairwise_filterMap.mp hclock).imp ?_
    intro later earlier h o ho o' ho' t ht t' ht'
    exact h t ((time_onStore ho).trans ht) t' ((time_onStore ho').trans ht')
  fresh := by
    intro now s hmem hexp
    obtain ⟨op, -, hop⟩ := List.mem_filterMap.mp hmem
    cases op with
    | get now req => cases hop
    | clear => cases hop
    | put t req resp =>
        simp only [onStore] at hop
        split at hop
        · cases hop
        · cases hop
          have hpast : now + cfg.ttlSeconds * 1000000000 < now := hexp
          linarith

/-- **A larger cache never loses a hit.**  After every history under two
capacities, the other settings alike and the time to live not negative, what a
lookup serves under the smaller capacity it serves under the larger one. -/
theorem get_of_larger (P : Platform) (cfg : CacheConfig) (hen : cfg.enabled = true)
    (httl : 0 ≤ cfg.ttlSeconds) {n m : ℤ} (hn : 1 ≤ n) (hnm : n ≤ m) (ops : List CacheOp)
    (now : Time) (req : ChatRequest) (hclock : Chronological (get now req :: ops)) :
    ∃ small large, after P { cfg with maxEntries := n } ops = some small ∧
      after P { cfg with maxEntries := m } ops = some large ∧
      ∀ resp, (small.get P { cfg with maxEntries := n } now req).1 = some resp →
        (large.get P { cfg with maxEntries := m } now req).1 = some resp := by
  have hsize := toSizeT_of_pos hn
  have hsize' := toSizeT_of_pos (hn.trans hnm)
  obtain ⟨small, hsmall, hwf, hview⟩ := after_refines_with (P := P) hen hn ops
  obtain ⟨large, hlarge, hwf', hview'⟩ := after_refines_with (P := P) hen (hn.trans hnm) ops
  refine ⟨small, large, hsmall, hlarge, fun resp hget => ?_⟩
  have hen' : ∀ k : ℤ, ({ cfg with maxEntries := k } : CacheConfig).enabled = true := fun _ => hen
  obtain ⟨hresp, -, -⟩ := Cache.get_refines P (hen' n) now req hwf
  obtain ⟨hresp', -, -⟩ := Cache.get_refines P (hen' m) now req hwf'
  rw [hresp, hview] at hget
  obtain ⟨slot, hread, rfl⟩ := Option.map_eq_some_iff.mp hget
  have htimely : Lru.Timely (ops.filterMap (onStore P cfg)) := timely_onStore httl hclock.of_cons
  have hlarger := Lru.read_of_capacity_le (m := toSizeT m) (by omega) (by omega) htimely
    (times_le hclock) hread
  rw [hresp', hview']
  exact congrArg (Option.map fun s => s.value.asHit req) hlarger

/-- The second of two puts is served from one place and from two. -/
theorem get_of_larger_two :
    ∃ small large,
      after (cLocale fnv1a) { maxEntries := 1 }
        [put 1 { model := str "b" } {}, put 0 { model := str "a" } {}] = some small ∧
      after (cLocale fnv1a) { maxEntries := 2 }
        [put 1 { model := str "b" } {}, put 0 { model := str "a" } {}] = some large ∧
      ∀ resp, (small.get (cLocale fnv1a) { maxEntries := 1 } 2 { model := str "b" }).1 = some resp →
        (large.get (cLocale fnv1a) { maxEntries := 2 } 2 { model := str "b" }).1 = some resp :=
  get_of_larger (cLocale fnv1a) {} rfl (by decide) (by decide) (by decide)
    [put 1 { model := str "b" } {}, put 0 { model := str "a" } {}] 2 { model := str "b" }
    (by simp [Chronological, time])

end CacheOp

end Gateway
