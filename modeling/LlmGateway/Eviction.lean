import LlmGateway.CacheCapacity
import LlmGateway.Lib.LruEviction

/-!
# What a put evicts

`put` cuts the list from its end while it is at capacity and only then sweeps
out what has expired, and a read moves an old entry to the front.  So a live
entry may go while an expired one stays, or is swept out right after it.

An entry is used when it is stored or hit, and the list stands in the order of
last use (`ordered_after`).  `put_evicts_by_recency` says what is evicted instead:
a live entry goes only if the entries used more recently fill the cache, whether
they are alive or not, and with it every entry used less recently.
-/

namespace Gateway

namespace ConfiguredOp

/-- The key that an operation on the cache `c` stores or hits, under its own
settings. -/
def touched (P : Platform) (o : ConfiguredOp) (c : Cache) : Option Str :=
  match o.op with
  | .get now req => (c.get P o.cfg now req).1.map fun _ => makeKey P o.cfg req
  | .put _ req _ =>
      if o.cfg.enabled = true ∧ req.stream = false then some (makeKey P o.cfg req) else none
  | .clear => none

/-- The keys a history uses, newest first. -/
def touches (P : Platform) (start : CacheConfig) : List ConfiguredOp → List Str
  | [] => []
  | o :: older => ((after P start older).bind (o.touched P)).toList ++ touches P start older

variable {P : Platform}

/-- An operation keeps the list in the order of last use. -/
theorem step_ordered {o : ConfiguredOp} (hcap : 1 ≤ o.cfg.maxEntries) {c c' : Cache}
    (hwf : c.Wf) (hstep : o.op.step P o.cfg c = some c') {log : List Str}
    (h : Lru.Ordered log c.view) : Lru.Ordered ((o.touched P c).toList ++ log) c'.view := by
  obtain ⟨cfg, op⟩ := o
  have hsize : (toSizeT cfg.maxEntries : ℤ) = cfg.maxEntries := toSizeT_of_pos hcap
  have hpos : 0 < toSizeT cfg.maxEntries := by
    simp only at hcap
    omega
  cases op with
  | get now req =>
      cases hstep
      by_cases hen : cfg.enabled = true
      · obtain ⟨hresp, hview, -⟩ := Cache.get_refines P hen now req hwf
        have hread := h.step (toSizeT cfg.maxEntries) (.read now (makeKey P cfg req))
        simp only [Lru.touched, Lru.step] at hread
        simpa only [touched, hresp, hview, Option.map_map, Function.comp_def] using hread
      · have hoff : c.get P cfg now req = (none, { c with misses := c.misses + 1 }) := by
          unfold Cache.get
          rw [if_pos (by simpa using hen)]
        simp only [touched, hoff]
        exact h
  | put now req resp =>
      by_cases heff : cfg.enabled = true ∧ req.stream = false
      · obtain ⟨c'', hput, -, hview, -⟩ :=
          Cache.put_refines P heff.1 now heff.2 resp hpos hwf
        cases hput.symm.trans hstep
        simp only [touched, if_pos heff, hview]
        exact h.step (toSizeT cfg.maxEntries)
          (.write now ⟨makeKey P cfg req, resp, now + seconds cfg.ttlSeconds⟩)
      · cases (Cache.put_of_not_effective heff now resp).symm.trans hstep
        simp only [touched, if_neg heff]
        exact h
  | clear =>
      cases hstep
      exact List.Pairwise.nil

/-- After every history with room for an entry the list stands in the order of last
use. -/
theorem ordered_after {start : CacheConfig} {history : List ConfiguredOp}
    (hcap : ∀ o ∈ history, 1 ≤ o.cfg.maxEntries) {c : Cache}
    (hafter : after P start history = some c) :
    Lru.Ordered (touches P start history) c.view := by
  induction history generalizing c with
  | nil =>
      cases hafter
      exact List.Pairwise.nil
  | cons o older ih =>
      obtain ⟨before, hbefore, hconsistent⟩ := after_keeps_consistent P start older
        fun o' ho' => hcap o' (List.mem_cons_of_mem o ho')
      rw [after, hbefore] at hafter
      rw [touches, hbefore]
      exact step_ordered (hcap o List.mem_cons_self) hconsistent.wf hafter
        (ih (fun o' ho' => hcap o' (List.mem_cons_of_mem o ho')) hbefore)

end ConfiguredOp

namespace Cache

/-- The cache after so many turns of the eviction loop of a `put`. -/
def duringLoop (P : Platform) (cfg : CacheConfig) (req : ChatRequest) (c : Cache) (turns : Nat) :
    Cache :=
  evictLru^[turns] (({ c with maxSize := toSizeT cfg.maxEntries, ttlSeconds := cfg.ttlSeconds } :
    Cache).forget (makeKey P cfg req))

/-- The `put` that leads from `c` to `c'` spares the live: its loop takes a live
entry only when all that are left are alive, and it evicts one only if the live
entries of other keys fill the capacity. -/
structure SparesLive (P : Platform) (cfg : CacheConfig) (now : Time) (req : ChatRequest)
    (c c' : Cache) : Prop where
  order : ∀ turns back,
    toSizeT cfg.maxEntries ≤ (c.duringLoop P cfg req turns).entries.length →
    (c.duringLoop P cfg req turns).view.getLast? = some back → ¬ back.Expired now →
    ∀ s ∈ (c.duringLoop P cfg req turns).view, ¬ s.Expired now
  full : ∀ s, Lru.Evicted c.view c'.view s → ¬ s.Expired now →
    cfg.maxEntries ≤ (Lru.sweep now (Lru.remove (makeKey P cfg req) c.view)).length

variable {P : Platform} {cfg : CacheConfig} {c : Cache} {req : ChatRequest}

theorem evictLru_entries (c : Cache) : c.evictLru.entries = c.entries.dropLast := by
  unfold evictLru
  cases hlast : c.entries.getLast? with
  | none =>
      rw [List.getLast?_eq_none_iff] at hlast
      rw [hlast]
      rfl
  | some back => rfl

/-- The loop cuts one node a turn. -/
theorem iterate_evictLru_entries (turns : Nat) (c : Cache) :
    (evictLru^[turns] c).entries = c.entries.take (c.entries.length - turns) := by
  induction turns generalizing c with
  | zero => exact (List.take_length ..).symm
  | succ turns ih =>
      rw [Function.iterate_succ_apply, ih, evictLru_entries, List.length_dropLast,
        List.dropLast_eq_take, List.take_take]
      congr 1
      omega

theorem duringLoop_view (hwf : c.Wf) (req : ChatRequest) (turns : Nat) :
    (c.duringLoop P cfg req turns).view =
      (Lru.remove (makeKey P cfg req) c.view).take
        ((Lru.remove (makeKey P cfg req) c.view).length - turns) := by
  obtain ⟨hview, -⟩ := withoutKey_spec P cfg req hwf
  have hlength : (c.withoutKey P cfg req).entries.length =
      (Lru.remove (makeKey P cfg req) c.view).length := by
    rw [← hview, view, List.length_map]
  calc (c.duringLoop P cfg req turns).view
      = ((c.withoutKey P cfg req).entries.take
          ((c.withoutKey P cfg req).entries.length - turns)).map Node.slot := by
        rw [view, duringLoop, iterate_evictLru_entries]
        rfl
    _ = (c.withoutKey P cfg req).view.take
          ((Lru.remove (makeKey P cfg req) c.view).length - turns) := by
        rw [List.map_take, hlength]
        rfl
    _ = _ := by rw [hview]

theorem Wf.slot_keys (hwf : c.Wf) : (c.view.map Lru.Slot.key).Nodup := by
  rw [view, List.map_map]
  exact hwf.keys

/-- A put spares the live exactly when no expired entry stands in front of a
live one that the loop reaches. -/
theorem sparesLive_iff (hwf : c.Wf) {now : Time} {resp : ChatResponse} {c' : Cache}
    (hroom : 1 ≤ cfg.maxEntries)
    (hview : c'.view = Lru.write (toSizeT cfg.maxEntries) now
      ⟨makeKey P cfg req, resp, now + seconds cfg.ttlSeconds⟩ c.view) :
    SparesLive P cfg now req c c' ↔
      Lru.FreshInFront (toSizeT cfg.maxEntries) now (Lru.remove (makeKey P cfg req) c.view) := by
  have hsize := toSizeT_of_pos hroom
  have hlength : ∀ turns, (c.duringLoop P cfg req turns).entries.length =
      (c.duringLoop P cfg req turns).view.length := fun turns => (List.length_map _).symm
  constructor
  · intro h
    refine Lru.cut_iff.mp fun turns back hlong hlast hfresh => ?_
    have horder := h.order turns back
    rw [hlength, duringLoop_view hwf] at horder
    exact horder hlong hlast hfresh
  · intro h
    refine ⟨fun turns back => ?_, fun s hevicted hfresh => ?_⟩
    · rw [hlength, duringLoop_view hwf]
      exact Lru.cut_iff.mpr h turns back
    · rw [hview] at hevicted
      have hfull : toSizeT cfg.maxEntries ≤
          (Lru.sweep now (Lru.remove (makeKey P cfg req) c.view)).length :=
        Lru.full_of_freshInFront h (Wf.slot_keys hwf) hevicted hfresh
      omega

/-- **What a put evicts.**  After every history under changing settings with room
for an entry, a put evicts a live entry only if the entries of other keys used
more recently, live or expired, leave it no room, and then every entry of another
key used less recently goes too.  Its loop takes a live entry only when all that
are left are alive, and only if the live entries of other keys fill the capacity,
exactly when every live entry that the more recently used ones leave no room has
only live ones among these. -/
theorem put_evicts_by_recency (P : Platform) (start : CacheConfig) (history : List ConfiguredOp)
    (hcap : ∀ o ∈ history, 1 ≤ o.cfg.maxEntries) (cfg : CacheConfig)
    (hroom : 1 ≤ cfg.maxEntries) (now : Time) (req : ChatRequest) (resp : ChatResponse) :
    ∃ c, ConfiguredOp.after P start history = some c ∧
      (¬ (cfg.enabled = true ∧ req.stream = false) → c.put P cfg now req resp = some c) ∧
      (cfg.enabled = true → req.stream = false → ∃ c', c.put P cfg now req resp = some c' ∧
        let uses := ConfiguredOp.touches P start history
        let others := Lru.remove (makeKey P cfg req) c.view
        (∀ s, Lru.Evicted c.view c'.view s → ¬ s.Expired now →
          cfg.maxEntries ≤ (Lru.recent uses s others).length + 1 ∧
          ∀ later ∈ others, s ∈ Lru.recent uses later others →
            Lru.Evicted c.view c'.view later) ∧
        (SparesLive P cfg now req c c' ↔
          ∀ s ∈ others, cfg.maxEntries ≤ (Lru.recent uses s others).length + 1 →
            ¬ s.Expired now → ∀ b ∈ Lru.recent uses s others, ¬ b.Expired now)) := by
  obtain ⟨c, hafter, hc⟩ := ConfiguredOp.after_keeps_consistent P start history hcap
  refine ⟨c, hafter, fun hoff => put_of_not_effective hoff now resp, fun hen hstream => ?_⟩
  have hsize := toSizeT_of_pos hroom
  have hbound : ∀ n : Nat, toSizeT cfg.maxEntries ≤ n + 1 ↔ cfg.maxEntries ≤ (n : ℤ) + 1 := by
    omega
  have hordered := ConfiguredOp.ordered_after hcap hafter
  have hothers := List.Pairwise.sublist (Lru.remove_sublist (makeKey P cfg req) c.view) hordered
  obtain ⟨c', hput, -, hview, -⟩ := put_refines P hen now hstream resp (by omega) hc.wf
  refine ⟨c', hput, fun s hevicted hfresh => ?_, ?_⟩
  · rw [hview] at hevicted ⊢
    obtain ⟨hfar, hrest⟩ :=
      Lru.write_evicts_least_recent hordered (Wf.slot_keys hc.wf) hevicted hfresh
    exact ⟨(hbound _).mp hfar, hrest⟩
  · rw [sparesLive_iff hc.wf hroom hview, Lru.freshInFront_iff hothers]
    simp only [hbound]

/-! ### An old entry that was read -/

/-- Room for two entries, which live ten seconds. -/
def twoForTenSeconds : CacheConfig := { maxEntries := 2, ttlSeconds := 10 }

/-- `a` is put, then `b`, and then `a` is read; the newest operation first. -/
def readAfterPuts : List CacheOp :=
  [.get (seconds 6) { model := str "a" }, .put (seconds 5) { model := str "b" } {},
    .put 0 { model := str "a" } {}]

/-- The law for a put of a third key when `a` has expired. -/
theorem put_evicts_by_recency_third :
    ∃ c, ConfiguredOp.after (cLocale fnv1a) {} (readAfterPuts.map (⟨twoForTenSeconds, ·⟩)) =
        some c ∧
      ∃ c', c.put (cLocale fnv1a) twoForTenSeconds (seconds 12) { model := str "c" } {} = some c' ∧
        let uses := ConfiguredOp.touches (cLocale fnv1a) {}
          (readAfterPuts.map (⟨twoForTenSeconds, ·⟩))
        let others :=
          Lru.remove (makeKey (cLocale fnv1a) twoForTenSeconds { model := str "c" }) c.view
        ∀ s, Lru.Evicted c.view c'.view s → ¬ s.Expired (seconds 12) →
          2 ≤ ((Lru.recent uses s others).length : ℤ) + 1 ∧
          ∀ later ∈ others, s ∈ Lru.recent uses later others →
            Lru.Evicted c.view c'.view later := by
  obtain ⟨c, hafter, -, heffective⟩ := put_evicts_by_recency (cLocale fnv1a) {}
    (readAfterPuts.map (⟨twoForTenSeconds, ·⟩)) (by decide) twoForTenSeconds (by decide)
    (seconds 12) { model := str "c" } {}
  obtain ⟨c', hput, hevicts, -⟩ := heffective rfl rfl
  exact ⟨c, hafter, c', hput, hevicts⟩

/-- The put evicts `b`, which is alive, while `a`, which has expired, stays. -/
theorem read_entry_outlives_a_live_one :
    ¬ ∀ (P : Platform) (cfg : CacheConfig) (ops : List CacheOp) (now : Time) (req : ChatRequest)
        (resp : ChatResponse) (c c' : Cache), cfg.enabled = true → 1 ≤ cfg.maxEntries →
      CacheOp.Chronological (.put now req resp :: ops) → CacheOp.after P cfg ops = some c →
      c.put P cfg now req resp = some c' → SparesLive P cfg now req c c' := by
  intro h
  have hexpires : (CacheOp.after (cLocale fnv1a) twoForTenSeconds readAfterPuts).map (fun c =>
      (c.duringLoop (cLocale fnv1a) twoForTenSeconds { model := str "c" } 0).view.map
        Lru.Slot.expires) = some [seconds 10, seconds 15] := by
    with_unfolding_all decide
  obtain ⟨c, hafter, hslots⟩ := Option.map_eq_some_iff.mp hexpires
  have hreturns := (put_isSome_iff (cLocale fnv1a) twoForTenSeconds (seconds 12)
    { model := str "c" } {} c).mpr (.inr (.inr (by decide)))
  obtain ⟨c', hput⟩ := Option.isSome_iff_exists.mp hreturns
  have hspares := h (cLocale fnv1a) twoForTenSeconds readAfterPuts (seconds 12)
    { model := str "c" } {} c c' rfl (by decide)
    (by simp [CacheOp.Chronological, CacheOp.time, readAfterPuts, seconds]) hafter hput
  obtain ⟨a, rest, hview, ha, hrest⟩ := List.map_eq_cons_iff.mp hslots
  obtain ⟨b, others, rfl, hb, hothers⟩ := List.map_eq_cons_iff.mp hrest
  rw [List.map_eq_nil_iff.mp hothers] at hview
  have hlength :
      (c.duringLoop (cLocale fnv1a) twoForTenSeconds { model := str "c" } 0).entries.length = 2 := by
    have hslots : _ = [a, b].length := congrArg List.length hview
    rw [view, List.length_map] at hslots
    exact hslots
  have horder := hspares.order 0 b (by rw [hlength]; decide) (by rw [hview]; rfl)
  rw [hview] at horder
  have hfresh : ¬ b.Expired (seconds 12) := by
    unfold Lru.Slot.Expired
    rw [hb]
    decide
  have hstale : a.Expired (seconds 12) := by
    unfold Lru.Slot.Expired
    rw [ha]
    decide
  exact horder hfresh a List.mem_cons_self hstale

end Cache

end Gateway
