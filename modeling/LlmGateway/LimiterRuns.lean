import LlmGateway.Admission
import LlmGateway.Lib.WindowCount

/-!
# The rate limiter over whole runs

Calls on the rate limiter, the newest first, from the empty table.  The window of
a key is started lazily, by the first check that finds the old one a minute old,
and the age is truncated to whole seconds; all the same the starts of its windows
are a minute apart, so that the requests admitted in any interval can be counted
by the windows it meets.  The request counter of a key refines the abstract
counter of `WindowCount`.
-/

namespace Gateway

/-- An `int` holds the number. -/
def FitsInt (n : ℤ) : Prop := -2 ^ 31 ≤ n ∧ n < 2 ^ 31

instance : DecidablePred FitsInt := fun _ => inferInstanceAs (Decidable (_ ∧ _))

theorem wrap32_of_fits {n : ℤ} (h : FitsInt n) : wrap32 n = n := by
  obtain ⟨hlow, hhigh⟩ := h
  unfold wrap32
  rw [Int.bmod_eq_of_le_mul_two] <;> omega

theorem fitsInt_wrap32 (n : ℤ) : FitsInt (wrap32 n) := by
  have hlow := Int.le_bmod (x := n) (m := 2 ^ 32) (by decide)
  have hhigh := Int.bmod_lt (x := n) (m := 2 ^ 32) (by decide)
  unfold FitsInt wrap32
  constructor
  · exact hlow
  · exact hhigh

/-- A call on the rate limiter. -/
inductive LimiterCall where
  | check (now : Time) (key : Str) (estimated : ℤ)
  | record (now : Time) (key : Str) (tokens : ℤ)
  | reset (key : Str)
  deriving DecidableEq, Repr

namespace LimiterCall

def time : LimiterCall → Option Time
  | check now _ _ => some now
  | record now _ _ => some now
  | reset _ => none

/-- The key a call is about. -/
def key : LimiterCall → Str
  | check _ key _ => key
  | record _ key _ => key
  | reset key => key

/-- The limiter after a call. -/
def step (cfg : RateLimitConfig) (l : RateLimiter) : LimiterCall → RateLimiter
  | check now key estimated => (l.checkRequest cfg now key estimated).2
  | record now key tokens => l.recordTokens cfg now key tokens
  | reset key => l.reset key

/-- The limiter after a run of calls, newest first. -/
def after (cfg : RateLimitConfig) (l : RateLimiter) : List LimiterCall → RateLimiter
  | [] => l
  | call :: older => call.step cfg (after cfg l older)

/-- The clock does not run backwards along a run. -/
def Chronological (calls : List LimiterCall) : Prop :=
  (calls.filterMap time).Pairwise fun later earlier => earlier ≤ later

instance : DecidablePred Chronological :=
  fun calls => inferInstanceAs (Decidable (List.Pairwise _ (calls.filterMap time)))

/-- The bucket of a key after the window test of a check. -/
def tested (cfg : RateLimitConfig) (now : Time) (key : Str) (l : RateLimiter) : Bucket :=
  (l.getBucket cfg now key).resetIfExpired now

/-- The requests of a key that a run admitted, newest first, each with the start
of its window. -/
def admissions (cfg : RateLimitConfig) (l : RateLimiter) (key : Str) :
    List LimiterCall → List WindowCount.Event
  | [] => []
  | check now key' estimated :: older =>
      if key' = key ∧ ((after cfg l older).checkRequest cfg now key estimated).1.allowed then
        ⟨now, (tested cfg now key (after cfg l older)).windowStart⟩ :: admissions cfg l key older
      else admissions cfg l key older
  | record _ _ _ :: older => admissions cfg l key older
  | reset _ :: older => admissions cfg l key older

end LimiterCall

/-! ## Windows -/

/-- Truncating the age to whole seconds does not matter at a whole minute. -/
theorem minuteOver_iff {start now : Time} : MinuteOver start now ↔ start + seconds 60 ≤ now := by
  have hkey : ∀ d : ℤ, d.tdiv 1000000000 ≥ 60 ↔ 60 * 1000000000 ≤ d := by
    intro d
    rcases le_total 0 d with hd | hd
    · rw [Int.tdiv_eq_ediv_of_nonneg hd]
      omega
    · have hneg : d.tdiv 1000000000 ≤ 0 := by
        rw [← Int.neg_neg d, Int.neg_tdiv, Int.tdiv_eq_ediv_of_nonneg (by omega)]
        omega
      omega
  unfold MinuteOver inSeconds seconds
  rw [hkey]
  constructor <;> intro h <;> linarith

namespace KeyWindow

/-- The window as the abstract counter has it. -/
def toWindow (w : KeyWindow) : WindowCount.Window := ⟨w.start, w.count⟩

end KeyWindow

namespace Bucket

/-- What a check does to the requests of a bucket: it admits one more below the
limit, or leaves the bucket as it is. -/
theorem check_cases (now : Time) (estimated : ℤ) (b : Bucket) :
    ((b.check now estimated).1.allowed = true ∧ b.requestsCount < b.rpmLimit ∧
      (b.check now estimated).2 = { b with requestsCount := wrap32 (b.requestsCount + 1) }) ∨
    ((b.check now estimated).1.allowed = false ∧ (b.check now estimated).2 = b) := by
  unfold check
  by_cases hfull : b.requestsCount ≥ b.rpmLimit
  · simp only [if_pos hfull]
    exact .inr ⟨trivial, trivial⟩
  · by_cases htokens : estimated > 0 ∧ wrap32 (b.tokensCount + estimated) > b.tpmLimit
    · simp only [if_neg hfull, if_pos htokens]
      exact .inr ⟨trivial, trivial⟩
    · simp only [if_neg hfull, if_neg htokens]
      exact .inl ⟨trivial, not_le.mp hfull, trivial⟩

/-- A check admits a request if the bucket has room for it and for its estimate. -/
theorem check_allowed_iff (now : Time) (estimated : ℤ) (b : Bucket) :
    (b.check now estimated).1.allowed = true ↔ b.requestsCount < b.rpmLimit ∧
      (0 < estimated → wrap32 (b.tokensCount + estimated) ≤ b.tpmLimit) := by
  unfold check
  by_cases hfull : b.requestsCount ≥ b.rpmLimit
  · simp [hfull]
  · by_cases htokens : estimated > 0 ∧ wrap32 (b.tokensCount + estimated) > b.tpmLimit
    · simp only [if_neg hfull, if_pos htokens]
      simp [htokens.1, htokens.2]
    · simp only [if_neg hfull, if_neg htokens]
      simpa [not_le.mp hfull] using htokens

theorem resetIfExpired_current (now : Time) (b : Bucket) :
    (b.resetIfExpired now).window.toWindow =
      WindowCount.current (seconds 60) now (some b.window.toWindow) := by
  rw [resetIfExpired_window, WindowCount.current]
  by_cases hover : MinuteOver b.windowStart now
  · have hover' : b.window.toWindow.start + seconds 60 ≤ now := minuteOver_iff.mp hover
    rw [if_pos hover, if_pos hover']
    rfl
  · have hover' : ¬ b.window.toWindow.start + seconds 60 ≤ now :=
      fun h => hover (minuteOver_iff.mpr h)
    rw [if_neg hover, if_neg hover']

theorem resetIfExpired_rpmLimit (now : Time) (b : Bucket) :
    (b.resetIfExpired now).rpmLimit = b.rpmLimit := by
  unfold resetIfExpired
  split <;> rfl

end Bucket

namespace LimiterCall

variable {cfg : RateLimitConfig} {key : Str} {l : RateLimiter} {now : Time}

/-- A call leaves the buckets of other keys alone. -/
theorem lookup_step_of_ne {call : LimiterCall} (hother : call.key ≠ key) (l : RateLimiter) :
    (call.step cfg l).buckets.lookup key = l.buckets.lookup key := by
  cases call with
  | check t other estimated => exact AList.lookup_insert_ne (Ne.symm hother)
  | record t other tokens => exact AList.lookup_insert_ne (Ne.symm hother)
  | reset other => exact AList.lookup_erase_ne (Ne.symm hother)

/-- A check is decided by the tested bucket, and leaves it as its own check does. -/
theorem checkRequest_tested (cfg : RateLimitConfig) (now : Time) (key : Str) (estimated : ℤ)
    (l : RateLimiter) :
    (l.checkRequest cfg now key estimated).1 = ((tested cfg now key l).check now estimated).1 ∧
      (l.checkRequest cfg now key estimated).2.buckets.lookup key =
        some ((tested cfg now key l).check now estimated).2 :=
  ⟨rfl, AList.lookup_insert _⟩

theorem checkRequest_window (cfg : RateLimitConfig) (now : Time) (key : Str) (estimated : ℤ)
    (l : RateLimiter) : (l.checkRequest cfg now key estimated).2.window key =
      some ((tested cfg now key l).check now estimated).2.window :=
  RateLimiter.window_insert _

/-- The window test of a check finds the window in progress. -/
theorem tested_window (cfg : RateLimitConfig) (now : Time) (key : Str) (l : RateLimiter) :
    (tested cfg now key l).window.toWindow =
      WindowCount.current (seconds 60) now ((l.window key).map KeyWindow.toWindow) := by
  unfold tested RateLimiter.window RateLimiter.getBucket
  cases l.buckets.lookup key with
  | none =>
      have hsame : (Bucket.fresh cfg now).resetIfExpired now = Bucket.fresh cfg now :=
        if_neg (not_minuteOver_self now)
      rw [Option.getD_none, hsame]
      rfl
  | some b => exact Bucket.resetIfExpired_current now b

/-- It is open. -/
theorem tested_open (cfg : RateLimitConfig) (now : Time) (key : Str) (l : RateLimiter) :
    now < (tested cfg now key l).windowStart + seconds 60 := by
  have hcurrent := WindowCount.current_open (show 0 < seconds 60 by decide) now
    ((l.window key).map KeyWindow.toWindow)
  rw [← tested_window cfg] at hcurrent
  exact hcurrent

/-- A bucket keeps its limit, which is the default of the configuration. -/
theorem tested_rpmLimit (cfg : RateLimitConfig) (now : Time) (key : Str) (l : RateLimiter) :
    (tested cfg now key l).rpmLimit =
      ((l.window key).map KeyWindow.limit).getD cfg.defaultRpm := by
  unfold tested RateLimiter.window RateLimiter.getBucket
  rw [Bucket.resetIfExpired_rpmLimit]
  cases l.buckets.lookup key with
  | none => rfl
  | some b => rfl

/-- What the log of the admissions up to `now` says about the window of the key. -/
def Counts (cfg : RateLimitConfig) (log : List WindowCount.Event) (now : Time) :
    Option KeyWindow → Prop
  | none => log = []
  | some w => w.limit = cfg.defaultRpm ∧ 0 ≤ w.count ∧
      WindowCount.Tallied (seconds 60) (max cfg.defaultRpm 0) log now w.toWindow

variable {log : List WindowCount.Event}

theorem Counts.later {w : Option KeyWindow} (h : Counts cfg log now w) {now' : Time}
    (hle : now ≤ now') : Counts cfg log now' w := by
  cases w with
  | none => exact h
  | some w =>
      obtain ⟨hlimit, hcount, htallied⟩ := h
      exact ⟨hlimit, hcount, htallied.later hle⟩

theorem Counts.bounded {w : Option KeyWindow} (h : Counts cfg log now w) (start : ℤ) :
    (log.countP (WindowCount.Event.start · = start) : ℤ) ≤ max cfg.defaultRpm 0 := by
  cases w with
  | none =>
      obtain rfl : log = [] := h
      exact le_max_right _ _
  | some w => exact h.2.2.bounded start

/-- The window test keeps the count. -/
theorem counts_tested (h : Counts cfg log now (l.window key)) :
    Counts cfg log now (some (tested cfg now key l).window) := by
  have hlimit := tested_rpmLimit cfg now key l
  have hcurrent := tested_window cfg now key l
  have hcount : (tested cfg now key l).window.count =
      (tested cfg now key l).window.toWindow.count := rfl
  cases hw : l.window key with
  | none =>
      rw [hw] at h hlimit hcurrent
      obtain rfl : log = [] := h
      refine ⟨hlimit, ?_, ?_⟩
      · rw [hcount, hcurrent]
        exact le_rfl
      · rw [hcurrent]
        exact .fresh (le_max_right _ _) now
  | some w =>
      rw [hw] at h hlimit hcurrent
      obtain ⟨hkept, hnonneg, htallied⟩ := h
      refine ⟨hlimit.trans hkept, ?_, ?_⟩
      · rw [hcount, hcurrent, Option.map_some, WindowCount.current]
        split
        · exact le_rfl
        · exact hnonneg
      · rw [hcurrent]
        exact htallied.current (by decide)

/-- A check counts the request it admits, in the window it is tested in. -/
theorem counts_check (hint : cfg.defaultRpm < 2 ^ 31) (estimated : ℤ)
    (h : Counts cfg log now (l.window key)) :
    Counts cfg
      (if (l.checkRequest cfg now key estimated).1.allowed then
        ⟨now, (tested cfg now key l).windowStart⟩ :: log else log) now
      ((l.checkRequest cfg now key estimated).2.window key) := by
  obtain ⟨hlimit, hnonneg, htallied⟩ := counts_tested h
  have hopen : now < (tested cfg now key l).windowStart + seconds 60 := tested_open cfg now key l
  rw [checkRequest_window, (checkRequest_tested cfg now key estimated l).1]
  rcases (tested cfg now key l).check_cases now estimated with
    ⟨hallowed, hroom, hbucket⟩ | ⟨hdenied, hbucket⟩
  · have hlt : (tested cfg now key l).requestsCount < cfg.defaultRpm := hlimit ▸ hroom
    have hcount : 0 ≤ (tested cfg now key l).requestsCount := hnonneg
    have hwrap := wrap32_succ hcount hlt hint
    rw [if_pos hallowed, hbucket, hwrap]
    refine ⟨hlimit, ?_, ?_⟩
    · exact le_trans hnonneg (Int.le_add_one le_rfl)
    · exact htallied.enter hopen (lt_of_lt_of_le hlt (le_max_left _ _))
  · rw [if_neg (by simp [hdenied]), hbucket]
    exact ⟨hlimit, hnonneg, htallied⟩

/-- A check leaves the key in the window it is tested in. -/
theorem checkRequest_start (cfg : RateLimitConfig) (now : Time) (key : Str) (estimated : ℤ)
    (l : RateLimiter) :
    ((l.checkRequest cfg now key estimated).2.window key).map KeyWindow.start =
      some (tested cfg now key l).windowStart := by
  rw [checkRequest_window, Option.map_some]
  rcases (tested cfg now key l).check_cases now estimated with ⟨_, _, hbucket⟩ | ⟨_, hbucket⟩
  · rw [hbucket]
    rfl
  · rw [hbucket]
    rfl

/-- What the log of the checks up to `now` says about the window of the key. -/
def Visits (log : List WindowCount.Event) (now : Time) : Option KeyWindow → Prop
  | none => log = []
  | some w => WindowCount.Placed (seconds 60) log now w.start

theorem Visits.later {w : Option KeyWindow} (h : Visits log now w) {now' : Time}
    (hle : now ≤ now') : Visits log now' w := by
  cases w with
  | none => exact h
  | some w => exact WindowCount.Placed.later h hle

theorem Visits.windowed {w : Option KeyWindow} (h : Visits log now w) :
    WindowCount.Windowed WindowCount.Event.time WindowCount.Event.start (seconds 60) log := by
  cases w with
  | none =>
      obtain rfl : log = [] := h
      exact ⟨by simp, by simp⟩
  | some w => exact WindowCount.Placed.windowed h

/-- Every check is placed in the window it is tested in. -/
theorem visits_check (estimated : ℤ) (h : Visits log now (l.window key)) :
    Visits (⟨now, (tested cfg now key l).windowStart⟩ :: log) now
      ((l.checkRequest cfg now key estimated).2.window key) := by
  have hcurrent := tested_window cfg now key l
  have hplaced : WindowCount.Placed (seconds 60) log now (tested cfg now key l).windowStart := by
    have hstart : (tested cfg now key l).windowStart =
        (tested cfg now key l).window.toWindow.start := rfl
    rw [hstart, hcurrent]
    cases hw : l.window key with
    | none =>
        rw [hw] at h
        obtain rfl : log = [] := h
        exact .fresh (seconds 60) now
    | some w =>
        rw [hw] at h
        exact WindowCount.Placed.current (w := w.toWindow) (by decide) h
  have hopen : now < (tested cfg now key l).windowStart + seconds 60 := tested_open cfg now key l
  have hstart := checkRequest_start cfg now key estimated l
  obtain ⟨w, hw, hsame⟩ := Option.map_eq_some_iff.mp hstart
  rw [hw, Visits, hsame]
  exact hplaced.enter hopen

/-- Recording tokens counts no request, though it may start the first window. -/
theorem counts_record (tokens : ℤ) (h : Counts cfg log now (l.window key)) :
    Counts cfg log now ((l.recordTokens cfg now key tokens).window key) := by
  cases hw : l.window key with
  | none =>
      rw [hw] at h
      obtain rfl : log = [] := h
      have hbucket : l.buckets.lookup key = none := by simpa [RateLimiter.window] using hw
      rw [RateLimiter.recordTokens, RateLimiter.window_insert, RateLimiter.getBucket, hbucket]
      exact ⟨rfl, le_rfl, .fresh (le_max_right _ _) now⟩
  | some w =>
      rw [RateLimiter.recordTokens_window tokens (.inr (by rw [hw]; rfl))]
      exact h

/-! ## Runs -/

theorem Chronological.of_cons {call : LimiterCall} {older : List LimiterCall}
    (h : Chronological (call :: older)) : Chronological older := by
  refine List.Pairwise.sublist ?_ h
  exact List.Sublist.filterMap _ (List.sublist_cons_self call older)

theorem Chronological.earlier {call : LimiterCall} {older : List LimiterCall}
    (h : Chronological (call :: older)) {now t : Time} (hnow : call.time = some now)
    (ht : t ∈ older.filterMap time) : t ≤ now := by
  rw [Chronological, List.filterMap_cons_some hnow] at h
  exact List.rel_of_pairwise_cons h ht

/-- A call of another key admits no request of this one. -/
theorem admissions_of_ne {call : LimiterCall} (hother : call.key ≠ key)
    (older : List LimiterCall) :
    admissions cfg l key (call :: older) = admissions cfg l key older := by
  cases call with
  | check t other estimated => exact if_neg fun h => hother h.1
  | record t other tokens => rfl
  | reset other => rfl

/-- The window of a key counts its admissions, in every state of a run that does
not reset the key. -/
theorem counts_after (hint : cfg.defaultRpm < 2 ^ 31) (hnew : l.window key = none)
    {calls : List LimiterCall} (hchron : Chronological calls) (hkept : reset key ∉ calls)
    {now : Time} (hnow : ∀ t ∈ calls.filterMap time, t ≤ now) :
    Counts cfg (admissions cfg l key calls) now ((after cfg l calls).window key) := by
  induction calls generalizing now with
  | nil =>
      rw [after, hnew]
      exact rfl
  | cons call older ih =>
      have holder : reset key ∉ older := fun hin => hkept (List.mem_cons_of_mem _ hin)
      by_cases hkey : call.key = key
      · cases call with
        | check t other estimated =>
            obtain rfl : other = key := hkey
            have hcounts := ih hchron.of_cons holder fun t' ht' => hchron.earlier rfl ht'
            have hchecked := counts_check hint estimated hcounts
            rw [after, admissions]
            simp only [true_and]
            exact hchecked.later (hnow t List.mem_cons_self)
        | record t other tokens =>
            obtain rfl : other = key := hkey
            have hcounts := ih hchron.of_cons holder fun t' ht' => hchron.earlier rfl ht'
            have hrecorded := counts_record tokens hcounts
            rw [after, admissions]
            exact hrecorded.later (hnow t List.mem_cons_self)
        | reset other =>
            obtain rfl : other = key := hkey
            exact absurd List.mem_cons_self hkept
      · have hearlier : ∀ t ∈ older.filterMap time, t ≤ now := fun t ht =>
          hnow t (((List.sublist_cons_self call older).filterMap time).subset ht)
        rw [admissions_of_ne hkey, after, RateLimiter.window, lookup_step_of_ne hkey]
        exact ih hchron.of_cons holder hearlier

/-- **Any interval of minutes.**  For a key without a bucket and a run of calls
that does not reset it, an interval of `k` minutes holds at most `k + 1` times
the limit of admitted requests; and a check that is denied leaves the bucket of
the key as the window test made it. -/
theorem minutes_bound (cfg : RateLimitConfig) (hint : cfg.defaultRpm < 2 ^ 31) (l : RateLimiter)
    (key : Str) (hnew : l.buckets.lookup key = none) (calls : List LimiterCall)
    (hchron : Chronological calls) (hkept : reset key ∉ calls) :
    (∀ (a : Time) (k : Nat),
      ((admissions cfg l key calls).countP fun e => a ≤ e.time ∧ e.time < a + seconds (60 * k) : ℤ)
        ≤ (k + 1) * max cfg.defaultRpm 0) ∧
    ∀ (now : Time) (estimated : ℤ),
      ((after cfg l calls).checkRequest cfg now key estimated).1.allowed = false →
        ((after cfg l calls).checkRequest cfg now key estimated).2.buckets.lookup key =
          some (tested cfg now key (after cfg l calls)) := by
  constructor
  · intro a k
    obtain ⟨now, hnow⟩ : ∃ now, ∀ t ∈ calls.filterMap time, t ≤ now := by
      cases hlatest : calls.filterMap time with
      | nil => exact ⟨0, by simp⟩
      | cons latest earlier =>
          rw [Chronological, hlatest] at hchron
          refine ⟨latest, fun t ht => ?_⟩
          rcases List.mem_cons.mp ht with rfl | ht
          · exact le_rfl
          · exact List.rel_of_pairwise_cons hchron ht
    have hwindow : l.window key = none := by rw [RateLimiter.window, hnew]; rfl
    have hcounts := counts_after hint hwindow hchron hkept hnow
    have hminutes : seconds (60 * k) = k * seconds 60 := by unfold seconds; ring
    rw [hminutes]
    cases hw : (after cfg l calls).window key with
    | none =>
        rw [hw] at hcounts
        have hnone : admissions cfg l key calls = [] := hcounts
        rw [hnone]
        have := le_max_right cfg.defaultRpm 0
        simp only [List.countP_nil]
        positivity
    | some w =>
        rw [hw] at hcounts
        exact hcounts.2.2.countP_le (by decide) (le_max_right _ _) a k
  · intro now estimated hdenied
    obtain ⟨hanswer, hafter⟩ := checkRequest_tested cfg now key estimated (after cfg l calls)
    rw [hanswer] at hdenied
    rw [hafter]
    rcases (tested cfg now key (after cfg l calls)).check_cases now estimated with
      ⟨hallowed, _, _⟩ | ⟨_, hbucket⟩
    · exact absurd (hdenied.symm.trans hallowed) Bool.false_ne_true
    · exact congrArg some hbucket

/-- One request a minute, and yet two within a second: the window that starts
with the recording of tokens is about to end. -/
def burst : List LimiterCall :=
  [check (seconds 60) (str "k") 0, check (seconds 59) (str "k") 0, record 0 (str "k") 12]

/-- The bound for one minute is met. -/
theorem minutes_bound_burst :
    ((admissions { defaultRpm := 1 } {} (str "k") burst).countP
        (fun e => seconds 59 ≤ e.time ∧ e.time < seconds 59 + seconds (60 * 1)) : ℤ) ≤ 2 ∧
      (admissions { defaultRpm := 1 } {} (str "k") burst).length = 2 := by
  refine ⟨?_, by decide⟩
  exact (minutes_bound { defaultRpm := 1 } (by decide) {} (str "k") rfl burst (by decide)
    (by decide)).1 (seconds 59) 1

end LimiterCall

end Gateway
