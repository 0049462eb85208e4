import LlmGateway.ClockedCalls

/-!
# The token limit at the edge of an `int`

A window adds the tokens that are recorded in an `int`, and a check adds its
estimate to them.  `recorded` is the true sum.  A check fails closed if it is
denied once the true sum has reached the limit and its own addition does not
overflow; `fails_closed_iff` says when the checks of a run do.
-/

namespace Gateway

/-- The addition of an estimate to the tokens recorded so far stays in an `int`,
or the tokens have wrapped around to where it does and the limit is exceeded all
the same. -/
def InRange (tpmLimit recorded estimated : ℤ) : Prop :=
  recorded + estimated < 2 ^ 31 ∨
    (2 ^ 31 ≤ recorded ∧ tpmLimit < wrap32 recorded + estimated ∧
      wrap32 recorded + estimated < 2 ^ 31)

/-- The two things that a check of the token limit should do, in terms of the
tokens recorded: stop a request when they have reached the limit, and add
without overflow. -/
theorem inRange_iff {tpmLimit recorded estimated : ℤ} (hlimit : FitsInt tpmLimit)
    (hrecorded : 0 ≤ recorded) (hpos : 0 < estimated) :
    ((tpmLimit ≤ recorded → tpmLimit < wrap32 (wrap32 recorded + estimated)) ∧
      FitsInt (wrap32 recorded + estimated)) ↔ InRange tpmLimit recorded estimated := by
  obtain ⟨hlow, hhigh⟩ := fitsInt_wrap32 recorded
  obtain ⟨-, hint⟩ := hlimit
  constructor
  · intro h
    obtain ⟨hstops, hfits⟩ := h
    rcases lt_or_ge recorded (2 ^ 31) with hsmall | hlarge
    · rw [wrap32_of_small hrecorded hsmall] at hfits
      exact .inl hfits.2
    · rw [wrap32_of_fits hfits] at hstops
      exact .inr ⟨hlarge, hstops (by omega), hfits.2⟩
  · intro h
    rcases h with hsmall | ⟨hlarge, hover, hfits⟩
    · have hwrap := wrap32_of_small hrecorded (by omega)
      have hfits : FitsInt (recorded + estimated) := ⟨by omega, hsmall⟩
      rw [hwrap, wrap32_of_fits hfits]
      exact ⟨fun hreached => by omega, hfits⟩
    · have hfits' : FitsInt (wrap32 recorded + estimated) := ⟨by omega, hfits⟩
      rw [wrap32_of_fits hfits']
      exact ⟨fun _ => hover, hfits'⟩

namespace ClockedCall

/-- The numbers of a call are those of an `int`, and what is recorded is not
negative. -/
def Ints : ClockedCall → Prop
  | check cfg _ _ estimated => FitsInt cfg.defaultTpm ∧ FitsInt estimated
  | record cfg _ _ tokens => FitsInt cfg.defaultTpm ∧ 0 ≤ tokens ∧ FitsInt tokens
  | reset _ => True

/-- A check with these readings starts a window. -/
def Restarts (cfg : RateLimitConfig) (r : Readings) (k : Str) (l : RateLimiter) : Prop :=
  MinuteOver (l.getBucket cfg r.created k).windowStart r.tested

instance (cfg : RateLimitConfig) (r : Readings) (k : Str) (l : RateLimiter) :
    Decidable (Restarts cfg r k l) := inferInstanceAs (Decidable (MinuteOver _ _))

/-- The tokens recorded for a key in its window, as a run leaves them. -/
def recorded (k : Str) : List ClockedCall → ℤ
  | [] => 0
  | check cfg r key _ :: older =>
      if key = k ∧ Restarts cfg r k (after older) then 0 else recorded k older
  | record _ _ key tokens :: older =>
      if key = k then recorded k older + tokens else recorded k older
  | reset key :: older => if key = k then 0 else recorded k older

/-- The tokens recorded in the window that a check is made in. -/
def recordedAt (cfg : RateLimitConfig) (r : Readings) (k : Str) (older : List ClockedCall) : ℤ :=
  if Restarts cfg r k (after older) then 0 else recorded k older

/-- A check with a positive estimate is denied once the tokens recorded in its
window have reached the limit, and its addition does not overflow. -/
structure FailsClosed (cfg : RateLimitConfig) (r : Readings) (k : Str) (estimated : ℤ)
    (older : List ClockedCall) : Prop where
  closed : 0 < estimated →
    ((after older).testedBucket cfg r k).tpmLimit ≤ recordedAt cfg r k older →
    ((after older).checkRequestAt cfg r k estimated).1.allowed = false
  exact : 0 < estimated →
    ((after older).testedBucket cfg r k).requestsCount <
      ((after older).testedBucket cfg r k).rpmLimit →
    FitsInt (((after older).testedBucket cfg r k).tokensCount + estimated)

variable {cfg : RateLimitConfig} {k : Str} {calls older : List ClockedCall}

/-- The bucket of the key holds the true sum, reduced to an `int`. -/
structure Sums (k : Str) (total : ℤ) (l : RateLimiter) : Prop where
  nonneg : 0 ≤ total
  bucket : ∀ b ∈ l.buckets.lookup k, b.tokensCount = wrap32 total ∧ FitsInt b.tpmLimit
  empty : l.buckets.lookup k = none → total = 0

variable {total : ℤ} {l : RateLimiter}

theorem Sums.getBucket (h : Sums k total l) (hint : FitsInt cfg.defaultTpm) (now : Time) :
    (l.getBucket cfg now k).tokensCount = wrap32 total ∧
      FitsInt (l.getBucket cfg now k).tpmLimit := by
  unfold RateLimiter.getBucket
  cases hb : l.buckets.lookup k with
  | none =>
      rw [h.empty hb]
      exact ⟨rfl, hint⟩
  | some b => exact h.bucket b hb

/-- The window test drops the sum with the window. -/
theorem Sums.testedBucket (h : Sums k total l) (hint : FitsInt cfg.defaultTpm) (r : Readings) :
    (l.testedBucket cfg r k).tokensCount =
        wrap32 (if Restarts cfg r k l then 0 else total) ∧
      FitsInt (l.testedBucket cfg r k).tpmLimit := by
  obtain ⟨htokens, hlimit⟩ := h.getBucket hint r.created
  unfold RateLimiter.testedBucket Bucket.resetIfExpired
  by_cases hover : Restarts cfg r k l
  · rw [if_pos (show inSeconds _ ≥ 60 from hover), if_pos hover]
    exact ⟨rfl, hlimit⟩
  · rw [if_neg (show ¬ inSeconds _ ≥ 60 from hover), if_neg hover]
    exact ⟨htokens, hlimit⟩

theorem Sums.of_lookup (hnonneg : 0 ≤ total) {b : Bucket} (hb : l.buckets.lookup k = some b)
    (htokens : b.tokensCount = wrap32 total) (hlimit : FitsInt b.tpmLimit) : Sums k total l where
  nonneg := hnonneg
  bucket b' hb' := by
    cases hb.symm.trans hb'
    exact ⟨htokens, hlimit⟩
  empty hnone := by
    rw [hb] at hnone
    cases hnone

/-- A check keeps the sum or starts a window. -/
theorem Sums.of_check (h : Sums k (recorded k older) (after older))
    (hint : FitsInt cfg.defaultTpm) (r : Readings) (estimated : ℤ) :
    Sums k (recorded k (check cfg r k estimated :: older))
      (after (check cfg r k estimated :: older)) := by
  obtain ⟨htokens, hlimit⟩ := h.testedBucket hint r
  have hlookup : (after (check cfg r k estimated :: older)).buckets.lookup k =
      some (((after older).testedBucket cfg r k).check r.answered estimated).2 :=
    AList.lookup_insert _
  simp only [recorded, true_and]
  refine Sums.of_lookup ?_ hlookup ?_ ?_
  · split
    · exact le_rfl
    · exact h.nonneg
  · rcases ((after older).testedBucket cfg r k).check_cases r.answered estimated with
      ⟨-, -, hbucket⟩ | ⟨-, hbucket⟩
    · rw [hbucket]
      exact htokens
    · rw [hbucket]
      exact htokens
  · rcases ((after older).testedBucket cfg r k).check_cases r.answered estimated with
      ⟨-, -, hbucket⟩ | ⟨-, hbucket⟩
    · rw [hbucket]
      exact hlimit
    · rw [hbucket]
      exact hlimit

/-- A record adds to the sum, whatever the `int` makes of it. -/
theorem Sums.of_record (h : Sums k (recorded k older) (after older)) {tokens : ℤ}
    (hint : FitsInt cfg.defaultTpm) (htokens : 0 ≤ tokens) (now : Time) :
    Sums k (recorded k (record cfg now k tokens :: older))
      (after (record cfg now k tokens :: older)) := by
  obtain ⟨hsum, hlimit⟩ := h.getBucket hint now
  simp only [recorded, if_true]
  refine Sums.of_lookup (add_nonneg h.nonneg htokens) (AList.lookup_insert _) ?_ hlimit
  simp only [hsum]
  exact Int.bmod_add_bmod

/-- A reset drops the bucket and the sum. -/
theorem Sums.of_reset :
    Sums k (recorded k (reset k :: older)) (after (reset k :: older)) := by
  have hlookup : (after (reset k :: older)).buckets.lookup k = none :=
    AList.lookup_erase k (after older).buckets
  simp only [recorded, if_true]
  refine ⟨le_rfl, fun b hb => ?_, fun _ => rfl⟩
  cases hlookup.symm.trans hb

/-- A call on another key leaves both alone. -/
theorem Sums.of_ne {call : ClockedCall} (h : Sums k (recorded k older) (after older))
    (hkey : call.key ≠ k) : Sums k (recorded k (call :: older)) (after (call :: older)) := by
  have hlookup : (after (call :: older)).buckets.lookup k = (after older).buckets.lookup k :=
    lookup_step_of_ne hkey (after older)
  have hsame : recorded k (call :: older) = recorded k older := by
    cases call with
    | check cfg r key estimated => exact if_neg fun h => hkey h.1
    | record cfg now key tokens => exact if_neg hkey
    | reset key => exact if_neg hkey
  rw [hsame]
  refine ⟨h.nonneg, fun b hb => h.bucket b (hlookup ▸ hb), fun hnone => h.empty (hlookup ▸ hnone)⟩

/-- What a call does to the sum. -/
theorem Sums.step {call : ClockedCall} (h : Sums k (recorded k older) (after older))
    (hints : call.Ints) : Sums k (recorded k (call :: older)) (after (call :: older)) := by
  by_cases hkey : call.key = k
  · cases call with
    | check cfg r key estimated =>
        obtain rfl : key = k := hkey
        exact h.of_check hints.1 r estimated
    | record cfg now key tokens =>
        obtain rfl : key = k := hkey
        exact h.of_record hints.1 hints.2.1 now
    | reset key =>
        obtain rfl : key = k := hkey
        exact .of_reset
  · exact h.of_ne hkey

/-- In every state of a run the bucket holds the sum of its window. -/
theorem sums_after (k : Str) (hints : ∀ call ∈ calls, call.Ints) :
    Sums k (recorded k calls) (after calls) := by
  induction calls with
  | nil =>
      refine ⟨le_rfl, fun b hb => ?_, fun _ => rfl⟩
      cases hb
  | cons call older ih =>
      exact (ih fun o ho => hints o (List.mem_cons_of_mem call ho)).step
        (hints call List.mem_cons_self)

/-- One check, after a run. -/
theorem failsClosed_iff {r : Readings} {estimated : ℤ} (hints : ∀ call ∈ older, call.Ints)
    (hcheck : (check cfg r k estimated).Ints) :
    FailsClosed cfg r k estimated older ↔
      (0 < estimated →
        ((after older).testedBucket cfg r k).requestsCount <
          ((after older).testedBucket cfg r k).rpmLimit →
        InRange ((after older).testedBucket cfg r k).tpmLimit (recordedAt cfg r k older)
          estimated) := by
  have hsums := sums_after k hints
  obtain ⟨htokens, hlimit⟩ := hsums.testedBucket hcheck.1 r
  have hnonneg : 0 ≤ recordedAt cfg r k older := by
    unfold recordedAt
    split
    · exact le_rfl
    · exact hsums.nonneg
  have hcount : ((after older).testedBucket cfg r k).tokensCount =
      wrap32 (recordedAt cfg r k older) := htokens
  have hallowed : ((after older).checkRequestAt cfg r k estimated).1.allowed = true ↔ _ :=
    Bucket.check_allowed_iff r.answered estimated ((after older).testedBucket cfg r k)
  have hdenied : ((after older).checkRequestAt cfg r k estimated).1.allowed = false ↔ _ :=
    Bool.eq_false_iff.trans (not_congr hallowed)
  constructor
  · intro h hpos hroom
    refine (inRange_iff hlimit hnonneg hpos).mp ⟨fun hreached => ?_, ?_⟩
    · have hstopped := hdenied.mp (h.closed hpos hreached)
      rw [hcount] at hstopped
      by_contra! hunder
      exact hstopped ⟨hroom, fun _ => hunder⟩
    · have hfits := h.exact hpos hroom
      rwa [hcount] at hfits
  · intro h
    refine ⟨fun hpos hreached => hdenied.mpr fun hpass => ?_, fun hpos hroom => ?_⟩
    · obtain ⟨hroom, hunder⟩ := hpass
      have hover := ((inRange_iff hlimit hnonneg hpos).mpr (h hpos hroom)).1 hreached
      have hunder' := hunder hpos
      rw [hcount] at hunder'
      exact absurd hover (not_lt.mpr hunder')
    · have hfits := ((inRange_iff hlimit hnonneg hpos).mpr (h hpos hroom)).2
      rwa [hcount]

/-- **The token limit over whole runs.**  In a run of calls on any keys, whose
amounts are `int`s and not negative, every check fails closed exactly when for
every check with a positive estimate that the requests do not stop, the sum of
the tokens recorded in its window and the estimate is below 2^31, or that sum
has wrapped around to a place between the limit and 2^31. -/
theorem fails_closed_iff (calls : List ClockedCall) (hints : ∀ call ∈ calls, call.Ints) :
    (∀ cfg r k estimated older, check cfg r k estimated :: older <:+ calls →
        FailsClosed cfg r k estimated older) ↔
      ∀ cfg r k estimated older, check cfg r k estimated :: older <:+ calls → 0 < estimated →
        ((after older).testedBucket cfg r k).requestsCount <
          ((after older).testedBucket cfg r k).rpmLimit →
        InRange ((after older).testedBucket cfg r k).tpmLimit (recordedAt cfg r k older)
          estimated := by
  have hone : ∀ cfg r k estimated older, check cfg r k estimated :: older <:+ calls →
      (FailsClosed cfg r k estimated older ↔ _) := fun cfg r k estimated older hsuffix =>
    failsClosed_iff (fun o ho => hints o (hsuffix.subset (List.mem_cons_of_mem _ ho)))
      (hints _ (hsuffix.subset List.mem_cons_self))
  constructor
  · intro h cfg r k estimated older hsuffix
    exact (hone cfg r k estimated older hsuffix).mp (h cfg r k estimated older hsuffix)
  · intro h cfg r k estimated older hsuffix
    exact (hone cfg r k estimated older hsuffix).mpr (h cfg r k estimated older hsuffix)

/-- A window with 100 tokens recorded under the default limits. -/
theorem fails_closed_iff_default :
    FailsClosed {} (.instant 1) (str "k") 12 [record {} 0 (str "k") 100] := by
  refine (fails_closed_iff [check {} (.instant 1) (str "k") 12, record {} 0 (str "k") 100]
    (by simp [Ints, FitsInt])).mpr ?_ {} (.instant 1) (str "k") 12 _ (List.suffix_refl _)
  intro cfg r k estimated older hsuffix hpos hroom
  rcases List.suffix_cons_iff.mp hsuffix with heq | hsuffix
  · cases heq
    exact .inl (by decide)
  · rcases List.suffix_cons_iff.mp hsuffix with heq | hsuffix
    · cases heq
    · cases List.eq_nil_of_suffix_nil hsuffix

/-- The calls are checks and records of one key in one minute. -/
def InOneWindow (k : Str) (start : Time) (calls : List ClockedCall) : Prop :=
  ∀ call ∈ calls, call.key = k ∧ (∃ t ∈ call.first, start ≤ t) ∧
    ∃ t ∈ call.last, t < start + seconds 60

/-- With as many tokens recorded as an `int` holds, one more is admitted. -/
theorem overflow_reopens :
    ¬ ∀ (k : Str) (start : Time) (calls : List ClockedCall), (∀ call ∈ calls, call.Ints) →
      Chronological calls → InOneWindow k start calls →
      ∀ cfg r estimated older, check cfg r k estimated :: older <:+ calls →
        FailsClosed cfg r k estimated older := by
  intro h
  have hclosed := h (str "k") 0
    [check {} (.instant 1) (str "k") 1, record {} 0 (str "k") 2147483647]
    (by simp [Ints, FitsInt])
    (by simp [Chronological, first, last, Readings.instant])
    (by simp [InOneWindow, ClockedCall.key, first, last, Readings.instant, seconds])
    {} (.instant 1) 1 _ (List.suffix_refl _)
  have hdenied := hclosed.closed (by decide) (by decide)
  revert hdenied
  decide

end ClockedCall

end Gateway
