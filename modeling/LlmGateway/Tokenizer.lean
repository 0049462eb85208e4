import LlmGateway.TokenCounter
import LlmGateway.LimiterRuns
import LlmGateway.Lib.Runs

/-!
# What the tokenizer makes of a text

A step of the scan either lengthens the pending word or ends it; `Scan.Covers`
is what holds of the scan after every prefix of a text, its pending word
included.  Flushed, it says that no token is lost, what the tokens look like and
how many there are: `tokenNumber`, a closed form over the maximal runs of the
text.  `count` is that number as an `int`.
-/

namespace Gateway

namespace TokenCounter

variable (P : Platform)

/-- A byte at which the scan ends a word. -/
def separates (c : UInt8) : Bool := P.isspace c || P.ispunct c

/-- A separator that is a token of its own. -/
def marks (c : UInt8) : Bool := c == byte '\n' || P.ispunct c

/-- A byte that the scan does not drop. -/
def keeps (c : UInt8) : Bool := !P.isspace c || c == byte '\n'

/-- The number of tokens of a text: a token for each newline and each
punctuation byte, and a word is cut into pieces of four bytes. -/
def tokenNumber (text : Str) : ℕ :=
  text.count (byte '\n') + text.countP P.ispunct +
    ((Runs.runs (separates P) text).map fun run => run.length ⌈/⌉ 4).sum

/-- A newline, a punctuation byte, or up to four bytes of a word. -/
def IsToken (t : Str) : Prop :=
  t = [byte '\n'] ∨ (∃ c, P.ispunct c = true ∧ t = [c]) ∨
    (1 ≤ t.length ∧ t.length ≤ 4 ∧ ∀ c ∈ t, P.isspace c = false ∧ P.ispunct c = false)

/-! ## The pieces of a word -/

theorem length_lt_of_not_full {word : Str}
    (h : ∀ a b c d rest, word = a :: b :: c :: d :: rest → False) : word.length < 4 := by
  rcases word with _ | ⟨a, _ | ⟨b, _ | ⟨c, _ | ⟨d, rest⟩⟩⟩⟩
  · exact Nat.succ_pos 3
  · exact Nat.lt_add_of_pos_left (Nat.succ_pos 2)
  · exact Nat.lt_add_of_pos_left (Nat.succ_pos 1)
  · exact Nat.lt_succ_self 3
  · exact (h a b c d rest rfl).elim

/-- The pieces of a word are the word. -/
theorem pieces_flatten (word : Str) : (pieces word).flatten = word := by
  induction word using pieces.induct with
  | case1 a b c d rest ih =>
      rw [pieces, List.flatten_cons, ih]
      rfl
  | case2 => rfl
  | case3 word hshort hne =>
      rw [pieces.eq_3 word hshort hne, List.flatten_singleton]

/-- One piece for every four bytes that are begun. -/
theorem pieces_length (word : Str) : (pieces word).length = word.length ⌈/⌉ 4 := by
  induction word using pieces.induct with
  | case1 a b c d rest ih =>
      rw [pieces, List.length_cons, ih]
      simp only [List.length_cons, Nat.ceilDiv_eq_add_pred_div]
      omega
  | case2 => rfl
  | case3 word hshort hne =>
      have hlt := length_lt_of_not_full hshort
      have hpos := List.length_pos_of_ne_nil hne
      rw [pieces.eq_3 word hshort hne, List.length_singleton, Nat.ceilDiv_eq_add_pred_div]
      omega

/-- The pieces of a word are tokens. -/
theorem mem_pieces {word t : Str} (h : t ∈ pieces word) :
    1 ≤ t.length ∧ t.length ≤ 4 ∧ t ⊆ word := by
  induction word using pieces.induct with
  | case1 a b c d rest ih =>
      rw [pieces] at h
      rcases List.mem_cons.mp h with rfl | hrest
      · exact ⟨Nat.succ_pos 3, le_rfl, List.subset_append_left [a, b, c, d] rest⟩
      · obtain ⟨hpos, hle, hsub⟩ := ih hrest
        exact ⟨hpos, hle, List.Subset.trans hsub (List.subset_append_right [a, b, c, d] rest)⟩
  | case2 => cases h
  | case3 word hshort hne =>
      have hlt := length_lt_of_not_full hshort
      rw [pieces.eq_3 word hshort hne] at h
      obtain rfl := List.mem_singleton.mp h
      exact ⟨List.length_pos_of_ne_nil hne, hlt.le, List.Subset.refl t⟩

/-! ## One byte -/

variable {P}

theorem step_of_word {c : UInt8} (h : separates P c = false) (s : Scan) :
    s.step P c = { s with current := s.current ++ [c] } := by
  obtain ⟨hspace, hpunct⟩ := Bool.or_eq_false_iff.mp h
  rw [Scan.step, if_neg (Bool.not_eq_true _ ▸ hspace), if_neg (Bool.not_eq_true _ ▸ hpunct)]

/-- A separator ends the word, and is a token itself if it marks one. -/
theorem step_of_separator {c : UInt8} (h : separates P c = true) (s : Scan) :
    s.step P c =
      ⟨s.tokens ++ pieces s.current ++ (if marks P c then [[c]] else []), []⟩ := by
  cases hspace : P.isspace c with
  | true =>
      have hmarks : marks P c = (c == byte '\n') := by
        rw [marks, P.disjoint c hspace, Bool.or_false]
      rw [Scan.step, if_pos hspace, hmarks]
      by_cases hnewline : c = byte '\n'
      · rw [if_pos hnewline, if_pos (beq_iff_eq.mpr hnewline)]
        rfl
      · rw [if_neg hnewline, if_neg (by rwa [beq_iff_eq]), List.append_nil]
        rfl
  | false =>
      have hpunct : P.ispunct c = true := by
        rwa [separates, hspace, Bool.false_or] at h
      have hmarks : marks P c = true := by rw [marks, hpunct, Bool.or_true]
      rw [Scan.step, hspace, if_neg Bool.false_ne_true, if_pos hpunct, if_pos hmarks]
      rfl

theorem keeps_of_word {c : UInt8} (h : separates P c = false) : keeps P c = true := by
  rw [keeps, (Bool.or_eq_false_iff.mp h).1]
  rfl

theorem keeps_of_separator {c : UInt8} (h : separates P c = true) : keeps P c = marks P c := by
  cases hspace : P.isspace c with
  | true =>
      rw [keeps, marks, hspace, P.disjoint c hspace, Bool.or_false]
      rfl
  | false =>
      rw [separates, hspace, Bool.false_or] at h
      rw [keeps, marks, hspace, h, Bool.or_true]
      rfl

theorem separates_of_marks {c : UInt8} (h : marks P c = true) : separates P c = true := by
  rcases (Bool.or_eq_true_iff.mp h) with hnewline | hpunct
  · rw [separates, beq_iff_eq.mp hnewline, P.newline_isspace, Bool.true_or]
  · rw [separates, hpunct, Bool.or_true]

/-- A separator that is kept is a token. -/
theorem isToken_of_marks {c : UInt8} (h : marks P c = true) : IsToken P [c] := by
  rcases (Bool.or_eq_true_iff.mp h) with hnewline | hpunct
  · exact .inl (by rw [beq_iff_eq.mp hnewline])
  · exact .inr (.inl ⟨c, hpunct, rfl⟩)

/-! ## The scan -/

/-- What holds of the scan after a prefix of a text.  The count compares the
scan with the number of pieces of any text that goes on from here. -/
structure Scan.Covers (P : Platform) (text : Str) (s : Scan) : Prop where
  kept : s.tokens.flatten ++ s.current = text.filter (keeps P)
  shaped : ∀ t ∈ s.tokens, IsToken P t
  word : ∀ c ∈ s.current, separates P c = false
  counted : ∀ rest, s.tokens.length + Runs.cost (separates P) 4 s.current.length rest =
    text.countP (marks P) + Runs.cost (separates P) 4 0 (text ++ rest)

theorem isToken_of_mem_pieces {word t : Str} (hword : ∀ c ∈ word, separates P c = false)
    (h : t ∈ pieces word) : IsToken P t := by
  obtain ⟨hpos, hle, hsub⟩ := mem_pieces h
  exact .inr (.inr ⟨hpos, hle, fun c hc => Bool.or_eq_false_iff.mp (hword c (hsub hc))⟩)

theorem Scan.Covers.empty : Scan.Covers P [] {} where
  kept := rfl
  shaped _ ht := absurd ht List.not_mem_nil
  word _ hc := absurd hc List.not_mem_nil
  counted _ := rfl

/-- A byte of a word. -/
theorem Scan.Covers.push {text : Str} {s : Scan} (h : s.Covers P text) {c : UInt8}
    (hsep : separates P c = false) :
    Scan.Covers P (text ++ [c]) { s with current := s.current ++ [c] } := by
  have hmark : ¬ marks P c = true := by
    intro hmark
    rw [separates_of_marks hmark] at hsep
    cases hsep
  refine ⟨?_, h.shaped, ?_, fun rest => ?_⟩
  · rw [List.filter_append, ← h.kept, List.filter_cons_of_pos (keeps_of_word hsep),
      List.append_assoc]
    rfl
  · intro b hb
    rcases List.mem_append.mp hb with hb | hb
    · exact h.word b hb
    · rwa [List.mem_singleton.mp hb]
  · have hnext := h.counted (c :: rest)
    rw [Runs.cost, if_neg (by rw [hsep]; exact Bool.false_ne_true)] at hnext
    rw [List.countP_append, List.countP_singleton, if_neg hmark, List.append_assoc,
      List.length_append]
    exact hnext

/-- A separator: the word is cut up, and the separator follows it if it is kept. -/
theorem Scan.Covers.cut {text : Str} {s : Scan} (h : s.Covers P text) {c : UInt8}
    (hsep : separates P c = true) :
    Scan.Covers P (text ++ [c])
      ⟨s.tokens ++ pieces s.current ++ (if marks P c then [[c]] else []), []⟩ := by
  refine ⟨?_, fun t ht => ?_, fun b hb => absurd hb List.not_mem_nil, fun rest => ?_⟩
  · have hlast : (if marks P c then [[c]] else []).flatten = [c].filter (keeps P) := by
      rw [List.filter_singleton, keeps_of_separator hsep]
      cases marks P c with
      | true => rfl
      | false => rfl
    rw [List.append_nil, List.flatten_append, List.flatten_append, pieces_flatten, h.kept,
      hlast, List.filter_append]
  · rcases List.mem_append.mp ht with ht | ht
    · rcases List.mem_append.mp ht with ht | ht
      · exact h.shaped t ht
      · exact isToken_of_mem_pieces h.word ht
    · by_cases hmark : marks P c = true
      · rw [if_pos hmark] at ht
        rw [List.mem_singleton.mp ht]
        exact isToken_of_marks hmark
      · rw [if_neg hmark] at ht
        cases ht
  · have hnext := h.counted (c :: rest)
    have hlast : (if marks P c then [[c]] else []).length =
        if marks P c = true then 1 else 0 := by
      split <;> rfl
    have hsplit : text ++ [c] ++ rest = text ++ c :: rest := List.append_assoc text [c] rest
    rw [Runs.cost, if_pos hsep] at hnext
    rw [List.length_append, List.length_append, pieces_length, hlast, List.countP_append,
      List.countP_singleton, hsplit]
    show _ + Runs.cost (separates P) 4 0 rest = _
    omega

theorem Scan.Covers.step {text : Str} {s : Scan} (h : s.Covers P text) (c : UInt8) :
    (s.step P c).Covers P (text ++ [c]) := by
  cases hsep : separates P c with
  | false =>
      rw [step_of_word hsep]
      exact h.push hsep
  | true =>
      rw [step_of_separator hsep]
      exact h.cut hsep

/-- In every state of the scan. -/
theorem covers_foldl (text : Str) : (text.foldl (Scan.step P) {}).Covers P text := by
  induction text using List.reverseRecOn with
  | nil => exact .empty
  | append_singleton text c ih =>
      rw [List.foldl_append]
      exact ih.step c

/-! ## The text -/

variable (P)

/-- A newline is a separator, so it is counted once. -/
theorem countP_marks (text : Str) :
    text.countP (marks P) = text.count (byte '\n') + text.countP P.ispunct := by
  induction text with
  | nil => rfl
  | cons c text ih =>
      rw [List.countP_cons, List.count_cons, List.countP_cons, ih, marks]
      by_cases hnewline : c = byte '\n'
      · have hpunct : P.ispunct (byte '\n') = false := P.disjoint _ P.newline_isspace
        rw [hnewline, hpunct, beq_self_eq_true]
        simp only [Bool.true_or, if_true, Bool.false_eq_true, if_false]
        omega
      · rw [beq_false_of_ne hnewline, Bool.false_or]
        simp only [Bool.false_eq_true, if_false]
        omega

theorem tokenNumber_eq (text : Str) :
    tokenNumber P text = text.countP (marks P) + Runs.cost (separates P) 4 0 text := by
  rw [tokenNumber, countP_marks, Runs.cost_eq_sum]

/-- The tokens are as many as the closed form says. -/
theorem tokenize_length (text : Str) : (tokenize P text).length = tokenNumber P text := by
  have hcount := (covers_foldl (P := P) text).counted []
  rw [List.append_nil] at hcount
  rw [tokenize, Scan.flush, List.length_append, pieces_length, tokenNumber_eq]
  exact hcount

/-- The tokens in a row are the text without the white space that is no newline,
and each is a newline, a punctuation byte or up to four bytes of a word. -/
structure CutsUp (text : Str) : Prop where
  lossless : (tokenize P text).flatten = text.filter (keeps P)
  shaped : ∀ t ∈ tokenize P text, IsToken P t

theorem cutsUp (text : Str) : CutsUp P text where
  lossless := by
    rw [tokenize, Scan.flush, List.flatten_append, pieces_flatten]
    exact (covers_foldl text).kept
  shaped t ht := by
    have hcovers := covers_foldl (P := P) text
    rcases List.mem_append.mp ht with ht | ht
    · exact hcovers.shaped t ht
    · exact isToken_of_mem_pieces hcovers.word ht

/-- The count is the number of tokens as an `int`. -/
theorem count_eq (text : Str) : count P text = wrap32 (tokenNumber P text) := by
  unfold count
  split
  · next hempty =>
      have hzero : tokenNumber P [] = 0 := rfl
      rw [List.isEmpty_iff.mp hempty, hzero]
      decide
  · rw [tokenize_length]

theorem wrap32_natCast_iff {n : ℕ} : wrap32 n = n ↔ n < 2 ^ 31 := by
  constructor
  · intro h
    have hbound := (fitsInt_wrap32 n).2
    rw [h] at hbound
    exact_mod_cast hbound
  · intro h
    refine wrap32_of_fits ⟨?_, ?_⟩
    · have hnonneg := Int.natCast_nonneg n
      linarith
    · exact_mod_cast h

/-- **The tokenizer.**  It loses no byte of any text but white space, and cuts the
rest up into tokens of three kinds; the count is the closed form over newlines,
punctuation and maximal runs exactly while an `int` holds that. -/
theorem cutsUp_and_count_iff (text : Str) :
    CutsUp P text ∧
      ((CutsUp P text ∧ count P text = tokenNumber P text) ↔ tokenNumber P text < 2 ^ 31) := by
  have hcuts := cutsUp P text
  refine ⟨hcuts, ?_⟩
  rw [count_eq, wrap32_natCast_iff]
  exact and_iff_right hcuts

/-- So many newlines that an `int` does not hold their number. -/
theorem count_overflows :
    ¬ ∀ (P : Platform) (text : Str), CutsUp P text ∧ count P text = tokenNumber P text := by
  intro h
  obtain ⟨-, hcount⟩ := h (cLocale fun _ => 0) (List.replicate (2 ^ 31) (byte '\n'))
  rw [count_eq, wrap32_natCast_iff, tokenNumber, List.count_replicate_self] at hcount
  omega

end TokenCounter

end Gateway
