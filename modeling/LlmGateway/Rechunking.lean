import LlmGateway.Tokenizer

/-!
# Chunking the same text otherwise

The number of tokens of a text and of a list of messages, as the closed form of
the tokenizer gives it, does not fall when text is appended or a message is split
in two.  The counters hold these numbers in an `int`: `wraps` says how often one
has wrapped around, and `chunksSoundly_iff` when the counts keep the order of the
numbers all the same.
-/

namespace Gateway

namespace TokenCounter

variable (P : Platform)

/-! ## The numbers -/

/-- A cut costs at most one token, and only in the middle of a word. -/
theorem tokenNumber_append (a b : Str) :
    tokenNumber P (a ++ b) ≤ tokenNumber P a + tokenNumber P b ∧
      tokenNumber P a + tokenNumber P b ≤ tokenNumber P (a ++ b) + 1 ∧
      tokenNumber P a ≤ tokenNumber P (a ++ b) := by
  obtain ⟨hle, hge, hfirst⟩ :=
    Runs.cost_append_bounds (separates P) (show 0 < 4 from Nat.succ_pos 3) a b
  rw [tokenNumber_eq, tokenNumber_eq, tokenNumber_eq, List.countP_append]
  refine ⟨?_, ?_, ?_⟩
  · omega
  · omega
  · omega

theorem tokenNumber_newlines (n : ℕ) :
    tokenNumber P (List.replicate n (byte '\n')) = n := by
  have hmark : marks P (byte '\n') = true := by rw [marks, beq_self_eq_true, Bool.true_or]
  rw [tokenNumber_eq]
  induction n with
  | zero => rfl
  | succ n ih =>
      rw [List.replicate_succ, List.countP_cons_of_pos hmark, Runs.cost,
        if_pos (separates_of_marks hmark), zero_ceilDiv]
      omega

/-- The number of tokens of a list of messages. -/
def messagesNumber (messages : List Message) : ℕ :=
  (messages.map fun msg => 4 + tokenNumber P msg.content).sum + 2

theorem foldl_count (messages : List Message) (total : ℤ) :
    messages.foldl (fun total msg => wrap32 (wrap32 (total + 4) + count P msg.content))
        (wrap32 total) =
      wrap32 (total + (messages.map fun msg => 4 + tokenNumber P msg.content).sum) := by
  induction messages generalizing total with
  | nil => simp
  | cons msg messages ih =>
      have hstep : wrap32 (wrap32 (wrap32 total + 4) + count P msg.content) =
          wrap32 (total + (4 + tokenNumber P msg.content)) := by
        rw [count_eq]
        unfold wrap32
        rw [Int.bmod_add_bmod, Int.add_bmod_bmod, add_assoc, Int.bmod_add_bmod]
      rw [List.foldl_cons, hstep, ih, List.map_cons, List.sum_cons]
      push_cast
      rw [add_assoc]

/-- The count of a list of messages is their number of tokens as an `int`. -/
theorem countMessages_eq (messages : List Message) :
    countMessages P messages = wrap32 (messagesNumber P messages) := by
  have hzero : wrap32 0 = 0 := by decide
  have hfold := foldl_count P messages 0
  rw [hzero, zero_add] at hfold
  unfold countMessages messagesNumber
  rw [hfold]
  unfold wrap32
  rw [Int.bmod_add_bmod, Nat.cast_add]
  rfl

variable (before after : List Message)

/-- A message adds its tokens and an overhead of four, wherever it stands. -/
theorem messagesNumber_insert (role content : Str) :
    messagesNumber P (before ++ ⟨role, content⟩ :: after) =
      messagesNumber P (before ++ after) + 4 + tokenNumber P content := by
  simp only [messagesNumber, List.map_append, List.map_cons, List.sum_append, List.sum_cons]
  omega

/-- Appended text adds to the number of tokens. -/
theorem messagesNumber_append_le (a b role : Str) :
    messagesNumber P (before ++ ⟨role, a⟩ :: after) ≤
      messagesNumber P (before ++ ⟨role, a ++ b⟩ :: after) := by
  obtain ⟨-, -, hfirst⟩ := tokenNumber_append P a b
  rw [messagesNumber_insert, messagesNumber_insert]
  exact Nat.add_le_add_left hfirst _

/-- A split message costs its overhead twice. -/
theorem messagesNumber_split_le (a b role role' : Str) :
    messagesNumber P (before ++ ⟨role, a ++ b⟩ :: after) ≤
      messagesNumber P (before ++ ⟨role, a⟩ :: ⟨role', b⟩ :: after) := by
  obtain ⟨hle, -, -⟩ := tokenNumber_append P a b
  rw [messagesNumber_insert, messagesNumber_insert, messagesNumber_insert]
  omega

/-! ## The counters -/

/-- How often an `int` has wrapped around that has counted so far. -/
def wraps (n : ℕ) : ℕ := (n + 2 ^ 31) / 2 ^ 32

theorem wrap32_natCast (n : ℕ) : wrap32 n = n - 2 ^ 32 * wraps n := by
  rw [wrap32, wraps, Int.bmod_def]
  split
  · omega
  · omega

/-- A number exceeds a smaller one by all that an `int` loses between the two. -/
def Outgrows (small large : ℕ) : Prop := 2 ^ 32 * (wraps large - wraps small) ≤ large - small

instance (small large : ℕ) : Decidable (Outgrows small large) :=
  inferInstanceAs (Decidable (_ ≤ _))

theorem wraps_mono {m n : ℕ} (h : m ≤ n) : wraps m ≤ wraps n :=
  Nat.div_le_div_right (Nat.add_le_add_right h _)

/-- The counters compare as the numbers do when the larger one outgrows the smaller. -/
theorem wrap32_le_iff {m n : ℕ} (h : m ≤ n) : wrap32 m ≤ wrap32 n ↔ Outgrows m n := by
  have hwraps := wraps_mono h
  rw [wrap32_natCast, wrap32_natCast, Outgrows]
  omega

theorem wraps_of_small {n : ℕ} (h : n < 2 ^ 31) : wraps n = 0 :=
  Nat.div_eq_of_lt (by omega)

theorem outgrows_of_small {m n : ℕ} (h : n < 2 ^ 31) : Outgrows m n := by
  rw [Outgrows, wraps_of_small h, Nat.zero_sub, Nat.mul_zero]
  exact Nat.zero_le _

/-- A text may be cut anywhere: the counts of the parts bound that of the whole,
and neither appending to a message nor splitting one lowers the count of a list
of messages. -/
structure ChunksSoundly (a b role role' : Str) : Prop where
  whole_le : count P (a ++ b) ≤ count P a + count P b
  le_whole : count P a + count P b - 1 ≤ count P (a ++ b)
  grown : count P a ≤ count P (a ++ b)
  appended : countMessages P (before ++ ⟨role, a⟩ :: after) ≤
    countMessages P (before ++ ⟨role, a ++ b⟩ :: after)
  split : countMessages P (before ++ ⟨role, a ++ b⟩ :: after) ≤
    countMessages P (before ++ ⟨role, a⟩ :: ⟨role', b⟩ :: after)

/-- The numbers of tokens lose as much in an `int` when the text is whole as in
its parts, and grow by all that an `int` loses on the way. -/
structure WrapsEvenly (a b role role' : Str) : Prop where
  whole : wraps (tokenNumber P (a ++ b)) = wraps (tokenNumber P a) + wraps (tokenNumber P b)
  grown : Outgrows (tokenNumber P a) (tokenNumber P (a ++ b))
  appended : Outgrows (messagesNumber P (before ++ ⟨role, a⟩ :: after))
    (messagesNumber P (before ++ ⟨role, a ++ b⟩ :: after))
  split : Outgrows (messagesNumber P (before ++ ⟨role, a ++ b⟩ :: after))
    (messagesNumber P (before ++ ⟨role, a⟩ :: ⟨role', b⟩ :: after))

/-- The counts of two parts and of the whole differ as the numbers do, unless the
whole wraps around more or less often than the parts. -/
theorem count_append_iff (a b : Str) :
    (count P (a ++ b) ≤ count P a + count P b ∧
        count P a + count P b - 1 ≤ count P (a ++ b)) ↔
      wraps (tokenNumber P (a ++ b)) = wraps (tokenNumber P a) + wraps (tokenNumber P b) := by
  obtain ⟨hle, hge, -⟩ := tokenNumber_append P a b
  rw [count_eq, count_eq, count_eq, wrap32_natCast, wrap32_natCast, wrap32_natCast]
  constructor
  · intro h
    obtain ⟨hwhole, hparts⟩ := h
    omega
  · intro h
    rw [h]
    constructor
    · omega
    · omega

/-- Below the bound of an `int` nothing wraps around. -/
theorem wrapsEvenly_of_small {a b role role' : Str}
    (h : messagesNumber P (before ++ ⟨role, a⟩ :: ⟨role', b⟩ :: after) < 2 ^ 31) :
    WrapsEvenly P before after a b role role' := by
  have hwhole := (messagesNumber_split_le P before after a b role role').trans_lt h
  obtain ⟨hle, -, hfirst⟩ := tokenNumber_append P a b
  have hparts : tokenNumber P a + tokenNumber P b < 2 ^ 31 := by
    rw [messagesNumber_insert, messagesNumber_insert] at h
    omega
  refine ⟨?_, outgrows_of_small (hle.trans_lt hparts), outgrows_of_small hwhole,
    outgrows_of_small h⟩
  rw [wraps_of_small (hle.trans_lt hparts), wraps_of_small (by omega), wraps_of_small (by omega)]

/-- **Chunking.**  For every text, cut and list of messages around it, the counts
keep the order of the numbers exactly when these wrap around evenly in an `int`;
they do as long as the largest of them is below 2^31. -/
theorem chunksSoundly_iff (a b role role' : Str) :
    (ChunksSoundly P before after a b role role' ↔ WrapsEvenly P before after a b role role') ∧
      (messagesNumber P (before ++ ⟨role, a⟩ :: ⟨role', b⟩ :: after) < 2 ^ 31 →
        WrapsEvenly P before after a b role role') := by
  obtain ⟨-, -, hfirst⟩ := tokenNumber_append P a b
  have hwhole := count_append_iff P a b
  have hgrown := wrap32_le_iff hfirst
  have happended := wrap32_le_iff (messagesNumber_append_le P before after a b role)
  have hsplit := wrap32_le_iff (messagesNumber_split_le P before after a b role role')
  rw [← count_eq, ← count_eq] at hgrown
  rw [← countMessages_eq, ← countMessages_eq] at happended hsplit
  refine ⟨?_, wrapsEvenly_of_small P before after⟩
  constructor
  · intro h
    exact ⟨hwhole.mp ⟨h.whole_le, h.le_whole⟩, hgrown.mp h.grown, happended.mp h.appended,
      hsplit.mp h.split⟩
  · intro h
    obtain ⟨hle, hge⟩ := hwhole.mpr h.whole
    exact ⟨hle, hge, hgrown.mpr h.grown, happended.mpr h.appended, hsplit.mpr h.split⟩

/-- A newline more than an `int` holds. -/
theorem appended_newline_overflows :
    ¬ ∀ (P : Platform) (before after : List Message) (a b role role' : Str),
      ChunksSoundly P before after a b role role' := by
  intro h
  have hgrown := (h (cLocale fun _ => 0) [] [] (List.replicate 2147483647 (byte '\n'))
    (List.replicate 1 (byte '\n')) [] []).grown
  rw [List.replicate_append_replicate, count_eq, count_eq, tokenNumber_newlines,
    tokenNumber_newlines] at hgrown
  revert hgrown
  decide

end TokenCounter

end Gateway
