import LlmGateway.Lib.Digits
import Mathlib.Data.Int.Log
import Mathlib.Data.List.DropRight
import Mathlib.Data.Sign.Basic

/-!
# Decimal numbers in texts

The general notation of formatted output: so many significant digits, positional for
numbers of a middling size and scientific for the others, without the zeros at the end
of a fraction.  What is printed reads back as the number rounded to these digits
(`read_general`), which is off by at most half a unit of the last one
(`abs_rounded_sub_le`) and prints like the number itself (`general_rounded`).

How the last digit is rounded is a parameter: any function to the nearest integers.
-/

namespace Decimals

open Digits

/-! ## Reading -/

def isDigit (b : UInt8) : Bool := 48 ≤ b.toNat && b.toNat ≤ 57

def readDigits (s : List UInt8) : Option Nat :=
  if s ≠ [] ∧ s.all isDigit then some (value 10 s) else none

/-- Digits with a point between them, or without one. -/
def readMantissa (s : List UInt8) : Option ℚ :=
  let fraction := (s.dropWhile (· ≠ byte '.')).drop 1
  (readDigits (s.takeWhile (· ≠ byte '.') ++ fraction)).map fun n : ℕ =>
    (n : ℚ) / 10 ^ fraction.length

/-- An exponent behind its letter, or nothing. -/
def readExponent : List UInt8 → Option ℤ
  | [] => some 0
  | [_] => none
  | _ :: sign :: digits =>
      if sign = byte '+' then (readDigits digits).map fun n : ℕ => (n : ℤ)
      else if sign = byte '-' then (readDigits digits).map fun n : ℕ => -(n : ℤ)
      else none

def readPositive (s : List UInt8) : Option ℚ := do
  let m ← readMantissa (s.takeWhile (· ≠ byte 'e'))
  let e ← readExponent (s.dropWhile (· ≠ byte 'e'))
  some (m * 10 ^ e)

/-- The number that a text denotes. -/
def read : List UInt8 → Option ℚ
  | [] => none
  | b :: s => if b = byte '-' then (readPositive s).map fun x => -x else readPositive (b :: s)

/-! ## Printing -/

/-- Drop the zeros at the end of a fraction. -/
def dropZeros (digits : List UInt8) : List UInt8 := digits.rdropWhile (· = byte '0')

/-- A fraction behind its point, which an empty one does not have. -/
def withPoint (digits : List UInt8) : List UInt8 :=
  if dropZeros digits = [] then [] else byte '.' :: dropZeros digits

/-- The exponent of the scientific notation: a sign and at least two digits. -/
def exponentText (e : ℤ) : List UInt8 :=
  byte 'e' :: (if e < 0 then byte '-' else byte '+') :: padded 2 (numeral 10 e.natAbs)

/-- Significant digits, with the exponent of the first one. -/
def layout (digits : List UInt8) (e : ℤ) : List UInt8 :=
  if e < -4 ∨ digits.length ≤ e then
    digits.take 1 ++ withPoint (digits.drop 1) ++ exponentText e
  else if e < 0 then
    byte '0' :: withPoint (List.replicate (-e - 1).toNat (byte '0') ++ digits)
  else digits.take (e.toNat + 1) ++ withPoint (digits.drop (e.toNat + 1))

/-- A function to the nearest integers. -/
def Rounds (round : ℚ → ℤ) : Prop := ∀ x, |(round x : ℚ) - x| ≤ 1 / 2

section
variable (round : ℚ → ℤ) (k : ℕ) (x : ℚ)

/-- The first `k + 1` digits of a positive number, as one number, and the exponent of
the first of them; a number that rounds up to a power of ten has the digits of that. -/
def significant : ℕ × ℤ :=
  let e := Int.log 10 x
  let m := (round (x / 10 ^ (e - k))).toNat
  if m = 10 ^ (k + 1) then (10 ^ k, e + 1) else (m, e)

/-- A number in the general notation, with `k + 1` significant digits. -/
def general : List UInt8 :=
  if x = 0 then [byte '0']
  else
    let parts := significant round k |x|
    (if x < 0 then [byte '-'] else []) ++ layout (numeral 10 parts.1) parts.2

/-- The number that has these digits. -/
def rounded : ℚ :=
  let parts := significant round k |x|
  SignType.sign x * (parts.1 * 10 ^ (parts.2 - k))

end

/-! ## What is printed can be read -/

section
variable {s t whole digits : List UInt8}

theorem isDigit_numeral (n : ℕ) : (numeral 10 n).all isDigit = true := by
  rw [List.all_eq_true]
  intro b hb
  obtain ⟨hlow, hhigh⟩ := decimal_bytes hb
  simp [isDigit, hlow, hhigh]

theorem numeral_ne_nil (n : ℕ) : numeral 10 n ≠ [] := by
  simp [numeral, Nat.toDigits_ne_nil]

theorem readDigits_eq (hne : s ≠ []) (hs : s.all isDigit = true) :
    readDigits s = some (value 10 s) := if_pos ⟨hne, hs⟩

theorem readDigits_padded (n : ℕ) : readDigits (padded 2 (numeral 10 n)) = some n := by
  have hne : padded 2 (numeral 10 n) ≠ [] := by simp [padded, numeral_ne_nil]
  have hdigits : (padded 2 (numeral 10 n)).all isDigit = true := by
    rw [List.all_eq_true]
    intro b hb
    obtain ⟨hlow, hhigh⟩ := padded_decimal_bytes hb
    simp [isDigit, hlow, hhigh]
  rw [readDigits_eq hne hdigits, value_padded, value_numeral (by decide) (by decide)]

theorem readExponent_exponentText (e : ℤ) : readExponent (exponentText e) = some e := by
  unfold exponentText
  by_cases he : e < 0
  · rw [if_pos he, readExponent, if_neg (by decide), if_pos rfl, readDigits_padded, Option.map_some]
    congr 1
    omega
  · rw [if_neg he, readExponent, if_pos rfl, readDigits_padded, Option.map_some]
    congr 1
    omega

/-- A fraction is its digits up to the zeros at its end. -/
theorem exists_zeros (digits : List UInt8) :
    ∃ n, digits = dropZeros digits ++ List.replicate n (byte '0') := by
  induction digits using List.reverseRecOn with
  | nil => exact ⟨0, rfl⟩
  | append_singleton digits b ih =>
      by_cases hb : b = byte '0'
      · obtain ⟨n, hn⟩ := ih
        refine ⟨n + 1, ?_⟩
        have hdrop : dropZeros (digits ++ [b]) = dropZeros digits :=
          List.rdropWhile_concat_pos _ _ _ (by simpa using hb)
        rw [hdrop, List.replicate_succ', ← List.append_assoc, ← hn, hb]
      · refine ⟨0, ?_⟩
        have hkeep : dropZeros (digits ++ [b]) = digits ++ [b] :=
          List.rdropWhile_concat_neg _ _ _ (by simpa using hb)
        rw [hkeep, List.replicate_zero, List.append_nil]

theorem value_zeros (s : List UInt8) (n : ℕ) :
    value 10 (s ++ List.replicate n (byte '0')) = value 10 s * 10 ^ n := by
  have hzero : digitValue (byte '0') = 0 := by decide
  induction n with
  | zero => simp
  | succ n ih =>
      rw [List.replicate_succ', ← List.append_assoc, value_append_singleton, ih, hzero, pow_succ]
      ring

theorem isDigit_ne {b : UInt8} (hb : isDigit b = true) : b ≠ byte '.' ∧ b ≠ byte 'e' := by
  constructor <;> rintro rfl <;> revert hb <;> decide

/-- A text is cut at the first of some bytes. -/
theorem cut_at {c : UInt8} (hs : ∀ b ∈ s, b ≠ c) (t : List UInt8) :
    (s ++ c :: t).takeWhile (· ≠ c) = s ∧ (s ++ c :: t).dropWhile (· ≠ c) = c :: t := by
  constructor
  · rw [List.takeWhile_append_of_pos (by simpa using hs)]
    simp
  · rw [List.dropWhile_append_of_pos (by simpa using hs)]
    simp

/-- The mantissa of a positional text. -/
theorem readMantissa_withPoint (hne : whole ≠ []) (hwhole : whole.all isDigit = true)
    (hdigits : digits.all isDigit = true) :
    readMantissa (whole ++ withPoint digits) =
      some ((value 10 (whole ++ digits) : ℚ) / 10 ^ digits.length) := by
  obtain ⟨n, hn⟩ := exists_zeros digits
  have hpoint : ∀ b ∈ whole, b ≠ byte '.' := fun b hb =>
    (isDigit_ne (List.all_eq_true.mp hwhole b hb)).1
  have hkept : (dropZeros digits).all isDigit = true := by
    rw [hn, List.all_append, Bool.and_eq_true] at hdigits
    exact hdigits.1
  have hvalue : (value 10 (whole ++ digits) : ℚ) / 10 ^ digits.length =
      value 10 (whole ++ dropZeros digits) / 10 ^ (dropZeros digits).length := by
    conv_lhs => rw [hn]
    rw [← List.append_assoc, value_zeros, List.length_append, List.length_replicate, pow_add]
    push_cast
    rw [mul_div_mul_right _ _ (by positivity)]
  rw [hvalue]
  unfold withPoint
  split
  · next hempty =>
      have hread : readMantissa whole = some (value 10 whole : ℚ) := by
        unfold readMantissa
        rw [List.takeWhile_eq_self_iff.mpr (by simpa using hpoint),
          List.dropWhile_eq_nil_iff.mpr (by simpa using hpoint)]
        simp [readDigits_eq hne hwhole]
      rw [hempty, List.append_nil, hread]
      simp
  · obtain ⟨htake, hdrop⟩ := cut_at hpoint (dropZeros digits)
    unfold readMantissa
    rw [htake, hdrop]
    simp only [List.drop_succ_cons, List.drop_zero]
    rw [readDigits_eq (by simp [hne]) (by rw [List.all_append, hwhole, hkept]; rfl),
      Option.map_some]

theorem mem_withPoint {b : UInt8} (hdigits : digits.all isDigit = true)
    (hb : b ∈ withPoint digits) : b = byte '.' ∨ isDigit b = true := by
  obtain ⟨n, hn⟩ := exists_zeros digits
  unfold withPoint at hb
  split at hb
  · cases hb
  · rcases List.mem_cons.mp hb with rfl | hb
    · exact .inl rfl
    · refine .inr (List.all_eq_true.mp hdigits b ?_)
      rw [hn]
      exact List.mem_append_left _ hb

/-- A positional text has no exponent. -/
theorem ne_exponent (hwhole : whole.all isDigit = true) (hdigits : digits.all isDigit = true) :
    ∀ b ∈ whole ++ withPoint digits, b ≠ byte 'e' := by
  intro b hb
  rcases List.mem_append.mp hb with hb | hb
  · exact (isDigit_ne (List.all_eq_true.mp hwhole b hb)).2
  · rcases mem_withPoint hdigits hb with rfl | hdigit
    · decide
    · exact (isDigit_ne hdigit).2

/-- A positional text reads as its digits. -/
theorem readPositive_positional (hne : whole ≠ []) (hwhole : whole.all isDigit = true)
    (hdigits : digits.all isDigit = true) :
    readPositive (whole ++ withPoint digits) =
      some ((value 10 (whole ++ digits) : ℚ) / 10 ^ digits.length) := by
  have hplain := ne_exponent hwhole hdigits
  unfold readPositive
  rw [List.takeWhile_eq_self_iff.mpr (by simpa using hplain),
    List.dropWhile_eq_nil_iff.mpr (by simpa using hplain), readMantissa_withPoint hne hwhole hdigits]
  simp [readExponent]

/-- A scientific text reads as its digits and its exponent. -/
theorem readPositive_scientific (hne : whole ≠ []) (hwhole : whole.all isDigit = true)
    (hdigits : digits.all isDigit = true) (e : ℤ) :
    readPositive (whole ++ withPoint digits ++ exponentText e) =
      some ((value 10 (whole ++ digits) : ℚ) / 10 ^ digits.length * 10 ^ e) := by
  obtain ⟨htake, hdrop⟩ := cut_at (ne_exponent hwhole hdigits)
    ((if e < 0 then byte '-' else byte '+') :: padded 2 (numeral 10 e.natAbs))
  have hexponent := readExponent_exponentText e
  unfold exponentText at hexponent ⊢
  unfold readPositive
  rw [htake, hdrop, hexponent, readMantissa_withPoint hne hwhole hdigits]
  rfl

theorem value_leadingZeros (n : ℕ) (s : List UInt8) :
    value 10 (List.replicate n (byte '0') ++ s) = value 10 s := by
  have hpadded := value_padded 10 (n + s.length) s
  rwa [padded, Nat.add_sub_cancel] at hpadded

theorem isDigit_zeros (n : ℕ) : (List.replicate n (byte '0')).all isDigit = true := by
  rw [List.all_eq_true]
  intro b hb
  rw [(List.mem_replicate.mp hb).2]
  decide

/-- **What is laid out can be read**, in each of the notations. -/
theorem readPositive_layout (hne : digits ≠ []) (hdigits : digits.all isDigit = true) (e : ℤ) :
    readPositive (layout digits e) =
      some ((value 10 digits : ℚ) * 10 ^ (e + 1 - digits.length)) := by
  have htake : ∀ n, (digits.take n).all isDigit = true := fun n =>
    List.all_eq_true.mpr fun b hb => List.all_eq_true.mp hdigits b (List.mem_of_mem_take hb)
  have hdrop : ∀ n, (digits.drop n).all isDigit = true := fun n =>
    List.all_eq_true.mpr fun b hb => List.all_eq_true.mp hdigits b (List.mem_of_mem_drop hb)
  have hpos : 0 < digits.length := List.length_pos_of_ne_nil hne
  have hten : (10 : ℚ) ≠ 0 := by norm_num
  unfold layout
  split_ifs with hscientific hsmall
  · rw [readPositive_scientific (by simpa using hne) (htake 1) (hdrop 1), List.take_append_drop,
      List.length_drop, div_mul_eq_mul_div, mul_div_assoc, ← zpow_natCast, ← zpow_sub₀ hten]
    congr 3
    omega
  · rw [← List.singleton_append, readPositive_positional (List.cons_ne_nil _ _) rfl
      (by rw [List.all_append, isDigit_zeros, hdigits]; rfl), List.length_append,
      List.length_replicate]
    have hvalue : value 10 ([byte '0'] ++
        (List.replicate (-e - 1).toNat (byte '0') ++ digits)) = value 10 digits := by
      rw [← List.append_assoc]
      exact value_leadingZeros ((-e - 1).toNat + 1) digits
    rw [hvalue, div_eq_mul_inv, ← zpow_natCast, ← zpow_neg]
    congr 3
    push_cast
    omega
  · have hwhole : digits.take (e.toNat + 1) ≠ [] := by simpa using hne
    rw [readPositive_positional hwhole (htake _) (hdrop _), List.take_append_drop,
      List.length_drop, div_eq_mul_inv, ← zpow_natCast, ← zpow_neg]
    congr 3
    omega

end

/-! ## How much is lost -/

section
variable {round : ℚ → ℤ} {k : ℕ} {x : ℚ}

/-- An integer is rounded to itself. -/
theorem Rounds.natCast (h : Rounds round) (n : ℕ) : round n = n := by
  have hnear := abs_le.mp (h n)
  have hlow : (n : ℤ) - 1 < round n := by
    have : ((n : ℤ) - 1 : ℚ) < round n := by push_cast; linarith [hnear.1]
    exact_mod_cast this
  have hhigh : round n < (n : ℤ) + 1 := by
    have : (round n : ℚ) < (n : ℤ) + 1 := by push_cast; linarith [hnear.2]
    exact_mod_cast this
  omega

/-- Rounding does not cross an integer. -/
theorem Rounds.le (h : Rounds round) {n : ℕ} (hn : (n : ℚ) ≤ x) : (n : ℤ) ≤ round x := by
  have hnear := abs_le.mp (h x)
  have hlow : (n : ℤ) - 1 < round x := by
    have : ((n : ℤ) - 1 : ℚ) < round x := by push_cast; linarith [hnear.1]
    exact_mod_cast this
  omega

theorem Rounds.ge (h : Rounds round) {n : ℕ} (hn : x ≤ n) : round x ≤ n := by
  have hnear := abs_le.mp (h x)
  have hhigh : round x < (n : ℤ) + 1 := by
    have : (round x : ℚ) < (n : ℤ) + 1 := by push_cast; linarith [hnear.2]
    exact_mod_cast this
  omega

/-- The decade of a positive number. -/
theorem decade (hx : 0 < x) : (10 : ℚ) ^ Int.log 10 x ≤ x ∧ x < 10 ^ (Int.log 10 x + 1) := by
  have hlow := Int.zpow_log_le_self (b := 10) (by decide) hx
  have hhigh := Int.lt_zpow_succ_log_self (b := 10) (by decide) x
  exact ⟨by exact_mod_cast hlow, by exact_mod_cast hhigh⟩

theorem log_eq {e : ℤ} (hlow : (10 : ℚ) ^ e ≤ x) (hhigh : x < 10 ^ (e + 1)) :
    Int.log 10 x = e := by
  have hx : 0 < x := (zpow_pos (by norm_num) e).trans_le hlow
  have hle := (Int.zpow_le_iff_le_log (b := 10) (by decide) hx).mp (by exact_mod_cast hlow)
  have hlt := (Int.lt_zpow_iff_log_lt (b := 10) (by decide) hx).mp (by exact_mod_cast hhigh)
  omega

/-- The scaled number that is rounded has `k + 1` digits before its point. -/
theorem scaled (hx : 0 < x) (k : ℕ) :
    ((10 ^ k : ℕ) : ℚ) ≤ x / 10 ^ (Int.log 10 x - k) ∧
      x / 10 ^ (Int.log 10 x - k) ≤ (10 ^ (k + 1) : ℕ) := by
  obtain ⟨hlow, hhigh⟩ := decade hx
  have hten : (10 : ℚ) ≠ 0 := by norm_num
  have hscale : (0 : ℚ) < 10 ^ (Int.log 10 x - k) := zpow_pos (by norm_num) _
  constructor
  · rw [le_div_iff₀ hscale]
    push_cast
    rw [← zpow_natCast, ← zpow_add₀ hten]
    simpa using hlow
  · rw [div_le_iff₀ hscale]
    push_cast
    rw [← zpow_natCast, ← zpow_add₀ hten]
    have hexponent : ((k + 1 : ℕ) : ℤ) + (Int.log 10 x - k) = Int.log 10 x + 1 := by
      push_cast
      ring
    rw [hexponent]
    exact hhigh.le

/-- **Correctly rounded digits**: there are `k + 1` of them, and they are within half
a unit of the last one, in units of which the number has at least `10 ^ k`. -/
theorem significant_spec (h : Rounds round) (hx : 0 < x) (k : ℕ) :
    10 ^ k ≤ (significant round k x).1 ∧ (significant round k x).1 < 10 ^ (k + 1) ∧
      |((significant round k x).1 : ℚ) * 10 ^ ((significant round k x).2 - k) - x| ≤
        x / (2 * 10 ^ k) := by
  obtain ⟨hscaledLow, hscaledHigh⟩ := scaled hx k
  obtain ⟨hdecade, -⟩ := decade hx
  have hten : (10 : ℚ) ≠ 0 := by norm_num
  have hscale : (0 : ℚ) < 10 ^ (Int.log 10 x - k) := zpow_pos (by norm_num) _
  have hlow := h.le hscaledLow
  have hhigh := h.ge hscaledHigh
  obtain ⟨m, hm⟩ : ∃ m : ℕ, round (x / 10 ^ (Int.log 10 x - k)) = m :=
    Int.eq_ofNat_of_zero_le (by omega)
  have hnear : |(m : ℚ) * 10 ^ (Int.log 10 x - k) - x| ≤ x / (2 * 10 ^ k) := by
    have hround := h (x / 10 ^ (Int.log 10 x - k))
    rw [hm] at hround
    have hunscale : (m : ℚ) * 10 ^ (Int.log 10 x - k) - x =
        ((m : ℤ) - x / 10 ^ (Int.log 10 x - k)) * 10 ^ (Int.log 10 x - k) := by
      rw [sub_mul, div_mul_cancel₀ _ hscale.ne']
      push_cast
      rfl
    have hunit : (10 : ℚ) ^ (Int.log 10 x - k) ≤ x / 10 ^ k := by
      rw [le_div_iff₀ (by positivity), ← zpow_natCast, ← zpow_add₀ hten, sub_add_cancel]
      exact hdecade
    calc |(m : ℚ) * 10 ^ (Int.log 10 x - k) - x|
        = |((m : ℤ) : ℚ) - x / 10 ^ (Int.log 10 x - k)| * 10 ^ (Int.log 10 x - k) := by
          rw [hunscale, abs_mul, abs_of_pos hscale]
      _ ≤ 1 / 2 * (x / 10 ^ k) := mul_le_mul hround hunit hscale.le (by norm_num)
      _ = x / (2 * 10 ^ k) := by
          rw [div_mul_div_comm, one_mul]
  rw [hm] at hlow hhigh
  have hlow' : 10 ^ k ≤ m := by exact_mod_cast hlow
  have hhigh' : m ≤ 10 ^ (k + 1) := by exact_mod_cast hhigh
  simp only [significant, hm, Int.toNat_natCast]
  split
  · next hcarry =>
      refine ⟨le_refl _, Nat.pow_lt_pow_right (by decide) (Nat.lt_succ_self k), ?_⟩
      have hsame : (((10 ^ k : ℕ) : ℚ)) * 10 ^ (Int.log 10 x + 1 - k) =
          m * 10 ^ (Int.log 10 x - k) := by
        rw [hcarry]
        push_cast
        rw [add_sub_right_comm, zpow_add₀ hten, zpow_one, pow_succ]
        ring
      rw [hsame]
      exact hnear
  · next hcarry => exact ⟨hlow', lt_of_le_of_ne hhigh' hcarry, hnear⟩

/-- A number with these digits has these digits. -/
theorem significant_self (h : Rounds round) {m : ℕ} (hlow : 10 ^ k ≤ m)
    (hhigh : m < 10 ^ (k + 1)) (e : ℤ) :
    significant round k ((m : ℚ) * 10 ^ (e - k)) = (m, e) := by
  have hten : (10 : ℚ) ≠ 0 := by norm_num
  have hscale : (0 : ℚ) < 10 ^ (e - k) := zpow_pos (by norm_num) _
  have hlog : Int.log 10 ((m : ℚ) * 10 ^ (e - k)) = e := by
    have hcastLow : ((10 : ℚ)) ^ (k : ℤ) ≤ m := by
      rw [zpow_natCast]
      exact_mod_cast hlow
    have hcastHigh : (m : ℚ) < 10 ^ ((k : ℤ) + 1) := by
      have hcast : (m : ℚ) < 10 ^ (k + 1) := by exact_mod_cast hhigh
      exact_mod_cast hcast
    apply log_eq
    · have hsplit : (10 : ℚ) ^ e = 10 ^ (k : ℤ) * 10 ^ (e - k) := by
        rw [← zpow_add₀ hten, add_sub_cancel]
      rw [hsplit]
      exact mul_le_mul_of_nonneg_right hcastLow hscale.le
    · have hsplit : (10 : ℚ) ^ (e + 1) = 10 ^ ((k : ℤ) + 1) * 10 ^ (e - k) := by
        rw [← zpow_add₀ hten]
        congr 1
        ring
      rw [hsplit]
      exact mul_lt_mul_of_pos_right hcastHigh hscale
  simp only [significant, hlog, mul_div_cancel_right₀ _ hscale.ne', h.natCast, Int.toNat_natCast]
  rw [if_neg (Nat.ne_of_lt hhigh)]

theorem length_numeral {m : ℕ} (hlow : 10 ^ k ≤ m) (hhigh : m < 10 ^ (k + 1)) :
    (numeral 10 m).length = k + 1 := by
  have hle := (Nat.length_toDigits_le_iff (n := m) (b := 10) (by decide) (Nat.succ_pos k)).mpr hhigh
  have hgt : ¬ (Nat.toDigits 10 m).length ≤ k := by
    intro hshort
    cases k with
    | zero =>
        have hpos : 0 < (Nat.toDigits 10 m).length := Nat.length_toDigits_pos
        omega
    | succ k =>
        have hsmall := (Nat.length_toDigits_le_iff (by decide) (Nat.succ_pos k)).mp hshort
        omega
  simp only [numeral, List.length_map]
  omega

/-- The digits of a positive number, laid out, read as these digits. -/
theorem readPositive_significant (h : Rounds round) (hx : 0 < x) (k : ℕ) :
    readPositive (layout (numeral 10 (significant round k x).1) (significant round k x).2) =
      some (((significant round k x).1 : ℚ) * 10 ^ ((significant round k x).2 - k)) := by
  obtain ⟨hlow, hhigh, -⟩ := significant_spec h hx k
  rw [readPositive_layout (numeral_ne_nil _) (isDigit_numeral _), length_numeral hlow hhigh,
    value_numeral (by decide) (by decide)]
  congr 3
  push_cast
  ring

/-- What is laid out begins with a digit. -/
theorem head_layout {digits : List UInt8} (hne : digits ≠ [])
    (hdigits : digits.all isDigit = true) (e : ℤ) :
    ∃ b s, layout digits e = b :: s ∧ b ≠ byte '-' := by
  obtain ⟨d, rest, rfl⟩ := List.exists_cons_of_ne_nil hne
  have hd : d ≠ byte '-' := by
    rintro rfl
    exact absurd (List.all_eq_true.mp hdigits _ List.mem_cons_self) (by decide)
  unfold layout
  split_ifs
  · exact ⟨d, _, rfl, hd⟩
  · exact ⟨_, _, rfl, by decide⟩
  · exact ⟨d, _, rfl, hd⟩

/-- Digits, the point, the letter of the exponent and signs. -/
def isPrinted (b : UInt8) : Bool :=
  isDigit b || b = byte '.' || b = byte 'e' || b = byte '+' || b = byte '-'

theorem isPrinted_layout {digits : List UInt8} (hdigits : digits.all isDigit = true) (e : ℤ) :
    ∀ b ∈ layout digits e, isPrinted b = true := by
  have hdigit : ∀ b, isDigit b = true → isPrinted b = true := fun b hb => by simp [isPrinted, hb]
  have hsub : ∀ {s : List UInt8}, s.Sublist digits → s.all isDigit = true := fun hs =>
    List.all_eq_true.mpr fun b hb => List.all_eq_true.mp hdigits b (hs.subset hb)
  have hpoint : ∀ {s : List UInt8}, s.all isDigit = true → ∀ b ∈ withPoint s,
      isPrinted b = true := by
    intro s hs b hb
    rcases mem_withPoint hs hb with rfl | hb
    · decide
    · exact hdigit b hb
  have hexponent : ∀ b ∈ exponentText e, isPrinted b = true := by
    intro b hb
    rcases List.mem_cons.mp hb with rfl | hb
    · decide
    · rcases List.mem_cons.mp hb with rfl | hb
      · split <;> decide
      · obtain ⟨hlow, hhigh⟩ := padded_decimal_bytes hb
        exact hdigit b (by simp [isDigit, hlow, hhigh])
  intro b hb
  unfold layout at hb
  split_ifs at hb
  · rcases List.mem_append.mp hb with hb | hb
    · rcases List.mem_append.mp hb with hb | hb
      · exact hdigit b (List.all_eq_true.mp (hsub (List.take_sublist 1 digits)) b hb)
      · exact hpoint (hsub (List.drop_sublist 1 digits)) b hb
    · exact hexponent b hb
  · rcases List.mem_cons.mp hb with rfl | hb
    · decide
    · refine hpoint ?_ b hb
      rw [List.all_append, isDigit_zeros, hdigits]
      rfl
  · rcases List.mem_append.mp hb with hb | hb
    · exact hdigit b (List.all_eq_true.mp (hsub (List.take_sublist _ digits)) b hb)
    · exact hpoint (hsub (List.drop_sublist _ digits)) b hb

theorem isPrinted_general (round : ℚ → ℤ) (k : ℕ) (x : ℚ) :
    ∀ b ∈ general round k x, isPrinted b = true := by
  intro b hb
  unfold general at hb
  split at hb
  · rw [List.mem_singleton.mp hb]
    decide
  · rcases List.mem_append.mp hb with hb | hb
    · split at hb
      · rw [List.mem_singleton.mp hb]
        decide
      · cases hb
    · exact isPrinted_layout (isDigit_numeral _) _ b hb

/-- An integer is printed with all of its digits. -/
theorem read_numeral (n : ℕ) : read (numeral 10 n) = some n := by
  have hread := readPositive_positional (numeral_ne_nil n) (isDigit_numeral n)
    (List.all_nil (f := isDigit))
  obtain ⟨d, rest, hnumeral⟩ := List.exists_cons_of_ne_nil (numeral_ne_nil n)
  have hd : d ≠ byte '-' := by
    rintro rfl
    refine absurd (List.all_eq_true.mp (isDigit_numeral n) (byte '-') ?_) (by decide)
    rw [hnumeral]
    exact List.mem_cons_self
  have hplain : numeral 10 n ++ withPoint [] = numeral 10 n := List.append_nil _
  rw [hplain, List.append_nil, value_numeral (by decide) (by decide)] at hread
  rw [hnumeral, read, if_neg hd, ← hnumeral, hread]
  simp

/-- **What is printed reads as the rounded number.** -/
theorem read_general (h : Rounds round) (k : ℕ) (x : ℚ) :
    read (general round k x) = some (rounded round k x) := by
  rcases lt_trichotomy x 0 with hneg | rfl | hpos
  · have hread := readPositive_significant h (abs_pos.mpr hneg.ne) k
    simp only [general, rounded, if_neg hneg.ne, if_pos hneg, List.singleton_append, read, if_true,
      hread, Option.map_some, sign_neg hneg]
    simp
  · have hzero : readPositive ([byte '0'] ++ withPoint []) =
        some ((value 10 ([byte '0'] ++ []) : ℚ) / 10 ^ ([] : List UInt8).length) :=
      readPositive_positional (List.cons_ne_nil _ _) rfl rfl
    have hvalue : value 10 ([byte '0'] ++ []) = 0 := by decide
    rw [hvalue] at hzero
    have hplain : general round k 0 = [byte '0'] ++ withPoint [] := if_pos rfl
    have hrounded : rounded round k 0 = 0 := by simp [rounded]
    rw [hplain, hrounded]
    refine hzero.trans ?_
    simp
  · have hread := readPositive_significant h hpos k
    obtain ⟨b, s, hhead, hb⟩ := head_layout (numeral_ne_nil (significant round k x).1)
      (isDigit_numeral _) (significant round k x).2
    simp only [general, rounded, if_neg hpos.ne', if_neg hpos.not_gt, List.nil_append, abs_of_pos hpos,
      sign_pos hpos]
    rw [hhead, read, if_neg hb, ← hhead, hread]
    simp

/-- **At most half a unit of the last digit is lost.** -/
theorem abs_rounded_sub_le (h : Rounds round) (k : ℕ) (x : ℚ) :
    |rounded round k x - x| ≤ |x| / (2 * 10 ^ k) := by
  rcases eq_or_ne x 0 with rfl | hx
  · simp [rounded]
  · have hnear := (significant_spec h (abs_pos.mpr hx) k).2.2
    have hsign : |(SignType.sign x : ℚ)| = 1 := by
      rcases lt_or_gt_of_ne hx with hneg | hpos
      · simp [sign_neg hneg]
      · simp [sign_pos hpos]
    have hsplit : rounded round k x - x = SignType.sign x *
        ((significant round k |x|).1 * 10 ^ ((significant round k |x|).2 - k) - |x|) := by
      rw [mul_sub, sign_mul_abs]
      rfl
    rw [hsplit, abs_mul, hsign, one_mul]
    exact hnear

/-- **Printing is idempotent**: the rounded number prints like the number itself. -/
theorem general_rounded (h : Rounds round) (k : ℕ) (x : ℚ) :
    general round k (rounded round k x) = general round k x := by
  rcases eq_or_ne x 0 with rfl | hx
  · simp [rounded]
  · obtain ⟨hlow, hhigh, -⟩ := significant_spec h (abs_pos.mpr hx) k
    have hself := significant_self h hlow hhigh (significant round k |x|).2
    have hm : (0 : ℚ) < (significant round k |x|).1 := by
      exact_mod_cast (pow_pos (by decide) k).trans_le hlow
    have hpos : 0 < ((significant round k |x|).1 : ℚ) *
        10 ^ ((significant round k |x|).2 - k) := mul_pos hm (zpow_pos (by norm_num) _)
    rcases lt_or_gt_of_ne hx with hneg | hpositive
    · have hrounded : rounded round k x = -((significant round k |x|).1 *
          10 ^ ((significant round k |x|).2 - k)) := by
        simp [rounded, sign_neg hneg]
      have habs : |rounded round k x| = (significant round k |x|).1 *
          10 ^ ((significant round k |x|).2 - k) := by
        rw [hrounded, abs_neg, abs_of_pos hpos]
      have hsmall : rounded round k x < 0 := by
        rw [hrounded]
        exact neg_neg_of_pos hpos
      simp only [general, if_neg hsmall.ne, if_neg hx, if_pos hsmall, if_pos hneg, habs, hself]
    · have hrounded : rounded round k x = (significant round k |x|).1 *
          10 ^ ((significant round k |x|).2 - k) := by
        simp [rounded, sign_pos hpositive]
      have hlarge : 0 < rounded round k x := by
        rw [hrounded]
        exact hpos
      have habs : |rounded round k x| = (significant round k |x|).1 *
          10 ^ ((significant round k |x|).2 - k) := by
        rw [abs_of_pos hlarge, hrounded]
      simp only [general, if_neg hlarge.ne', if_neg hx, if_neg hlarge.not_gt,
        if_neg hpositive.not_gt, habs, hself]

end

end Decimals
