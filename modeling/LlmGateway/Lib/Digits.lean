import Mathlib.Data.Nat.Digits.Defs
import Mathlib.Data.List.Basic
import Mathlib.Tactic

/-!
# Positional numerals as byte strings

A numeral is what a formatted output stream writes: the digits of a natural
number in some base, most significant first, possibly padded on the left with
zeros.  Reading a numeral back (`value`) forgets the padding, so every
rendering below is injective, and no rendering contains a byte that is not a
digit.
-/

namespace Digits

/-- The low byte of a character; every character written here is ASCII. -/
def byte (c : Char) : UInt8 := .ofNat c.toNat

/-- The digits of `n`, most significant first, in lower case. -/
def numeral (base n : Nat) : List UInt8 := (Nat.toDigits base n).map byte

/-- `setfill('0')` and `setw(width)`: zeros on the left up to `width`. -/
def padded (width : Nat) (s : List UInt8) : List UInt8 :=
  List.replicate (width - s.length) (byte '0') ++ s

/-- The value of one digit byte. -/
def digitValue (b : UInt8) : Nat :=
  if b.toNat < 58 then b.toNat - 48 else b.toNat - 87

/-- The number a numeral denotes. -/
def value (base : Nat) (s : List UInt8) : Nat :=
  s.foldl (fun acc b => acc * base + digitValue b) 0

@[simp] theorem value_append_singleton (base : Nat) (s : List UInt8) (b : UInt8) :
    value base (s ++ [b]) = value base s * base + digitValue b := by
  simp [value]

/-- A digit reads back as itself in every base up to sixteen. -/
theorem digitValue_digitChar : ∀ d < 16, digitValue (byte d.digitChar) = d := by
  decide

/-- A numeral reads back as the number it was written from. -/
theorem value_numeral {base : Nat} (hlo : 1 < base) (hhi : base ≤ 16) (n : Nat) :
    value base (numeral base n) = n := by
  induction n using Nat.strongRecOn with
  | ind n ih =>
      unfold numeral at ih ⊢
      rw [Nat.toDigits_eq_if hlo]
      split
      · next hlt => simp [value, digitValue_digitChar n (by omega)]
      · next hge =>
          have hlast : n % base < base := Nat.mod_lt _ (by omega)
          have hdiv : n / base < n := Nat.div_lt_self (by omega) hlo
          rw [List.map_append, List.map_singleton, value_append_singleton,
            ih _ hdiv, digitValue_digitChar _ (by omega)]
          exact Nat.div_add_mod' n base

/-- Padding with zeros does not change the value. -/
theorem value_padded (base width : Nat) (s : List UInt8) :
    value base (padded width s) = value base s := by
  unfold padded
  generalize width - s.length = k
  induction k with
  | zero => simp
  | succ k ih =>
      rw [List.replicate_succ, List.cons_append]
      have hzero : digitValue (byte '0') = 0 := by decide
      simpa [value, hzero] using ih

theorem numeral_injective {base : Nat} (hlo : 1 < base) (hhi : base ≤ 16) :
    Function.Injective (numeral base) :=
  Function.LeftInverse.injective (g := value base) (value_numeral hlo hhi)

theorem padded_numeral_injective {base : Nat} (hlo : 1 < base) (hhi : base ≤ 16)
    (width : Nat) : Function.Injective fun n => padded width (numeral base n) := by
  apply Function.LeftInverse.injective (g := value base)
  intro n
  rw [value_padded, value_numeral hlo hhi]

/-- A decimal numeral consists of the bytes `0` to `9`. -/
theorem decimal_bytes {n : Nat} {b : UInt8} (hb : b ∈ numeral 10 n) :
    48 ≤ b.toNat ∧ b.toNat ≤ 57 := by
  obtain ⟨c, hc, rfl⟩ := List.mem_map.mp hb
  have hdigit := Nat.isDigit_of_mem_toDigits (by decide) (by decide) hc
  have hrange : 48 ≤ c.toNat ∧ c.toNat ≤ 57 := by
    simpa [Char.isDigit, Char.le_def, UInt32.le_iff_toNat_le] using hdigit
  have hsmall : (byte c).toNat = c.toNat := by
    simp only [byte, UInt8.toNat_ofNat']
    omega
  omega

/-- A padded decimal numeral consists of the bytes `0` to `9`. -/
theorem padded_decimal_bytes {width n : Nat} {b : UInt8}
    (hb : b ∈ padded width (numeral 10 n)) : 48 ≤ b.toNat ∧ b.toNat ≤ 57 := by
  rcases List.mem_append.mp hb with hz | hd
  · obtain ⟨-, rfl⟩ := List.mem_replicate.mp hz
    decide
  · exact decimal_bytes hd

end Digits
