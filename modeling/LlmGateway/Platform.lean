import LlmGateway.Lib.Digits
import Mathlib.Data.List.AList
import Mathlib.Data.List.Sort
import Mathlib.Data.Rat.Floor

/-!
# The C++ platform

The pieces of C++ the program is written in.  A string is a sequence of bytes,
a `double` is the rational it denotes, an `int` is an integer that wraps at 32
bits where the code adds or multiplies without a bound, and a time point is a
count of nanoseconds of the steady clock.

The rates, scores and estimates that routing compares pass through the
`Rounding` of the machine, so that what is proved under every rounding holds of
`binary64` too.  Where no rounding is named, arithmetic is exact.

A hash map is an association list with distinct keys.  The order in which a
loop visits it is not specified, so such a loop takes a `Traversal` and every
theorem quantifies over it; the result of `std::sort` is likewise any
descending rearrangement (`Descending`).
-/

namespace Gateway

export Digits (byte)

/-- `std::string`. -/
abbrev Str := List UInt8

/-- A string literal. -/
def str (s : String) : Str := s.toList.map byte

/-- The bytes of a literal, without decoding it. -/
theorem str_ofList (chars : List Char) : str (String.ofList chars) = chars.map byte := by
  rw [str, String.toList_ofList]

/-- `double`: the rational that a finite one denotes. -/
abbrev Double := ℚ

/-- What an operation on `double`s makes of its exact result.  Health records and
running sums are kept exact; the numbers that routing compares are rounded. -/
class Rounding where
  fl : ℚ → Double

export Rounding (fl)

/-- Exact arithmetic, where no other rounding is in scope. -/
instance exactly : Rounding := ⟨id⟩

@[simp] theorem fl_exactly (x : ℚ) : fl x = x := rfl

/-- `std::chrono::steady_clock::time_point`, in nanoseconds. -/
abbrev Time := ℤ

def seconds (n : ℤ) : Time := n * 1000000000

/-- `duration_cast<seconds>`: truncation toward zero. -/
def inSeconds (d : Time) : ℤ := d.tdiv 1000000000

/-- Reduction of an `int` result to 32 bits. -/
def wrap32 (n : ℤ) : ℤ := n.bmod (2 ^ 32)

/-- Conversion of an `int` to `size_t`: a negative value wraps around. -/
def toSizeT (n : ℤ) : Nat := if n < 0 then (n + 2 ^ 64).toNat else n.toNat

/-- `std::to_string` of an unsigned integer. -/
def toStringNat (n : Nat) : Str := Digits.numeral 10 n

/-- `std::to_string` of a signed integer. -/
def toStringInt (n : ℤ) : Str :=
  if n < 0 then byte '-' :: toStringNat n.natAbs else toStringNat n.natAbs

/-- The nearest integer, ties to the even one. -/
def roundHalfEven (x : ℚ) : ℤ :=
  let below := x.floor
  if x - below < 1 / 2 then below
  else if 1 / 2 < x - below then below + 1
  else if below % 2 = 0 then below else below + 1

/-- `std::to_string` of a `double`, that is `%f`: six decimals. -/
def toStringDouble (x : Double) : Str :=
  let micros := (roundHalfEven (|x| * 1000000)).toNat
  (if x < 0 then [byte '-'] else []) ++ toStringNat (micros / 1000000) ++ byte '.' ::
    Digits.padded 6 (toStringNat (micros % 1000000))

/-- `std::hex` of an unsigned integer. -/
def toHex (n : Nat) : Str := Digits.numeral 16 n

/-- `std::unordered_map`. -/
abbrev UnorderedMap (κ ν : Type) := AList fun _ : κ => ν

/-- The order in which a range-for visits a hash map. -/
structure Traversal (α : Type) where
  order : List α → List α
  perm : ∀ l, (order l).Perm l

/-- `std::sort` with the comparator `a.key > b.key`; ties may fall either way. -/
structure Descending (α : Type) (key : α → ℚ) where
  sort : List α → List α
  perm : ∀ l, (sort l).Perm l
  sorted : ∀ l, (sort l).Pairwise fun a b => key b ≤ key a

/-- Visiting a map in the order of its entries. -/
def Traversal.listed (α : Type) : Traversal α := ⟨id, fun _ => .refl _⟩

instance (α : Type) : Inhabited (Traversal α) := ⟨.listed α⟩

/-- The stable descending sort is one of the sorts `std::sort` may be. -/
def Descending.stable (α : Type) (key : α → ℚ) : Descending α key where
  sort l := l.insertionSort fun a b => key b ≤ key a
  perm l := List.perm_insertionSort _ l
  sorted l := by
    have htotal : Std.Total fun a b : α => key b ≤ key a := ⟨fun a b => le_total _ _⟩
    have htrans : IsTrans α fun a b => key b ≤ key a := ⟨fun a b c hab hbc => hbc.trans hab⟩
    exact List.pairwise_insertionSort (fun a b : α => key b ≤ key a) l

instance (α : Type) (key : α → ℚ) : Inhabited (Descending α key) := ⟨.stable α key⟩

/-- The part of the platform the program is compiled against: `std::hash` of a
string, and the character classes of `<cctype>`. -/
structure Platform where
  hash : Str → UInt64
  isspace : UInt8 → Bool
  ispunct : UInt8 → Bool
  disjoint : ∀ b, isspace b = true → ispunct b = false
  newline_isspace : isspace (byte '\n') = true

/-- The 64-bit FNV-1a hash of a string. -/
def fnv1a (s : Str) : UInt64 :=
  s.foldl (fun h b => (h ^^^ b.toUInt64) * 1099511628211) 14695981039346656037

/-- A platform with the character classes of the C locale. -/
def cLocale (hash : Str → UInt64) : Platform where
  hash := hash
  isspace b := b = 32 || (9 ≤ b && b ≤ 13)
  ispunct b := (33 ≤ b && b ≤ 47) || (58 ≤ b && b ≤ 64) || (91 ≤ b && b ≤ 96) ||
    (123 ≤ b && b ≤ 126)
  disjoint b h := by
    simp only [Bool.or_eq_true, Bool.and_eq_true, decide_eq_true_eq, UInt8.le_iff_toNat_le,
      ← UInt8.toNat_inj, UInt8.reduceToNat] at h
    simp only [Bool.or_eq_false_iff, Bool.and_eq_false_iff, decide_eq_false_iff_not,
      UInt8.le_iff_toNat_le, UInt8.reduceToNat]
    omega
  newline_isspace := by decide

/-- A positive number converts to itself. -/
theorem toSizeT_of_pos {n : ℤ} (h : 1 ≤ n) : (toSizeT n : ℤ) = n := by
  unfold toSizeT
  rw [if_neg (by omega)]
  omega

theorem toStringInt_injective : Function.Injective toStringInt := by
  intro a b hab
  have hnat : ∀ {m n : Nat}, toStringNat m = toStringNat n → m = n :=
    fun h => Digits.numeral_injective (by decide) (by decide) h
  have hminus : ∀ n : Nat, byte '-' ∉ toStringNat n := by
    intro n hn
    have := Digits.decimal_bytes hn
    revert this
    decide
  unfold toStringInt at hab
  split at hab <;> split at hab
  · have := hnat (List.cons.inj hab).2
    omega
  · exact absurd (hab ▸ List.mem_cons_self) (hminus b.natAbs)
  · exact absurd (hab ▸ List.mem_cons_self) (hminus a.natAbs)
  · have := hnat hab
    omega

/-- No printed number contains the bar that separates the parts of a key. -/
theorem bar_notMem_toStringInt (n : ℤ) : byte '|' ∉ toStringInt n := by
  have hdigits : byte '|' ∉ toStringNat n.natAbs := by
    intro h
    have := Digits.decimal_bytes h
    revert this
    decide
  unfold toStringInt
  split
  · rw [List.mem_cons, not_or]
    exact ⟨by decide, hdigits⟩
  · exact hdigits

theorem bar_notMem_toStringDouble (x : Double) : byte '|' ∉ toStringDouble x := by
  have hrange : ¬ (48 ≤ (byte '|').toNat ∧ (byte '|').toNat ≤ 57) := by decide
  unfold toStringDouble
  simp only [List.mem_append, List.mem_cons, not_or]
  refine ⟨⟨?_, fun h => hrange (Digits.decimal_bytes h)⟩, by decide,
    fun h => hrange (Digits.padded_decimal_bytes h)⟩
  split <;> decide

end Gateway
