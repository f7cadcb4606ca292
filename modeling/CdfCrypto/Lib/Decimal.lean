import Mathlib.Data.List.Basic
import Mathlib.Algebra.Group.Nat.Defs

/-!
# Decimal numerals over bytes

`decimal n` is the text a C++ stream or `std::to_string` writes for a natural
number, `ofDecimal` the value of a list of digits. Nothing here knows of the
program; the parsers of the model are proved against these two.

`decimal_eq` is the recursion both sides follow: the last digit is split off,
and `ofDecimal_append` adds it back.

`padded w n` is the numeral of a field of `w` digits, with the zeros in front that
the field asks for (`replicate_append_decimal`); a text of such fields is taken apart
by `padded_append_inj`.
-/

namespace CdfCrypto.Lib

/-- A decimal digit. -/
def isDigit (c : UInt8) : Bool := 48 ≤ c && c ≤ 57

/-- The value of a digit. -/
def digitValue (c : UInt8) : Nat := c.toNat - 48

/-- The digits of `n`, most significant first; `0` has one digit. -/
def decimal (n : Nat) : List UInt8 := (Nat.toDigits 10 n).map fun c => c.toNat.toUInt8

/-- The numeral of an integer, with a minus sign where it is negative. -/
def decimalInt (n : Int) : List UInt8 :=
  if n < 0 then 45 :: decimal n.natAbs else decimal n.natAbs

/-- The value of a list of digits. -/
def ofDecimal (ds : List UInt8) : Nat := ds.foldl (fun v c => v * 10 + digitValue c) 0

/-- The digit of a value below ten. -/
def digit (d : Nat) : UInt8 := (Nat.digitChar d).toNat.toUInt8

theorem digit_spec : ∀ d < 10, isDigit (digit d) = true ∧ digitValue (digit d) = d := by
  decide

theorem decimal_eq (n : Nat) :
    decimal n = if n < 10 then [digit n] else decimal (n / 10) ++ [digit (n % 10)] := by
  unfold decimal
  rw [Nat.toDigits_eq_if (by omega)]
  split
  · rfl
  · rw [List.map_append]
    rfl

theorem ofDecimal_append (ds : List UInt8) (c : UInt8) :
    ofDecimal (ds ++ [c]) = ofDecimal ds * 10 + digitValue c := by
  simp [ofDecimal]

/-- **A numeral denotes its number.** -/
@[simp] theorem ofDecimal_decimal (n : Nat) : ofDecimal (decimal n) = n := by
  induction n using Nat.strongRecOn with
  | _ n ih =>
    rw [decimal_eq]
    split
    · next h => simp [ofDecimal, (digit_spec n h).2]
    · next h =>
      rw [ofDecimal_append, ih (n / 10) (by omega), (digit_spec (n % 10) (by omega)).2]
      omega

theorem isDigit_of_mem_decimal {n : Nat} : ∀ {c : UInt8}, c ∈ decimal n → isDigit c = true := by
  induction n using Nat.strongRecOn with
  | _ n ih =>
    intro c hc
    rw [decimal_eq] at hc
    split at hc
    · next h =>
      obtain rfl := List.mem_singleton.mp hc
      exact (digit_spec n h).1
    · next h =>
      rcases List.mem_append.mp hc with hc | hc
      · exact ih (n / 10) (by omega) hc
      · obtain rfl := List.mem_singleton.mp hc
        exact (digit_spec (n % 10) (by omega)).1

/-- A number below a power of ten has at most that many digits. -/
theorem decimal_length_le : ∀ {k n : Nat}, n < 10 ^ (k + 1) → (decimal n).length ≤ k + 1
  | 0, n, h => by
    rw [decimal_eq, if_pos (by omega)]
    exact Nat.le_refl 1
  | k + 1, n, h => by
    rw [decimal_eq]
    split
    · exact Nat.le_add_left 1 _
    · have hlen := decimal_length_le (k := k) (n := n / 10) (by omega)
      rw [List.length_append]
      exact Nat.succ_le_succ hlen

theorem decimal_ne_nil (n : Nat) : decimal n ≠ [] := by
  rw [decimal_eq]
  split <;> simp

theorem decimal_injective {m n : Nat} (h : decimal m = decimal n) : m = n := by
  have := congrArg ofDecimal h
  simpa using this

/-! ## Fields of a fixed width -/

/-- The last `w` digits of a number, zeros in front of a short one. -/
def padded : Nat → Nat → List UInt8
  | 0, _ => []
  | w + 1, n => padded w (n / 10) ++ [digit (n % 10)]

@[simp] theorem padded_length : ∀ w n : Nat, (padded w n).length = w
  | 0, _ => rfl
  | w + 1, n => by rw [padded, List.length_append, padded_length w, List.length_singleton]

theorem isDigit_of_mem_padded : ∀ {w n : Nat} {c : UInt8}, c ∈ padded w n → isDigit c = true
  | w + 1, n, c, hc => by
    rcases List.mem_append.mp hc with hc | hc
    · exact isDigit_of_mem_padded hc
    · obtain rfl := List.mem_singleton.mp hc
      exact (digit_spec (n % 10) (by omega)).1

/-- **A field denotes its number**, as far as it is wide enough. -/
theorem ofDecimal_padded : ∀ {w n : Nat}, n < 10 ^ w → ofDecimal (padded w n) = n
  | 0, n, h => by
    obtain rfl : n = 0 := by omega
    rfl
  | w + 1, n, h => by
    have hhigh : n / 10 < 10 ^ w := by omega
    rw [padded, ofDecimal_append, ofDecimal_padded hhigh, (digit_spec (n % 10) (by omega)).2]
    omega

/-- The numeral with the zeros that fill the field. -/
theorem replicate_append_decimal : ∀ {w n : Nat}, n < 10 ^ (w + 1) →
    List.replicate (w + 1 - (decimal n).length) 48 ++ decimal n = padded (w + 1) n
  | 0, n, h => by
    rw [decimal_eq, if_pos (by omega), padded, Nat.mod_eq_of_lt (by omega)]
    rfl
  | w + 1, n, h => by
    have ih := replicate_append_decimal (w := w) (n := n / 10) (by omega)
    rw [padded, ← ih, decimal_eq]
    split
    next hlt =>
      have hzero : n / 10 = 0 := by omega
      have hone : (decimal 0).length = 1 := by decide
      rw [hzero, hone, Nat.mod_eq_of_lt hlt, List.length_singleton, Nat.add_sub_cancel,
        Nat.add_sub_cancel, List.replicate_succ']
      rfl
    next =>
      rw [List.length_append, List.length_singleton, Nat.add_sub_add_right, List.append_assoc]

/-- The numeral itself, where the number fills the field. -/
theorem decimal_eq_padded : ∀ {w n : Nat}, 10 ^ w ≤ n → n < 10 ^ (w + 1) →
    decimal n = padded (w + 1) n
  | 0, n, _, h => by
    rw [decimal_eq, if_pos (by omega), padded, Nat.mod_eq_of_lt (by omega)]
    rfl
  | w + 1, n, hle, hlt => by
    have hpos : 0 < 10 ^ w := Nat.pow_pos (by decide)
    have ih := decimal_eq_padded (w := w) (n := n / 10) (by omega) (by omega)
    rw [decimal_eq, if_neg (by omega), ih]
    rfl

/-- The field by its first digit. -/
theorem padded_cons : ∀ w n : Nat, padded (w + 1) n = digit (n / 10 ^ w % 10) :: padded w n
  | 0, n => by
    rw [Nat.pow_zero, Nat.div_one]
    rfl
  | w + 1, n => by
    have hdiv : n / 10 / 10 ^ w = n / 10 ^ (w + 1) := by
      rw [Nat.div_div_eq_div_mul, Nat.pow_succ']
    rw [padded, padded_cons w (n / 10), hdiv, padded, List.cons_append]

theorem padded_mod : ∀ w n : Nat, padded w (n % 10 ^ w) = padded w n
  | 0, _ => rfl
  | w + 1, n => by
    have hhigh : n % 10 ^ (w + 1) / 10 = n / 10 % 10 ^ w := by
      rw [Nat.pow_succ', Nat.mod_mul_right_div_self]
    have hlow : n % 10 ^ (w + 1) % 10 = n % 10 :=
      Nat.mod_mod_of_dvd n ⟨10 ^ w, Nat.pow_succ'⟩
    rw [padded, hhigh, hlow, padded_mod w]
    rfl

/-- A text that starts with a field has one reading. -/
theorem padded_append_inj {w m n : Nat} {r s : List UInt8} (hm : m < 10 ^ w) (hn : n < 10 ^ w)
    (h : padded w m ++ r = padded w n ++ s) : m = n ∧ r = s := by
  obtain ⟨hfield, hrest⟩ := List.append_inj h (by rw [padded_length, padded_length])
  have hvalue := congrArg ofDecimal hfield
  rw [ofDecimal_padded hm, ofDecimal_padded hn] at hvalue
  exact ⟨hvalue, hrest⟩

end CdfCrypto.Lib
