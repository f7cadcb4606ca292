import Mathlib.Data.Nat.ModEq

/-!
# Numbers in big-endian bytes

`ofBytes` reads a number from any bytes, the first of them the most significant; `toBytes k`
writes its last `k` digits. Both go from the last byte up, so the round trip is one induction
on `k`. Code that writes a number of 32 bits by shifts and masks writes the same digits.
-/

namespace CdfCrypto.Lib.BigEndian

/-- The number the bytes stand for. -/
def ofBytes (bytes : List UInt8) : Nat := bytes.foldl (fun n b => n * 256 + b.toNat) 0

/-- The last `k` digits of a number. -/
def toBytes : Nat → Nat → List UInt8
  | 0, _ => []
  | k + 1, n => toBytes k (n / 256) ++ [n.toUInt8]

@[simp] theorem ofBytes_append (bytes : List UInt8) (b : UInt8) :
    ofBytes (bytes ++ [b]) = ofBytes bytes * 256 + b.toNat := by
  unfold ofBytes
  rw [List.foldl_append]
  rfl

@[simp] theorem toBytes_length (k n : Nat) : (toBytes k n).length = k := by
  induction k generalizing n with
  | zero => rfl
  | succ k ih => rw [toBytes, List.length_append, ih, List.length_singleton]

/-- **Round trip**, up to the digits that are left out. -/
theorem ofBytes_toBytes (k n : Nat) : ofBytes (toBytes k n) = n % 256 ^ k := by
  induction k generalizing n with
  | zero => exact (Nat.mod_one n).symm
  | succ k ih =>
    have hdigit : n.toUInt8.toNat = n % 256 := rfl
    rw [toBytes, ofBytes_append, ih, hdigit, Nat.pow_succ, Nat.mul_comm (256 ^ k), Nat.mod_mul]
    omega

/-! ## Digits by shifts -/

theorem toNat_toUInt8_and_ff (n : UInt32) : (n &&& 0xff).toUInt8.toNat = n.toNat % 256 := by
  rw [UInt32.toNat_toUInt8, UInt32.toNat_and]
  show (n.toNat &&& 2 ^ 8 - 1) % 2 ^ 8 = _
  rw [Nat.and_two_pow_sub_one_eq_mod, Nat.mod_mod]

/-- A digit written by a shift. -/
theorem toNat_shiftRight_and_ff (n k : UInt32) (hk : k.toNat < 32) :
    (n >>> k &&& 0xff).toUInt8.toNat = n.toNat / 2 ^ k.toNat % 256 := by
  rw [toNat_toUInt8_and_ff, UInt32.toNat_shiftRight, Nat.mod_eq_of_lt hk,
    Nat.shiftRight_eq_div_pow]

/-- A digit read by a shift. -/
theorem toNat_toUInt32_shiftLeft (b : UInt8) (k : UInt32) (hk : k.toNat ≤ 24) :
    (b.toUInt32 <<< k).toNat = b.toNat * 2 ^ k.toNat := by
  have hb := b.toNat_lt
  have hpow : 2 ^ k.toNat ≤ 2 ^ 24 := Nat.pow_le_pow_right (by decide) hk
  have hlt : b.toNat * 2 ^ k.toNat < 2 ^ 32 :=
    Nat.lt_of_lt_of_le (Nat.mul_lt_mul_of_pos_right hb (Nat.two_pow_pos _))
      (Nat.mul_le_mul_left (2 ^ 8) hpow)
  rw [UInt32.toNat_shiftLeft, UInt8.toNat_toUInt32, Nat.mod_eq_of_lt (by omega : k.toNat < 32),
    Nat.shiftLeft_eq, Nat.mod_eq_of_lt hlt]

/-- Bits that do not meet are added. -/
theorem or_eq_add {m n : Nat} (k : Nat) (hm : 2 ^ k ∣ m) (hn : n < 2 ^ k) : m ||| n = m + n := by
  obtain ⟨a, rfl⟩ := hm
  rw [Nat.mul_comm, ← Nat.shiftLeft_eq, Nat.shiftLeft_add_eq_or_of_lt hn]

theorem toNat_be16 (b₁ b₀ : UInt8) :
    (b₁.toUInt32 <<< 8 ||| b₀.toUInt32).toNat = b₁.toNat * 2 ^ 8 + b₀.toNat := by
  have h₀ := b₀.toNat_lt
  have h₁ : _ = b₁.toNat * 2 ^ 8 := toNat_toUInt32_shiftLeft b₁ 8 (by decide)
  rw [UInt32.toNat_or, h₁, UInt8.toNat_toUInt32, or_eq_add 8 (Nat.dvd_mul_left _ _) h₀]

theorem toNat_be32 (b₃ b₂ b₁ b₀ : UInt8) :
    (b₃.toUInt32 <<< 24 ||| b₂.toUInt32 <<< 16 ||| b₁.toUInt32 <<< 8 ||| b₀.toUInt32).toNat =
      b₃.toNat * 2 ^ 24 + b₂.toNat * 2 ^ 16 + b₁.toNat * 2 ^ 8 + b₀.toNat := by
  have hlt₂ := b₂.toNat_lt
  have hlt₁ := b₁.toNat_lt
  have hlt₀ := b₀.toNat_lt
  have h₃ : _ = b₃.toNat * 2 ^ 24 := toNat_toUInt32_shiftLeft b₃ 24 (by decide)
  have h₂ : _ = b₂.toNat * 2 ^ 16 := toNat_toUInt32_shiftLeft b₂ 16 (by decide)
  have h₁ : _ = b₁.toNat * 2 ^ 8 := toNat_toUInt32_shiftLeft b₁ 8 (by decide)
  -- from the highest digit down, each ends where the next begins
  have hfirst : b₃.toNat * 2 ^ 24 ||| b₂.toNat * 2 ^ 16 = b₃.toNat * 2 ^ 24 + b₂.toNat * 2 ^ 16 :=
    or_eq_add 24 (Nat.dvd_mul_left _ _) (by omega)
  rw [UInt32.toNat_or, UInt32.toNat_or, UInt32.toNat_or, h₃, h₂, h₁, UInt8.toNat_toUInt32, hfirst,
    @or_eq_add _ (b₁.toNat * 2 ^ 8) 16 (by omega) (by omega),
    @or_eq_add _ b₀.toNat 8 (by omega) (by omega)]

/-- The iteration count is found again. -/
theorem be32_shifts (n : UInt32) :
    (n >>> 24 &&& 0xff).toUInt8.toUInt32 <<< 24 ||| (n >>> 16 &&& 0xff).toUInt8.toUInt32 <<< 16 |||
      (n >>> 8 &&& 0xff).toUInt8.toUInt32 <<< 8 ||| (n &&& 0xff).toUInt8.toUInt32 = n := by
  have hlt := n.toNat_lt
  have h₃ : _ = n.toNat / 2 ^ 24 % 256 := toNat_shiftRight_and_ff n 24 (by decide)
  have h₂ : _ = n.toNat / 2 ^ 16 % 256 := toNat_shiftRight_and_ff n 16 (by decide)
  have h₁ : _ = n.toNat / 2 ^ 8 % 256 := toNat_shiftRight_and_ff n 8 (by decide)
  apply UInt32.toNat_inj.mp
  rw [toNat_be32, h₃, h₂, h₁, toNat_toUInt8_and_ff]
  omega

/-- An output length of 16 bits is found again. -/
theorem be16_shifts {n : UInt32} (h : n.toNat < 2 ^ 16) :
    (n >>> 8 &&& 0xff).toUInt8.toUInt32 <<< 8 ||| (n &&& 0xff).toUInt8.toUInt32 = n := by
  have h₁ : _ = n.toNat / 2 ^ 8 % 256 := toNat_shiftRight_and_ff n 8 (by decide)
  apply UInt32.toNat_inj.mp
  rw [toNat_be16, h₁, toNat_toUInt8_and_ff]
  omega

end CdfCrypto.Lib.BigEndian
