import CdfCrypto.Utils.Bytes

/-!
# Codes and algorithms of the cryption module

The result codes and the symmetric suites. The enumeration's underlying type is
an `int`, and the ciphertext header reader casts an unchecked byte to it, so a
suite can also hold a value that no enumerator has: `CryptoSymAlg.other`, which
carries the proof that the value is none of theirs.
-/

namespace CdfCrypto

inductive CryptionRC
  | ok
  | error
  | invalidParam
  | keyExpired
  | uninited
  | initFailed
  | domainCountInvalid
  | keyActiveFailed
  deriving DecidableEq, Repr

inductive CryptoSymAlg
  | aes128Gcm
  | aes256Gcm
  | sm4Ctr
  | aes128Ccm
  | chacha20Poly1305
  | unknown
  | other (value : Nat) (named : 5 < value)
  deriving DecidableEq

namespace CryptoSymAlg

/-- `static_cast<CryptoSymAlg>(value)`. -/
def ofNat : Nat → CryptoSymAlg
  | 0 => aes128Gcm
  | 1 => aes256Gcm
  | 2 => sm4Ctr
  | 3 => aes128Ccm
  | 4 => chacha20Poly1305
  | 5 => unknown
  | n + 6 => other (n + 6) (by omega)

/-- `static_cast<int>(alg)`. -/
def toNat : CryptoSymAlg → Nat
  | aes128Gcm => 0
  | aes256Gcm => 1
  | sm4Ctr => 2
  | aes128Ccm => 3
  | chacha20Poly1305 => 4
  | unknown => 5
  | other n _ => n

/-- Every suite is the cast of its own number. -/
@[simp] theorem ofNat_toNat (alg : CryptoSymAlg) : ofNat alg.toNat = alg := by
  cases alg with
  | other n h =>
    obtain ⟨m, rfl⟩ : ∃ m, n = m + 6 := ⟨n - 6, by omega⟩
    rfl
  | _ => rfl

end CryptoSymAlg

end CdfCrypto
