import CdfCrypto.Cryption.Define

/-!
# HMAC

`NativeHmac` checks its arguments and leaves the rest to OpenSSL's `HMAC`, which is
a function here: the digest of the key and the input, or `NULL`. A digest has the
length its algorithm is known to have.
-/

namespace CdfCrypto

/-- `unknown` stands for every value the enumeration does not name as well: nothing
tells it from them. -/
inductive CryptoHmacAlg
  | hmacSha256
  | hmacSha384
  | hmacSha512
  | unknown
  deriving DecidableEq, Repr

namespace CryptoHmacAlg

/-- `static_cast<int>(alg)` -/
def toNat : CryptoHmacAlg → Nat
  | hmacSha256 => 0
  | hmacSha384 => 1
  | hmacSha512 => 2
  | unknown => 3

/-- `CryptoHmacAlgCheck::IsValue` of a value of the enumeration. -/
def isValue (alg : CryptoHmacAlg) : Bool := alg ≠ .unknown

/-- `CryptoHmacAlgCheck::IsValue` of an `int`, with the cast where it is one. -/
def ofInt? (typeId : Int) : Option CryptoHmacAlg :=
  if typeId = 0 then some hmacSha256
  else if typeId = 1 then some hmacSha384
  else if typeId = 2 then some hmacSha512
  else none

theorem ofInt?_toNat {alg : CryptoHmacAlg} (h : alg.isValue = true) :
    ofInt? (Int.ofNat alg.toNat) = some alg := by
  cases alg with
  | unknown => exact absurd h (by decide)
  | _ => rfl

end CryptoHmacAlg

/-- `GetEstimateHmacOutLen` -/
def getEstimateHmacOutLen : CryptoHmacAlg → Nat
  | .hmacSha256 => 32
  | .hmacSha384 => 48
  | .hmacSha512 => 64
  | .unknown => 0

/-- `CheckKeyLen`: a key is at least as long as the digest. -/
def checkHmacKeyLen (hmacAlg : CryptoHmacAlg) (keyLen : Nat) : CryptionRC :=
  match hmacAlg with
  | .hmacSha256 => if keyLen < 32 then .invalidParam else .ok
  | .hmacSha384 => if keyLen < 48 then .invalidParam else .ok
  | .hmacSha512 => if keyLen < 64 then .invalidParam else .ok
  | .unknown => .invalidParam

/-- OpenSSL's `HMAC` over its three digests. -/
structure OpensslHmac where
  hmac : CryptoHmacAlg → Bytes → Bytes → Option Bytes
  length_eq : ∀ alg key input digest, hmac alg key input = some digest →
    digest.length = getEstimateHmacOutLen alg

/-- `NativeHmac`, with what stands in `outData` afterwards. The length of the key is
checked in 32 bits. -/
def nativeHmac (O : OpensslHmac) (hmacAlg : CryptoHmacAlg) (key input : Bytes) :
    CryptionRC × Bytes :=
  if key = [] ∨ input = [] then (.invalidParam, [])
  else if checkHmacKeyLen hmacAlg (key.length % 2 ^ 32) ≠ .ok then (.invalidParam, [])
  else if hmacAlg = .unknown then (.invalidParam, [])
  else
    match O.hmac hmacAlg key input with
    | none => (.error, [])
    | some digest => (.ok, digest)

/-- What a successful call has computed. -/
theorem nativeHmac_ok {O : OpensslHmac} {alg : CryptoHmacAlg} {key input digest : Bytes}
    (h : nativeHmac O alg key input = (.ok, digest)) :
    O.hmac alg key input = some digest ∧ digest.length = getEstimateHmacOutLen alg := by
  unfold nativeHmac at h
  split at h
  · cases h
  split at h
  · cases h
  split at h
  · cases h
  split at h
  next => cases h
  next heq =>
    cases h
    exact ⟨heq, O.length_eq alg key input _ heq⟩

end CdfCrypto
