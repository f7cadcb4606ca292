import CdfCrypto.Cryption.Hmac
import CdfCrypto.KeyManagement.Dispatch

/-!
# Codes, options and calls of the JWT server

The options are the caller's structures: a pointer is the memory behind it, or `none`
for a null pointer, and stands beside the length the caller gives for it.

A server asks its environment for the time, for memory, for a look at a path, and for
what the shared key manager does. The last is asked at the interface of the
key-management module: `init` and `unInit` of a borrowed manager, and the two
operations of a `KmCryptor` made for a type.
-/

namespace CdfCrypto.Jwt

open Lib KeyManagement

/-! ## Codes and constants -/

inductive JwtAuthRC
  | ok
  | error
  | newObjFail
  | notSupported
  | paramInvalid
  | base64EncodeFail
  | base64DecodeFail
  | hmacEncodeFail
  | opensslInitFail
  | tokenExpired
  | createTokenFail
  | tokenValidateFail
  | keyPassInvalid
  | keyManagerInitFail
  | encryptFail
  | decryptFail
  | eraseKeyFail
  | refreshKeyFail
  | setKeyFail
  | unknown
  deriving DecidableEq, Repr

/-- `unknown` stands for every value but the first two. -/
inductive JwtAuthMode
  | internalKey
  | externalKey
  | unknown
  deriving DecidableEq, Repr

def jwtExpireTimeMaxMinute : Int := 32767
def jwtSecondsPerMinute : Int := 60
def jwtMinutesPerHour : Int := 60
def jwtInputLengthMax : Nat := 1024 * 1024 * 100
def jwtKeyLengthMax : Nat := 1048576
def domainIdMax : Nat := 1023

/-- `JWT_DEFAULT_SYM_ENC_ALG` -/
def jwtDefaultSymEncAlg : CryptoSymAlg := .aes256Gcm

/-- `static_cast<uint32_t>` of a 16-bit value. -/
def int16ToU32 (n : Int16) : Nat := (n.toInt % 2 ^ 32).toNat

/-! ## Options -/

structure CDFDistAuthServerOptions where
  keyTransferMode : JwtAuthMode := .internalKey
  tokenExpireMinutes : Int16 := 480
  algType : CryptoHmacAlg := .hmacSha256
  keyManagerType : KeyManagerTy := .openbao
  serverKeyExpiredHours : Int16 := 24
  domainCount : Int16 := 2
  domainId : Int16 := 0
  execPath : Bytes := []
  accessToken : Bytes := []

structure CDFDistAuthCreateTokenOptions where
  key : Option Bytes := none
  keyLen : UInt32 := 0
  input : Option Bytes := none
  inputLen : UInt32 := 0
  token : Option Bytes := none
  tokenLen : UInt32 := 0

structure CDFDistAuthValidateTokenOptions where
  key : Option Bytes := none
  keyLen : UInt32 := 0
  token : Option Bytes := none
  tokenLen : UInt32 := 0

/-- `std::string{ptr, len}`: only a string of length 0 can be made from a null pointer. -/
def stringOf (ptr : Option Bytes) (len : UInt32) : Except Fault Bytes :=
  match ptr with
  | some buf => .ok (buf.take len.toNat)
  | none => if len = 0 then .ok [] else .error .undefined

/-! ## Calls -/

/-- What a server asks of its environment. -/
inductive JwtCall
  | clockGettime
  | newChars (len : Nat)
  | accessPath (path : Bytes)
  | init (km : Borrowed) (execPath accessToken : Bytes) (domainCount : Nat)
  | unInit (km : Borrowed)
  | encrypt (type : KeyManagerTy) (alg : CryptoSymAlg) (plaintext : Bytes) (domainId : Nat)
  | decrypt (type : KeyManagerTy) (alg : CryptoSymAlg) (ciphertext : Bytes) (domainId : Nat)

/-- `clockGettime` answers the seconds of the time; `newChars` whether there was memory;
`accessPath` whether `CanonicalPath` and `CheckUserAccess` allow the path. -/
abbrev JwtCall.Reply : JwtCall → Type
  | clockGettime => Int64
  | newChars _ => Bool
  | accessPath _ => Bool
  | init _ _ _ _ => Except StdException KeyManagerRC
  | unInit _ => KeyManagerRC
  | encrypt _ _ _ _ => CryptionRC × Bytes
  | decrypt _ _ _ _ => CryptionRC × Bytes

/-- A program of the JWT module. -/
abbrev Auth (α : Type) := Prog JwtCall JwtCall.Reply Fault α

/-- One call of the JWT module and its answer. -/
abbrev JwtEvent := Event JwtCall JwtCall.Reply

end CdfCrypto.Jwt
