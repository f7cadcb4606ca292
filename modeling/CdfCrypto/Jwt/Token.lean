import CdfCrypto.Jwt.Define

/-!
# The header of a token and the keys of a server

A header is stamped with the time at which it is made. The keys are kept as the key
manager's ciphertexts, with the time each was set: a pointer and a length, which an
allocation or a copy that fails leaves at odds (`stringOf` is then without meaning).
-/

namespace CdfCrypto.Jwt

open Lib KeyManagement

/-! ## The header -/

structure JwtTokenHeader where
  alg : CryptoHmacAlg := .hmacSha256
  expireTimeMinute : Int16 := 0
  createTimeSec : UInt64 := 0

namespace JwtTokenHeader

/-- The constructor, which takes the time. -/
def make (algType : CryptoHmacAlg) (expireTime : Int16) : Auth JwtTokenHeader := do
  let now ← .perform JwtCall.clockGettime
  .ret { alg := algType, expireTimeMinute := expireTime, createTimeSec := now.toUInt64 }

/-- `ToString` -/
def text (h : JwtTokenHeader) : Bytes :=
  ascii "alg: " ++ decimal h.alg.toNat ++ ascii "; expireTime: " ++
    decimalInt h.expireTimeMinute.toInt ++ ascii "; createTime:" ++
    decimal h.createTimeSec.toNat ++ ascii ";"

end JwtTokenHeader

/-! ## The keys -/

def defaultServerExpireHours : UInt64 := 24
def maxAllowedExpireHours : UInt64 := 65535
def secondsPerHour : UInt64 := 3600

structure JwtKeyPass where
  key : Option Bytes := none
  keyLen : UInt32 := 0
  oldKey : Option Bytes := none
  oldKeyLen : UInt32 := 0
  serverKeyExpiredHours : UInt64 := defaultServerExpireHours
  newKeyCreateTimeSec : UInt64 := 0
  oldKeyCreateTimeSec : UInt64 := 0

namespace JwtKeyPass

/-- The constructor from a number of hours. -/
def ofHours (expireHours : UInt64) : JwtKeyPass :=
  { serverKeyExpiredHours :=
      if maxAllowedExpireHours < expireHours then defaultServerExpireHours else expireHours }

def getKey (k : JwtKeyPass) : Except Fault Bytes := stringOf k.key k.keyLen

def getOldKey (k : JwtKeyPass) : Except Fault Bytes := stringOf k.oldKey k.oldKeyLen

/-- The comparison of `IsExpired` and `IsOldKeyExpired`, in unsigned 64-bit arithmetic. -/
def expiredAt (k : JwtKeyPass) (createTimeSec : UInt64) (now : Int64) : Bool :=
  createTimeSec + k.serverKeyExpiredHours * secondsPerHour < now.toUInt64

def isExpired (k : JwtKeyPass) : Auth Bool := do
  let now ← .perform JwtCall.clockGettime
  .ret (k.expiredAt k.newKeyCreateTimeSec now)

def isOldKeyExpired (k : JwtKeyPass) : Auth Bool := do
  let now ← .perform JwtCall.clockGettime
  .ret (k.expiredAt k.oldKeyCreateTimeSec now)

/-- `memcpy_s` from a buffer of which `count` bytes are asked for; a null source is refused. -/
def copyFrom (dest : UInt32) (src : Option Bytes) (count : Nat) : Option Bytes :=
  match src with
  | none => none
  | some buf => if memcpyS dest.toNat count then some (buf.take count) else none

/-- `SetKey` -/
def setKey (k : JwtKeyPass) (key : Option Bytes) (len : UInt32) (type : KeyManagerTy)
    (domainId : Nat) (alg : CryptoSymAlg) : Auth (JwtAuthRC × JwtKeyPass) :=
  match key with
  | none => .ret (.paramInvalid, k)
  | some buf =>
    if len = 0 then .ret (.paramInvalid, k)
    else do
      let now ← .perform JwtCall.clockGettime
      let result ← .perform (JwtCall.encrypt type alg (buf.take len.toNat) domainId)
      if result.1 ≠ .ok then .ret (.encryptFail, k)
      else
        let cipher := result.2
        let keyLen := cipher.length.toUInt32
        -- the buffer of the key is gone and its length replaced before the new one is there
        let k := { k with key := none, keyLen }
        do
          let allocated ← .perform (JwtCall.newChars keyLen.toNat)
          if ¬ allocated then .ret (.newObjFail, k)
          else
            match copyFrom keyLen (some cipher) cipher.length with
            | none => .ret (.setKeyFail, k)
            | some buf =>
              .ret (.ok, { k with key := some buf, newKeyCreateTimeSec := now.toUInt64 })

/-- `RefreshKey` -/
def refreshKey (k : JwtKeyPass) (key : Option Bytes) (len : UInt32) (type : KeyManagerTy)
    (domainId : Nat) (alg : CryptoSymAlg) : Auth (JwtAuthRC × JwtKeyPass) :=
  if key = none ∨ len = 0 then .ret (.paramInvalid, k)
  else
    let k := { k with oldKey := none, oldKeyLen := k.keyLen }
    do
      let allocated ← .perform (JwtCall.newChars k.oldKeyLen.toNat)
      if ¬ allocated then .ret (.newObjFail, k)
      else
        match copyFrom k.oldKeyLen k.key k.keyLen.toNat with
        | none => .ret (.refreshKeyFail, k)
        | some buf => do
          let set ← { k with oldKey := some buf, oldKeyCreateTimeSec := k.newKeyCreateTimeSec }.setKey
            key len type domainId alg
          .ret (if set.1 ≠ .ok then .refreshKeyFail else .ok, set.2)

end JwtKeyPass

end CdfCrypto.Jwt
