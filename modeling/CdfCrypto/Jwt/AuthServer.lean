import CdfCrypto.Jwt.Token
import CdfCrypto.Utils.Base64

/-!
# `JwtAuthServer`

The server as the source has it: `Start` and `Stop` hold the one static mutex, so each is one
step; the others take no lock. `GetInfoByToken` and `CheckTokenExpiredTime` work on a header
nobody has signed yet, and their 64-bit products and differences are trapped where they
overflow.

`CreateToken` writes the token behind the caller's pointer and its length into the options;
`JwtAuthRC` and options come back together.
-/

namespace CdfCrypto.Jwt

open Lib KeyManagement

/-- `JwtAuthServer::Impl` -/
structure Impl where
  started : Bool := false
  options : CDFDistAuthServerOptions := {}
  tokenHeader : JwtTokenHeader := {}
  keyPass : JwtKeyPass := {}

/-! ## Text and arithmetic -/

/-- The separator of a token's pieces. -/
def jwtSepDot : Bytes := ascii "."

/-- `TryFixBase64`: the padding put back; empty where no padding helps. -/
def tryFixBase64 (input : Bytes) : Bytes :=
  match input.length % 4 with
  | 0 => input
  | 2 => input ++ ascii "=="
  | 3 => input ++ ascii "="
  | _ => []

/-- A signed 64-bit product, trapped where it overflows. -/
def mulInt64 (a b : Int) : Except Fault Int :=
  if -(2 ^ 63) ≤ a * b ∧ a * b < 2 ^ 63 then .ok (a * b) else .error .overflow

/-- A signed 64-bit difference, trapped where it overflows. -/
def subInt64 (a b : Int) : Except Fault Int :=
  if -(2 ^ 63) ≤ a - b ∧ a - b < 2 ^ 63 then .ok (a - b) else .error .overflow

/-- `StrUtils::Split(s, "=")[0]` -/
def unpadded (s : Bytes) : Except Fault Bytes :=
  match split s [base64Pad] with
  | [] => .error .undefined
  | piece :: _ => .ok piece

/-! ## Reading a token -/

/-- What the header of a token says. -/
structure TokenInfo where
  algType : CryptoHmacAlg
  expireTimeMinute : Int
  createTimeSec : Int
  deriving DecidableEq

/-- The second of the two pieces around a `:`. -/
def valueOf (field : Bytes) : Option Bytes :=
  match split field (ascii ":") with
  | [_, value] => some value
  | _ => none

/-- `GetAlgType` -/
def getAlgType (value : Bytes) : Option CryptoHmacAlg := (strToInt value).bind CryptoHmacAlg.ofInt?

/-- `GetInfoByToken`, `none` for `PARAM_INVALID`. -/
def getInfoByToken (headerStr : Bytes) : Option TokenInfo := do
  match split headerStr (ascii ";") with
  | [algStr, expireStr, createStr] =>
    let algType ← getAlgType (← valueOf algStr)
    let expireTimeMinute ← strToInt64 (← valueOf expireStr)
    let createTimeSec ← strToLong (← valueOf createStr)
    if jwtExpireTimeMaxMinute < expireTimeMinute then none
    else some { algType, expireTimeMinute, createTimeSec }
  | _ => none

/-- The last condition of `CheckTokenExpiredTime`, with the short circuits of its operators. -/
def TokenInfo.expiredAt (info : TokenInfo) (now : Int) : Except Fault Bool :=
  if jwtExpireTimeMaxMinute < info.expireTimeMinute then .ok true
  else if info.expireTimeMinute ≠ -1 ∧ info.createTimeSec ≤ now then do
    let age ← subInt64 now info.createTimeSec
    let limit ← mulInt64 info.expireTimeMinute jwtSecondsPerMinute
    return decide (limit < age)
  else .ok false

/-- `CheckTokenExpiredTime`, with the algorithm it reports. -/
def checkTokenExpiredTime (headerB64 : Bytes) : Auth (Except JwtAuthRC CryptoHmacAlg) :=
  let headerData := base64Decode (tryFixBase64 headerB64)
  if headerData = [] then .ret (.error .error)
  else
    match getInfoByToken headerData with
    | none => .ret (.error .paramInvalid)
    | some info => do
      let now ← .perform JwtCall.clockGettime
      let expired ← .ofExcept (info.expiredAt now.toInt)
      .ret (if expired then .error .tokenExpired else .ok info.algType)

/-! ## Signatures -/

/-- `CalSignB64`. A key of length 0 is refused before anything is computed. -/
@[irreducible] def calSignB64 (O : OpensslHmac) (algType : CryptoHmacAlg) (totalB64 key : Bytes) :
    Except Fault (Except JwtAuthRC Bytes) :=
  if key = [] then .ok (.error .keyPassInvalid)
  else
    let result := nativeHmac O algType key totalB64
    if result.1 ≠ .ok then .ok (.error .hmacEncodeFail)
    else
      let hmacB64 := base64Encode result.2
      if hmacB64 = [] then .ok (.error .base64EncodeFail)
      else do
        let signB64 ← unpadded hmacB64
        return .ok signB64

namespace Impl

/-- `CheckCalculateSignature`: the signature under a key the manager has encrypted. What
the manager decrypts is at most 2 MiB, so its size fits the 32-bit parameter it is passed
through. -/
def checkCalculateSignature (O : OpensslHmac) (s : Impl) (algType : CryptoHmacAlg)
    (key totalB64 : Bytes) : Auth (Except JwtAuthRC Bytes) :=
  if key = [] then .ret (.error .keyPassInvalid)
  else do
    let result ← .perform (JwtCall.decrypt s.options.keyManagerType jwtDefaultSymEncAlg key
      (int16ToU32 s.options.domainId))
    if result.1 ≠ .ok then .ret (.error .decryptFail)
    else .ofExcept (calSignB64 O algType totalB64 result.2)

/-! ## Life cycle -/

/-- `ValidateOptions`, which stores the options it accepts. -/
def validateOptions (s : Impl) (opt : CDFDistAuthServerOptions) : Auth (JwtAuthRC × Impl) :=
  if ¬ opt.algType.isValue then .ret (.paramInvalid, s)
  else if opt.keyTransferMode = .externalKey then .ret (.ok, { s with options := opt })
  else if domainIdMax < int16ToU32 opt.domainCount ∨ opt.domainId.toInt < 0 ∨
      opt.domainCount.toInt ≤ opt.domainId.toInt then .ret (.paramInvalid, s)
  else if opt.tokenExpireMinutes.toInt < -1 ∨
      jwtExpireTimeMaxMinute < opt.tokenExpireMinutes.toInt then .ret (.paramInvalid, s)
  else if opt.serverKeyExpiredHours.toInt < -1 ∨
      jwtExpireTimeMaxMinute < jwtMinutesPerHour * opt.serverKeyExpiredHours.toInt then
    .ret (.paramInvalid, s)
  else do
    let accessible ← .perform (JwtCall.accessPath opt.execPath)
    if ¬ accessible then .ret (.paramInvalid, s)
    else if opt.accessToken = [] then .ret (.paramInvalid, s)
    else .ret (.ok, { s with options := opt })

/-- `Start`; the exception is the one `Init` throws. -/
def start (s : Impl) (opt : CDFDistAuthServerOptions) :
    Auth (Except StdException JwtAuthRC × Impl) :=
  if s.started then .ret (.ok .ok, s)
  else if opt.keyTransferMode ≠ .internalKey ∧ opt.keyTransferMode ≠ .externalKey then
    .ret (.ok .paramInvalid, s)
  else do
    let validated ← s.validateOptions opt
    if validated.1 ≠ .ok then .ret (.ok validated.1, validated.2)
    else
      let s := validated.2
      do
        let tokenHeader ← JwtTokenHeader.make s.options.algType s.options.tokenExpireMinutes
        let s := { s with tokenHeader }
        if s.options.keyTransferMode = .internalKey then
          match borrow s.options.keyManagerType with
          | none => .ret (.ok .error, s)
          | some km => do
            let rc ← .perform (JwtCall.init km s.options.execPath s.options.accessToken
              (int16ToU32 s.options.domainCount))
            match rc with
            | .error e => .ret (.error e, s)
            | .ok rc =>
              if rc ≠ .ok then .ret (.ok .keyManagerInitFail, s)
              else .ret (.ok .ok, { s with
                keyPass := .ofHours s.options.serverKeyExpiredHours.toInt64.toUInt64,
                started := true })
        else .ret (.ok .ok, { s with started := true })

/-- `Stop` -/
def stop (s : Impl) : Auth (JwtAuthRC × Impl) :=
  if ¬ s.started then .ret (.ok, s)
  else
    let s := { s with started := false }
    if s.options.keyTransferMode = .internalKey then
      match borrow s.options.keyManagerType with
      | none => .ret (.error, s)
      | some km => do
        let _ ← .perform (JwtCall.unInit km)
        .ret (.ok, s)
    else .ret (.ok, s)

/-! ## Keys -/

/-- `CheckKeyLen` -/
def checkKeyLen (s : Impl) (keyLen : UInt32) : JwtAuthRC :=
  match s.options.algType with
  | .hmacSha256 => if keyLen < 32 then .paramInvalid else .ok
  | .hmacSha384 => if keyLen < 48 then .paramInvalid else .ok
  | .hmacSha512 => if keyLen < 64 then .paramInvalid else .ok
  | .unknown => .paramInvalid

/-- What both operations on the key check first; they differ in the code for another mode. -/
def checkNewKey (s : Impl) (otherMode : JwtAuthRC) (newKey : Option Bytes) (keyLen : UInt32) :
    JwtAuthRC :=
  if ¬ s.started then .error
  else if s.options.keyTransferMode ≠ .internalKey then otherMode
  else if newKey = none ∨ keyLen = 0 then .paramInvalid
  else if jwtKeyLengthMax ≤ keyLen.toNat then .paramInvalid
  else if s.checkKeyLen keyLen ≠ .ok then .paramInvalid
  else .ok

/-- `RefreshEncryptionKey` -/
def refreshEncryptionKey (s : Impl) (newKey : Option Bytes) (keyLen : UInt32) :
    Auth (JwtAuthRC × Impl) :=
  let checked := s.checkNewKey .paramInvalid newKey keyLen
  if checked ≠ .ok then .ret (checked, s)
  else do
    let result ← s.keyPass.refreshKey newKey keyLen s.options.keyManagerType
      (int16ToU32 s.options.domainId) jwtDefaultSymEncAlg
    .ret (result.1, { s with keyPass := result.2 })

/-- `SetEncryptionKey`: a key with a NUL in it is refused, here only. -/
def setEncryptionKey (s : Impl) (newKey : Option Bytes) (keyLen : UInt32) :
    Auth (JwtAuthRC × Impl) :=
  let checked := s.checkNewKey .notSupported newKey keyLen
  if checked ≠ .ok then .ret (checked, s)
  else if strnlen (newKey.getD []) keyLen.toNat ≠ keyLen.toNat then .ret (.paramInvalid, s)
  else do
    let result ← s.keyPass.setKey newKey keyLen s.options.keyManagerType
      (int16ToU32 s.options.domainId) jwtDefaultSymEncAlg
    .ret (result.1, { s with keyPass := result.2 })

/-! ## Creating a token -/

/-- `Base64EncodeLen`, whose result has 32 bits. -/
def base64EncodeLen (dataLen : Nat) : Nat := ((dataLen + 2) / 3 * 4 + 1) % 2 ^ 32

/-- `EstimateTokenLength`; the sum has 32 bits. -/
def estimateTokenLength (s : Impl) (inputLen : UInt32) : JwtAuthRC × UInt32 :=
  if jwtInputLengthMax < inputLen.toNat then (.paramInvalid, 0)
  else
    let outLen := getEstimateHmacOutLen s.tokenHeader.alg
    if outLen = 0 then (.paramInvalid, 0)
    else (.ok, UInt32.ofNat (base64EncodeLen s.tokenHeader.text.length +
      base64EncodeLen inputLen.toNat + base64EncodeLen outLen + 2))

/-- `CheckCreateTokenParams` -/
def checkCreateTokenParams (s : Impl) (opt : CDFDistAuthCreateTokenOptions) : JwtAuthRC :=
  if ¬ s.started then .error
  else if opt.input = none ∨ opt.inputLen = 0 ∨ opt.token = none ∨ opt.tokenLen = 0 then
    .paramInvalid
  else if strnlen (opt.input.getD []) opt.inputLen.toNat ≠ opt.inputLen.toNat - 1 then
    .paramInvalid
  else if jwtInputLengthMax < opt.inputLen.toNat then .paramInvalid
  else .ok

/-- `CreateTokenFromExternalKey`: the token, without a terminator. -/
@[irreducible] def createTokenFromExternalKey (O : OpensslHmac) (s : Impl) (key input : Bytes) :
    Except Fault (Except JwtAuthRC Bytes) :=
  let headerB64 := base64Encode s.tokenHeader.text
  if headerB64 = [] then .ok (.error .base64EncodeFail)
  else do
    let headerB64Str ← unpadded headerB64
    let totalB64Str := headerB64Str ++ jwtSepDot ++ base64Encode input
    match ← calSignB64 O s.tokenHeader.alg totalB64Str key with
    | .error rc => return .error rc
    | .ok signB64 => return .ok (totalB64Str ++ jwtSepDot ++ signB64)

/-- A key is null or expired: one that is not there is not asked for its age. -/
def nullOrExpired (key : Bytes) (isExpired : Auth Bool) : Auth Bool :=
  if key = [] then .ret true else isExpired

/-- `CreateTokenFromInternalKey` -/
def createTokenFromInternalKey (O : OpensslHmac) (s : Impl) (input : Bytes) :
    Auth (Except JwtAuthRC Bytes) := do
  let key ← .ofExcept s.keyPass.getKey
  let invalid ← nullOrExpired key s.keyPass.isExpired
  if invalid then .ret (.error .keyPassInvalid)
  else do
    let result ← .perform (JwtCall.decrypt s.options.keyManagerType jwtDefaultSymEncAlg key
      (int16ToU32 s.options.domainId))
    if result.1 ≠ .ok then .ret (.error .decryptFail)
    else do
      let created ← .ofExcept (s.createTokenFromExternalKey O result.2 input)
      .ret (created.mapError fun _ => .createTokenFail)

/-- What `CreateToken` does for its mode. -/
def createInnerToken (O : OpensslHmac) (s : Impl) (opt : CDFDistAuthCreateTokenOptions) :
    Auth (Except JwtAuthRC Bytes) :=
  let input := (opt.input.getD []).take opt.inputLen.toNat
  match s.options.keyTransferMode with
  | .internalKey => s.createTokenFromInternalKey O input
  | .externalKey =>
    match opt.key with
    | none => .ret (.error .keyPassInvalid)
    | some key =>
      if opt.keyLen = 0 then .ret (.error .keyPassInvalid)
      else if strnlen key opt.keyLen.toNat ≠ opt.keyLen.toNat - 1 then .ret (.error .paramInvalid)
      else do
        let created ← .ofExcept (s.createTokenFromExternalKey O (key.take opt.keyLen.toNat) input)
        .ret (created.mapError fun _ => .createTokenFail)
  | .unknown => .ret (.error .paramInvalid)

/-- `CreateToken` -/
def createToken (O : OpensslHmac) (s : Impl) (opt : CDFDistAuthCreateTokenOptions) :
    Auth (JwtAuthRC × CDFDistAuthCreateTokenOptions) :=
  let checked := s.checkCreateTokenParams opt
  if checked ≠ .ok then .ret (checked, opt)
  else do
    match ← s.createInnerToken O opt with
    | .error rc => .ret (rc, opt)
    | .ok inner =>
      let innerToken := inner ++ [0]
      if opt.tokenLen.toNat < innerToken.length then .ret (.createTokenFail, opt)
      else
        let tokenLen := UInt32.ofNat (innerToken.length - 1)
        if ¬ memcpyS (tokenLen.toNat + 1) innerToken.length then
          .ret (.error, { opt with tokenLen })
        else .ret (.ok, { opt with
          tokenLen, token := opt.token.map fun buf => writeAt buf 0 innerToken })

/-! ## Validating a token -/

/-- `CheckValidateTokenParams` -/
def checkValidateTokenParams (s : Impl) (opt : CDFDistAuthValidateTokenOptions) : JwtAuthRC :=
  if ¬ s.started then .error
  else if opt.token = none ∨ opt.tokenLen = 0 then .paramInvalid
  else if strnlen (opt.token.getD []) opt.tokenLen.toNat ≠ opt.tokenLen.toNat - 1 then
    .paramInvalid
  else if jwtInputLengthMax < opt.tokenLen.toNat then .paramInvalid
  else .ok

/-- The guard of `ValidateTokenFromInternalKey`. The old key is looked at only where the
present one is of no use. -/
def bothNullOrExpired (s : Impl) (key : Bytes) : Auth Bool := do
  let keyInvalid ← nullOrExpired key s.keyPass.isExpired
  if ¬ keyInvalid then .ret false
  else do
    let oldKey ← .ofExcept s.keyPass.getOldKey
    nullOrExpired oldKey s.keyPass.isOldKeyExpired

/-- `ValidateTokenFromInternalKey`: the signature computed last. -/
def validateTokenFromInternalKey (O : OpensslHmac) (s : Impl) (algType : CryptoHmacAlg)
    (sign totalB64 : Bytes) : Auth (Except JwtAuthRC Bytes) := do
  let key ← .ofExcept s.keyPass.getKey
  let invalid ← s.bothNullOrExpired key
  if invalid then .ret (.error .keyPassInvalid)
  else do
    match ← s.checkCalculateSignature O algType key totalB64 with
    | .error rc => .ret (.error rc)
    | .ok signB64 =>
      if signB64 = sign then .ret (.ok signB64)
      else do
        let oldKey ← .ofExcept s.keyPass.getOldKey
        let oldInvalid ← nullOrExpired oldKey s.keyPass.isOldKeyExpired
        if oldInvalid then .ret (.error .tokenValidateFail)
        else do
          match ← s.checkCalculateSignature O algType oldKey totalB64 with
          | .error rc => .ret (.error rc)
          | .ok signB64 =>
            if signB64 ≠ sign then .ret (.error .tokenValidateFail) else .ret (.ok signB64)

/-- The signature `ValidateToken` compares with, for its mode. -/
def expectedSignature (O : OpensslHmac) (s : Impl) (opt : CDFDistAuthValidateTokenOptions)
    (algType : CryptoHmacAlg) (sign totalB64 : Bytes) : Auth (Except JwtAuthRC Bytes) :=
  if s.options.keyTransferMode = .internalKey then
    s.validateTokenFromInternalKey O algType sign totalB64
  else
    match opt.key with
    | none => .ret (.error .keyPassInvalid)
    | some key =>
      if opt.keyLen = 0 then .ret (.error .keyPassInvalid)
      else if strnlen key opt.keyLen.toNat ≠ opt.keyLen.toNat - 1 then .ret (.error .paramInvalid)
      else .ofExcept (calSignB64 O algType totalB64 (key.take opt.keyLen.toNat))

/-- `ValidateToken` -/
def validateToken (O : OpensslHmac) (s : Impl) (opt : CDFDistAuthValidateTokenOptions) :
    Auth JwtAuthRC :=
  let checked := s.checkValidateTokenParams opt
  if checked ≠ .ok then .ret checked
  else
    match split (cstr (opt.token.getD [])) jwtSepDot with
    | [header, payload, sign] => do
      match ← checkTokenExpiredTime header with
      | .error rc => .ret rc
      | .ok algType => do
        match ← s.expectedSignature O opt algType sign (header ++ jwtSepDot ++ payload) with
        | .error rc => .ret rc
        | .ok signB64 => .ret (if signB64 ≠ sign then .tokenValidateFail else .ok)
    | _ => .ret .paramInvalid

/-! ## Operations -/

end Impl

/-- A call of the server's interface. -/
inductive ServerOp
  | start (opt : CDFDistAuthServerOptions)
  | stop
  | refreshEncryptionKey (newKey : Option Bytes) (keyLen : UInt32)
  | setEncryptionKey (newKey : Option Bytes) (keyLen : UInt32)
  | estimateTokenLength (inputLen : UInt32)
  | createToken (opt : CDFDistAuthCreateTokenOptions)
  | validateToken (opt : CDFDistAuthValidateTokenOptions)

/-- What a call returns, and what it leaves in the caller's variables. -/
inductive ServerAnswer
  | thrown (e : StdException)
  | code (rc : JwtAuthRC)
  | length (rc : JwtAuthRC) (outputLen : UInt32)
  | token (rc : JwtAuthRC) (opt : CDFDistAuthCreateTokenOptions)

/-- One call on a server. -/
def ServerOp.prog (O : OpensslHmac) (s : Impl) : ServerOp → Auth (ServerAnswer × Impl)
  | start opt => do
    let result ← s.start opt
    match result.1 with
    | .error e => .ret (.thrown e, result.2)
    | .ok rc => .ret (.code rc, result.2)
  | stop => do
    let result ← s.stop
    .ret (.code result.1, result.2)
  | refreshEncryptionKey newKey keyLen => do
    let result ← s.refreshEncryptionKey newKey keyLen
    .ret (.code result.1, result.2)
  | setEncryptionKey newKey keyLen => do
    let result ← s.setEncryptionKey newKey keyLen
    .ret (.code result.1, result.2)
  | estimateTokenLength inputLen =>
    .ret (.length (s.estimateTokenLength inputLen).1 (s.estimateTokenLength inputLen).2, s)
  | createToken opt => do
    let result ← s.createToken O opt
    .ret (.token result.1 result.2, s)
  | validateToken opt => do
    let rc ← s.validateToken O opt
    .ret (.code rc, s)

end CdfCrypto.Jwt
