import Std.Data.ExtTreeMap
import CdfCrypto.KeyManagement.OpenbaoUtils
import CdfCrypto.Utils.Base64

/-!
# `OpenbaoKeyManager`

The manager keeps the domains and key ids of the vault with their creation
times; the keys themselves stay in the vault and are exported for each use. An
operation is a program over the calls of `OpenbaoUtils` that takes the manager
and returns its answer with the manager it leaves, so the locks it takes, the
commands it runs and what it does with each outcome are one definition.

`operator[]` on a map inserts what it does not find: `GenerateKeyId` and
`GetLatestKey` leave an empty inner map behind for a domain without keys.
`DeleteAllKey` goes on with a stale iterator after a delete that fails, which
has no meaning (`Fault.undefined`).

Key ids and domain ids are 32-bit numbers in the source, so no map holds `2^32`
of them; creation times are signed 64-bit.
-/

namespace CdfCrypto.KeyManagement

open Lib

def domainIdMax : Nat := 1023
def maxKeyCount : Nat := 1023
def domainIdMin : Nat := 2
def dayToTime : Nat := 24 * 60 * 60
def openbaoMaxMasterKeyValidTimeInDays : Nat := 5 * 365
def openbaoMaxMasterKeyValidTime : Nat := openbaoMaxMasterKeyValidTimeInDays * dayToTime

def maxIndex : Nat := 6

/-- The keys of one domain, by id, with their creation times. -/
abbrev KeyMap := Std.ExtTreeMap Nat Int compare

abbrev DomainKeyMap := Std.ExtTreeMap Nat KeyMap compare

/-- `domainCount_`, which only `Init` sets, after its range check. -/
abbrev DomainCount := { n : Nat // domainIdMin ≤ n ∧ n ≤ domainIdMax }

theorem domainIdMin_inRange : domainIdMin ≤ domainIdMin ∧ domainIdMin ≤ domainIdMax := by decide

structure OpenbaoKeyManager where
  inited : Bool := false
  domainCount : DomainCount := ⟨domainIdMin, domainIdMin_inRange⟩
  domainKeyMap : DomainKeyMap := ∅
  accessToken : Bytes := []
  exePath : Bytes := []
  type : KeyManagerTy := .openbao

/-- The libraries the manager is linked with. -/
structure KmHost where
  json : RapidJson
  ciphers : Ciphers

/-! ## The map -/

/-- `rbegin()->first`: the ids are kept in order. -/
def lastKey? (keys : KeyMap) : Option Nat := keys.keys.getLast?

namespace DomainKeyMap

/-- What `operator[]` refers to. -/
def at' (map : DomainKeyMap) (domainId : Nat) : KeyMap := map.getD domainId ∅

/-- The map after an `operator[]` that only reads. -/
def touch (map : DomainKeyMap) (domainId : Nat) : DomainKeyMap := map.insertIfNew domainId ∅

/-- `map[domainId].insert({keyId, time})` -/
def addKey (map : DomainKeyMap) (domainId keyId : Nat) (time : Int) : DomainKeyMap :=
  map.insert domainId ((map.at' domainId).insertIfNew keyId time)

/-- `map[domainId][keyId] = time` -/
def setTime (map : DomainKeyMap) (domainId keyId : Nat) (time : Int) : DomainKeyMap :=
  map.insert domainId ((map.at' domainId).insert keyId time)

/-- `map[domainId].erase(keyId)` -/
def eraseKey (map : DomainKeyMap) (domainId keyId : Nat) : DomainKeyMap :=
  map.insert domainId ((map.at' domainId).erase keyId)

/-- Drop the domain where it has no key left. -/
def dropIfEmpty (map : DomainKeyMap) (domainId : Nat) : DomainKeyMap :=
  if (map.at' domainId).isEmpty then map.erase domainId else map

end DomainKeyMap

/-- A signed 64-bit sum, trapped where it overflows. -/
def addInt64 (a b : Int) : Except Fault Int :=
  if a + b < 2 ^ 63 then .ok (a + b) else .error .overflow

/-- `static_cast<uint32_t>(time)` -/
def toUint32 (time : Int) : Nat := (time % 2 ^ 32).toNat

/-- What a guard object does around the body of an operation. -/
def locked {α : Type} (mode : LockMode) (body : Km α) : Km α := do
  .perform (Call.acquire mode)
  let result ← body
  .perform (Call.release mode)
  .ret result

namespace OpenbaoKeyManager

/-! ## Life cycle -/

def unInit (m : OpenbaoKeyManager) : KeyManagerRC × OpenbaoKeyManager :=
  (.ok, { m with
    accessToken := [], domainKeyMap := ∅, domainCount := ⟨domainIdMin, domainIdMin_inRange⟩
    inited := false })

def setType (m : OpenbaoKeyManager) (type : KeyManagerTy) : OpenbaoKeyManager := { m with type }

/-- The loop of `PrepareMap`. -/
def prepareMapLoop (H : KmHost) :
    OpenbaoKeyManager → List (Nat × Nat) → Km (KeyManagerRC × OpenbaoKeyManager)
  | m, [] => .ret (.ok, m)
  | m, (d, k) :: pairs => do
    let result ← runCommandAndGetResult m.exePath m.accessToken (.read d k)
    if result.1 ≠ .ok then .ret (.error, m)
    else if result.2 = [] then .ret (.ok, m)
    else do
      let time ← .ofExcept (getJsonFieldMaxInt H.json result.2)
      if time ≠ -1 then
        prepareMapLoop H { m with domainKeyMap := m.domainKeyMap.addKey d k time } pairs
      else .ret (.error, { m with domainKeyMap := ∅ })

/-- `PrepareMap`; the exception is the one `GetJsonFieldIntPairVec` throws. -/
def prepareMap (H : KmHost) (m : OpenbaoKeyManager) :
    Km (Except StdException KeyManagerRC × OpenbaoKeyManager) := do
  let result ← runCommandAndGetResult m.exePath m.accessToken .list
  if result.1 ≠ .ok then .ret (.ok .error, m)
  else if result.2 = ascii "{}\n" then .ret (.ok .ok, m)
  else
    match getJsonFieldIntPairVec H.json result.2 with
    | .error e => .ret (.error e, m)
    | .ok none => .ret (.ok .error, m)
    | .ok (some pairs) => do
      let prepared ← prepareMapLoop H m pairs
      .ret (.ok prepared.1, prepared.2)

/-- `Init`. The guard releases the mutex also where an exception leaves. -/
def init (H : KmHost) (m : OpenbaoKeyManager) (exePath accessToken : Bytes) (domainCount : Nat) :
    Km (Except StdException KeyManagerRC × OpenbaoKeyManager) :=
  locked .exclusive <|
    if m.inited then .ret (.ok .ok, m)
    else do
      let canonical ← .perform (Call.canonicalPath exePath)
      match canonical with
      | none => .ret (.ok .invalidParam, m)
      | some exeRealPath =>
        let m := { m with exePath := exeRealPath }
        if hcount : domainIdMin ≤ domainCount ∧ domainCount ≤ domainIdMax then
          if accessToken = [] then .ret (.ok .error, m)
          else if ¬ memcpyS accessToken.length accessToken.length then
            .ret (.ok .error, { m with accessToken := [] })
          else do
            let prepared ← prepareMap H { m with accessToken }
            match prepared.1 with
            | .error e => .ret (.error e, prepared.2)
            | .ok rc =>
              if rc ≠ .ok then .ret (.ok .error, prepared.2)
              else .ret (.ok .ok, { prepared.2 with
                inited := true, domainCount := ⟨domainCount, hcount⟩ })
        else .ret (.ok .domainCountInvalid, m)

/-! ## Keys -/

def validateDomain (m : OpenbaoKeyManager) (domainId : Nat) : KeyManagerRC :=
  if ¬ m.inited then .uninited
  else if m.domainCount.1 ≤ domainId then .invalidParam
  else .ok

/-- `GenerateKeyId`: one past the largest id of the domain. -/
def generateKeyId (m : OpenbaoKeyManager) (domainId : Nat) :
    (KeyManagerRC × Nat) × OpenbaoKeyManager :=
  let keys := m.domainKeyMap.at' domainId
  let m := { m with domainKeyMap := m.domainKeyMap.touch domainId }
  if maxKeyCount ≤ keys.size then ((.invalidParam, 0), m)
  else
    match lastKey? keys with
    | none => ((.ok, 0), m)
    | some maxId => if 65535 ≤ maxId then ((.invalidParam, 0), m) else ((.ok, maxId + 1), m)

def removeKey (m : OpenbaoKeyManager) (domainId keyId : Nat) :
    Km (KeyManagerRC × OpenbaoKeyManager) :=
  locked .exclusive <|
    if ¬ m.inited then .ret (.uninited, m)
    else if m.domainKeyMap.isEmpty then .ret (.error, m)
    else if m.domainCount.1 ≤ domainId then .ret (.invalidParam, m)
    else if 65535 < keyId then .ret (.invalidParam, m)
    else
      match m.domainKeyMap[domainId]? with
      | none => .ret (.invalidParam, m)
      | some subMap =>
        if keyId ∉ subMap then .ret (.invalidParam, m)
        else do
          let ret ← runCommandAndCheck m.exePath m.accessToken (.delete domainId keyId)
          if ret ≠ .ok then .ret (.error, m)
          else .ret (.ok, { m with
            domainKeyMap := (m.domainKeyMap.eraseKey domainId keyId).dropIfEmpty domainId })

/-- `CreateKey`. It holds the mutex while it calls `RemoveKey`. -/
def createKey (H : KmHost) (m : OpenbaoKeyManager) (domainId : Nat) :
    Km ((KeyManagerRC × Nat) × OpenbaoKeyManager) :=
  locked .exclusive <|
    if m.validateDomain domainId ≠ .ok then .ret ((m.validateDomain domainId, 0), m)
    else
      let generated := m.generateKeyId domainId
      let m := generated.2
      if generated.1.1 ≠ .ok then .ret (generated.1, m)
      else
        let keyId := generated.1.2
        do
          let ret ← runCommandAndCheck m.exePath m.accessToken (.create domainId keyId)
          if ret ≠ .ok then .ret ((.error, 0), m)
          else do
            let ret ← runCommandAndCheck m.exePath m.accessToken
              (.config domainId keyId [.exportable, .deletionAllowed])
            if ret ≠ .ok then .ret ((.error, 0), m)
            else do
              let result ← runCommandAndGetResult m.exePath m.accessToken (.read domainId keyId)
              if result.1 ≠ .ok then .ret ((.error, 0), m)
              else do
                let time ← .ofExcept (getJsonFieldMaxInt H.json result.2)
                if time = -1 then do
                  -- no creation time: give the key back, whatever that returns
                  let removed ← m.removeKey domainId keyId
                  .ret ((.error, 0), removed.2)
                else .ret ((.ok, keyId), { m with
                  domainKeyMap := m.domainKeyMap.addKey domainId keyId time })

/-- The inner loop of `DeleteAllKey`: the ids of one domain, in order. After a delete
that fails the iterators belong to two maps. -/
def deleteInner (domainId : Nat) : OpenbaoKeyManager → List Nat → Km OpenbaoKeyManager
  | m, [] => .ret m
  | m, keyId :: keys => do
    let ret ← runCommandAndCheck m.exePath m.accessToken (.delete domainId keyId)
    if ret ≠ .ok then .halt .undefined
    else deleteInner domainId { m with domainKeyMap := m.domainKeyMap.eraseKey domainId keyId } keys

/-- The outer loop of `DeleteAllKey`. -/
def deleteOuter : OpenbaoKeyManager → List Nat → Km OpenbaoKeyManager
  | m, [] => .ret m
  | m, domainId :: domains => do
    let m ← deleteInner domainId m (m.domainKeyMap.at' domainId).keys
    deleteOuter { m with domainKeyMap := m.domainKeyMap.dropIfEmpty domainId } domains

def deleteAllKey (m : OpenbaoKeyManager) : Km (KeyManagerRC × OpenbaoKeyManager) :=
  locked .exclusive <|
    if ¬ m.inited then .ret (.uninited, m)
    else if m.domainKeyMap.isEmpty then .ret (.ok, m)
    else do
      let m ← deleteOuter m m.domainKeyMap.keys
      .ret (if ¬ m.domainKeyMap.isEmpty then .error else .ok, m)

/-! ## Display -/

/-- One line on the standard output. -/
def displayLine (domainId keyId : Nat) (createTime : Int) : Except Fault Bytes := do
  let expireTime ← addInt64 createTime openbaoMaxMasterKeyValidTime
  return ascii "[domainId: " ++ decimal domainId ++ ascii ", keyId: " ++ decimal keyId ++
    ascii ", status: active, createTime: " ++ decimalInt createTime ++ ascii ", expireTime: " ++
    decimalInt expireTime ++ ascii "]\n"

def displayKeys (domainId : Nat) (keys : List (Nat × Int)) : Except Fault Bytes := do
  let lines ← keys.mapM fun key => displayLine domainId key.1 key.2
  return lines.flatten

/-- `DisplayKey`, with the text it prints. -/
def displayKey (m : OpenbaoKeyManager) (domainId : Nat) : Km (KeyManagerRC × Bytes) :=
  locked .shared <|
    if ¬ m.inited then .ret (.uninited, [])
    else if m.domainCount.1 ≤ domainId then .ret (.invalidParam, [])
    else
      match m.domainKeyMap[domainId]? with
      | none => .ret (.ok, ascii "no key matches\n")
      | some keys => do
        let text ← .ofExcept (displayKeys domainId keys.toList)
        .ret (.ok, text)

/-- `DisplayAllKey`, with the text it prints. -/
def displayAllKey (m : OpenbaoKeyManager) : Km (KeyManagerRC × Bytes) :=
  locked .shared <|
    if ¬ m.inited then .ret (.uninited, [])
    else if m.domainKeyMap.isEmpty then .ret (.ok, ascii "no key matches.\n")
    else do
      let texts ← .ofExcept <| m.domainKeyMap.toList.mapM fun pair =>
        displayKeys pair.1 pair.2.toList
      .ret (.ok, texts.flatten)

/-! ## Expiry -/

/-- The loop of `CheckDomainKeysExpired`: some key outlives `testTime`. -/
def foundValidKey (testTime : Nat) : List (Nat × Int) → Bool → Except Fault Bool
  | [], found => .ok found
  | (_, createTime) :: keys, found => do
    let expireTime ← addInt64 createTime openbaoMaxMasterKeyValidTime
    foundValidKey testTime keys (found || (testTime : Int) < expireTime)

def checkDomainKeysExpired (m : OpenbaoKeyManager) (domainId lead : Nat) : Km KeyManagerRC :=
  locked .shared do
    let time ← .perform Call.time
    if time = -1 then .ret .error
    else if ¬ m.inited then .ret .uninited
    else if m.domainKeyMap.isEmpty then .ret .error
    else if m.domainCount.1 ≤ domainId then .ret .invalidParam
    else
      match m.domainKeyMap[domainId]? with
      | none => .ret .invalidParam
      | some keys =>
        if (2 ^ 32 - 1) / dayToTime < lead then .ret .invalidParam
        else if openbaoMaxMasterKeyValidTimeInDays < lead ∨
            openbaoMaxMasterKeyValidTime < lead * dayToTime then .ret .invalidParam
        else do
          -- an unsigned 32-bit sum
          let testTime := (toUint32 time + lead * dayToTime) % 2 ^ 32
          let found ← .ofExcept (foundValidKey testTime keys.toList false)
          .ret (if ¬ found then .keyExpired else .ok)

def checkDomainKeysExpiredParams (m : OpenbaoKeyManager) (domainId lead : Nat) : KeyManagerRC :=
  if ¬ m.inited then .uninited
  else if m.domainKeyMap.isEmpty then .error
  else if m.domainCount.1 ≤ domainId then .invalidParam
  else if domainId ∉ m.domainKeyMap then .invalidParam
  else if (2 ^ 32 - 1) / dayToTime < lead then .invalidParam
  else if openbaoMaxMasterKeyValidTime < lead * dayToTime then .invalidParam
  else .ok

/-- `HandleCommand`: delete the key and make it again under its name. The `config`
command here names one flag, that of `CreateKey` two. -/
def handleCommand (m : OpenbaoKeyManager) (domainId keyId : Nat) : Km KeyManagerRC := do
  let ret ← runCommandAndCheck m.exePath m.accessToken (.delete domainId keyId)
  if ret ≠ .ok then .ret .error
  else do
    let ret ← runCommandAndCheck m.exePath m.accessToken (.create domainId keyId)
    if ret ≠ .ok then .ret .error
    else do
      let ret ← runCommandAndCheck m.exePath m.accessToken (.config domainId keyId [.deletionAllowed])
      if ret ≠ .ok then .ret .error else .ret .ok

/-- The loop of `CheckDomainKeysExpiredAndAutoUpdate` over the keys of the domain. -/
def autoUpdateLoop (H : KmHost) (domainId lead : Nat) (time : Int) :
    OpenbaoKeyManager → List (Nat × Int) → Km (KeyManagerRC × OpenbaoKeyManager)
  | m, [] => .ret (.ok, m)
  | m, (keyId, createTime) :: keys =>
    if 2 ^ 63 - 1 - (openbaoMaxMasterKeyValidTime : Int) < createTime then .ret (.error, m)
    else if 2 ^ 32 - 1 - toUint32 time < lead * dayToTime then .ret (.error, m)
    else if createTime + openbaoMaxMasterKeyValidTime ≤ toUint32 time + lead * dayToTime then do
      let ret ← m.handleCommand domainId keyId
      if ret ≠ .ok then .ret (ret, m)
      else do
        let result ← runCommandAndGetResult m.exePath m.accessToken (.read domainId keyId)
        if result.1 ≠ .ok then .ret (.error, m)
        else do
          let timeTmp ← .ofExcept (getJsonFieldMaxInt H.json result.2)
          if timeTmp = -1 then .ret (.error, m)
          else
            let map := m.domainKeyMap.setTime domainId keyId timeTmp
            autoUpdateLoop H domainId lead time { m with domainKeyMap := map } keys
    else autoUpdateLoop H domainId lead time m keys

def checkDomainKeysExpiredAndAutoUpdate (H : KmHost) (m : OpenbaoKeyManager)
    (domainId lead : Nat) : Km (KeyManagerRC × OpenbaoKeyManager) :=
  locked .exclusive do
    let time ← .perform Call.time
    if time = -1 then .ret (.error, m)
    else if m.checkDomainKeysExpiredParams domainId lead ≠ .ok then
      .ret (m.checkDomainKeysExpiredParams domainId lead, m)
    else autoUpdateLoop H domainId lead time m (m.domainKeyMap.at' domainId).toList

/-! ## Encryption and decryption -/

/-- `OpenBaoCheckSymAlg::IsValue` -/
def openBaoCheckSymAlg (symAlg : CryptoSymAlg) : Bool :=
  symAlg = .aes256Gcm || symAlg = .chacha20Poly1305

def checkEncryptAndDecryptParams (m : OpenbaoKeyManager) (domainId : Nat) (symAlg : CryptoSymAlg) :
    KeyManagerRC :=
  if ¬ m.inited then .uninited
  else if m.domainKeyMap.isEmpty then .error
  else if m.domainCount.1 ≤ domainId then .invalidParam
  else if domainId ∉ m.domainKeyMap then .invalidParam
  else if ¬ openBaoCheckSymAlg symAlg then .invalidParam
  else .ok

/-- The key in an export reply, empty where there is none. -/
def exportedKey (H : KmHost) (result : KeyManagerRC × Bytes) : Except Fault Bytes :=
  if result.1 ≠ .ok then .ok []
  else do
    let decodeKeystr ← getJsonFieldAsStr H.json result.2
    return if decodeKeystr = [] then [] else base64Decode decodeKeystr

/-- `GetLatestKey`: the key of the largest id; `keyId` is an out parameter. -/
def getLatestKey (H : KmHost) (m : OpenbaoKeyManager) (domainId keyId : Nat) :
    Km ((Bytes × Nat) × OpenbaoKeyManager) :=
  if m.validateDomain domainId ≠ .ok then .ret (([], keyId), m)
  else if m.domainKeyMap.isEmpty then .ret (([], keyId), m)
  else
    let keyMap := m.domainKeyMap.at' domainId
    let m := { m with domainKeyMap := m.domainKeyMap.touch domainId }
    match lastKey? keyMap with
    | none => .ret (([], keyId), m)
    | some keyId => do
      let result ← runCommandAndGetResult m.exePath m.accessToken (.exportKey domainId keyId)
      let key ← .ofExcept (exportedKey H result)
      .ret ((key, keyId), m)

def constructCipherHeader (symAlg : CryptoSymAlg) (domainId keyId : Nat) : Bytes :=
  [1, symAlg.toNat.toUInt8,
    (domainId >>> 8 &&& 0xff).toUInt8, (domainId &&& 0xff).toUInt8,
    (keyId >>> 8 &&& 0xff).toUInt8, (keyId &&& 0xff).toUInt8]

/-- The end of `Encrypt`, once there is a key. -/
def sealText (H : KmHost) (m : OpenbaoKeyManager) (symAlg : CryptoSymAlg) (domainId keyId : Nat)
    (plaintext keyVec : Bytes) : Km ((KeyManagerRC × Bytes) × OpenbaoKeyManager) := do
  let header := constructCipherHeader symAlg domainId keyId
  let w ← .perform Call.crypt
  let ret := nativeEncrypt H.ciphers w symAlg plaintext keyVec
  if ret.1 ≠ .ok then .ret ((.error, []), m)
  else .ret ((.ok, base64Encode (header ++ ret.2)), m)

/-- `Encrypt`. It holds the mutex, shared, while it calls `CreateKey`. -/
def encrypt (H : KmHost) (m : OpenbaoKeyManager) (symAlg : CryptoSymAlg) (domainId : Nat)
    (plaintext : Bytes) : Km ((KeyManagerRC × Bytes) × OpenbaoKeyManager) :=
  locked .shared <|
    if m.checkEncryptAndDecryptParams domainId symAlg ≠ .ok then
      .ret ((m.checkEncryptAndDecryptParams domainId symAlg, []), m)
    else if plaintext = [] ∨ plaintextMaxLength ≤ plaintext.length then
      .ret ((.invalidParam, []), m)
    else do
      let latest ← m.getLatestKey H domainId 0
      if latest.1.1 = [] then do
        -- no key to be had: make one, and look again
        let created ← latest.2.createKey H domainId
        if created.1.1 ≠ .ok then .ret ((.error, []), created.2)
        else do
          let latest ← created.2.getLatestKey H domainId latest.1.2
          latest.2.sealText H symAlg domainId latest.1.2 plaintext latest.1.1
      else latest.2.sealText H symAlg domainId latest.1.2 plaintext latest.1.1

/-- `VaultDecrypt`, empty on every failure. -/
def vaultDecrypt (H : KmHost) (m : OpenbaoKeyManager) (symAlg : CryptoSymAlg)
    (domainId keyId : Nat) (ciphertext : Bytes) : Km Bytes := do
  let result ← runCommandAndGetResult m.exePath m.accessToken (.exportKey domainId keyId)
  let key ← .ofExcept (exportedKey H result)
  if key = [] then .ret []
  else do
    let w ← .perform Call.crypt
    let ret := nativeDecrypt H.ciphers w symAlg ciphertext key
    .ret (if ret.1 ≠ .ok then [] else ret.2)

/-- The fields of a ciphertext header. -/
structure CipherHeader where
  symAlg : CryptoSymAlg
  domainId : Nat
  keyId : Nat

/-- `ParseCipherHeader` before its check: what it reads from a long enough text of version 1. -/
def readCipherHeader (cipherHeader : Bytes) : Option CipherHeader :=
  match cipherHeader with
  | version :: alg :: d₁ :: d₀ :: k₁ :: k₀ :: _ :: _ =>
    if version ≠ 1 then none
    else some {
      symAlg := .ofNat alg.toNat
      domainId := d₁.toNat <<< 8 ||| d₀.toNat
      keyId := k₁.toNat <<< 8 ||| k₀.toNat }
  | _ => none

def parseCipherHeader (m : OpenbaoKeyManager) (cipherHeader : Bytes) :
    KeyManagerRC × Option CipherHeader :=
  match readCipherHeader cipherHeader with
  | none => (.invalidParam, none)
  | some header => (m.checkEncryptAndDecryptParams header.domainId header.symAlg, some header)

def bas64DecodeCipherText (ciphertext : Bytes) : Bytes :=
  if ciphertext = [] ∨ ciphertextMaxLength ≤ ciphertext.length then []
  else base64Decode ciphertext

def decrypt (H : KmHost) (m : OpenbaoKeyManager) (symAlg : CryptoSymAlg) (domainId : Nat)
    (ciphertext : Bytes) : Km (KeyManagerRC × Bytes) :=
  locked .shared <|
    if m.checkEncryptAndDecryptParams domainId symAlg ≠ .ok then
      .ret (m.checkEncryptAndDecryptParams domainId symAlg, [])
    else
      let ciphertextNative := bas64DecodeCipherText ciphertext
      if ciphertextNative = [] then .ret (.invalidParam, [])
      else
        match m.parseCipherHeader ciphertextNative with
        | (rc, none) => .ret (rc, [])
        | (rc, some header) =>
          if rc ≠ .ok then .ret (rc, [])
          else if header.symAlg ≠ symAlg then .ret (.invalidParam, [])
          else if header.domainId ≠ domainId then .ret (.invalidParam, [])
          else if header.keyId ∉ m.domainKeyMap.at' domainId then .ret (.error, [])
          else do
            let vec ← m.vaultDecrypt H header.symAlg header.domainId header.keyId
              (ciphertextNative.drop maxIndex)
            if vec = [] then .ret (.error, []) else .ret (.ok, vec)

end OpenbaoKeyManager

/-! ## Operations -/

/-- The public operations. -/
inductive Op
  | init (exePath accessToken : Bytes) (domainCount : Nat)
  | unInit
  | setType (type : KeyManagerTy)
  | createKey (domainId : Nat)
  | removeKey (domainId keyId : Nat)
  | deleteAllKey
  | displayKey (domainId : Nat)
  | displayAllKey
  | checkDomainKeysExpired (domainId lead : Nat)
  | checkDomainKeysExpiredAndAutoUpdate (domainId lead : Nat)
  | getLatestKey (domainId keyId : Nat)
  | encrypt (symAlg : CryptoSymAlg) (domainId : Nat) (plaintext : Bytes)
  | decrypt (symAlg : CryptoSymAlg) (domainId : Nat) (ciphertext : Bytes)

/-- What an operation returns. -/
inductive Answer
  | none
  | thrown (e : StdException)
  | code (rc : KeyManagerRC)
  | keyId (rc : KeyManagerRC) (id : Nat)
  | bytes (rc : KeyManagerRC) (vec : Bytes)
  | key (vec : Bytes) (id : Nat)

/-- One operation on the manager. -/
def Op.prog (H : KmHost) (m : OpenbaoKeyManager) : Op → Km (Answer × OpenbaoKeyManager)
  | init exePath accessToken domainCount => do
    let result ← m.init H exePath accessToken domainCount
    match result.1 with
    | .error e => .ret (.thrown e, result.2)
    | .ok rc => .ret (.code rc, result.2)
  | unInit => .ret (.code m.unInit.1, m.unInit.2)
  | setType type => .ret (.none, m.setType type)
  | createKey domainId => do
    let result ← m.createKey H domainId
    .ret (.keyId result.1.1 result.1.2, result.2)
  | removeKey domainId keyId => do
    let result ← m.removeKey domainId keyId
    .ret (.code result.1, result.2)
  | deleteAllKey => do
    let result ← m.deleteAllKey
    .ret (.code result.1, result.2)
  | displayKey domainId => do
    let result ← m.displayKey domainId
    .ret (.bytes result.1 result.2, m)
  | displayAllKey => do
    let result ← m.displayAllKey
    .ret (.bytes result.1 result.2, m)
  | checkDomainKeysExpired domainId lead => do
    let result ← m.checkDomainKeysExpired domainId lead
    .ret (.code result, m)
  | checkDomainKeysExpiredAndAutoUpdate domainId lead => do
    let result ← m.checkDomainKeysExpiredAndAutoUpdate H domainId lead
    .ret (.code result.1, result.2)
  | getLatestKey domainId keyId => do
    let result ← m.getLatestKey H domainId keyId
    .ret (.key result.1.1 result.1.2, result.2)
  | encrypt symAlg domainId plaintext => do
    let result ← m.encrypt H symAlg domainId plaintext
    .ret (.bytes result.1.1 result.1.2, result.2)
  | decrypt symAlg domainId ciphertext => do
    let result ← m.decrypt H symAlg domainId ciphertext
    .ret (.bytes result.1 result.2, m)

end CdfCrypto.KeyManagement
