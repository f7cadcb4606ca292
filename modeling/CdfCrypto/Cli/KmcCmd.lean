import CdfCrypto.KeyManagement.Dispatch

/-!
# The commands of the tool

A handler of `cryption_tool` checks its parameters, reads what it needs from the terminal, borrows
a key manager, initialises it and lets it do one thing. It is a program over the characters that
are typed and the calls of the manager, whose answers are open.

What is printed and logged is left out. An exception that leaves a call leaves the handler, which
is no return.
-/

namespace CdfCrypto.Cli

open Lib
open KeyManagement (Borrowed borrow cryptorAnswer)

inductive CryptionToolRc
  | ok
  | paramInvalid
  | internalError
  | encryptError
  | activeKeyError
  | updateRootKeyError
  | encryptInternalError
  deriving DecidableEq, Repr

structure ThirdKmc where
  kmcPath : Bytes

structure CliConfig where
  algorithm : Bytes := ascii "AES256_GCM"
  kmcType : Bytes
  thirdKmc : ThirdKmc

/-- What a handler asks of the terminal and of a key manager. -/
inductive CliCall
  | cinGet
  | init (km : Borrowed) (kmcPath accessToken : Bytes) (domainCount : Nat)
  | unInit (km : Borrowed)
  | type (km : Borrowed)
  | getLatestKey (km : Borrowed) (domainId : Nat)
  | createKey (km : Borrowed) (domainId : Nat)
  | displayKey (km : Borrowed) (domainId : Nat)
  | removeKey (km : Borrowed) (domainId keyId : Nat)
  | encrypt (km : Borrowed) (alg : CryptoSymAlg) (domainId : Nat) (plaintext : Bytes)
  | decrypt (km : Borrowed) (alg : CryptoSymAlg) (domainId : Nat) (ciphertext : Bytes)

/-- There is no character at the end of the input; `KeyManagerTy.unknown` stands for every type
that a `switch` has no case for. -/
abbrev CliCall.Reply : CliCall → Type
  | cinGet => Option UInt8
  | init _ _ _ _ => KeyManagerRC
  | unInit _ => KeyManagerRC
  | type _ => KeyManagerTy
  | getLatestKey _ _ => Bytes
  | createKey _ _ => KeyManagerRC × Nat
  | displayKey _ _ => KeyManagerRC
  | removeKey _ _ _ => KeyManagerRC
  | encrypt _ _ _ _ => KeyManagerRC × Bytes
  | decrypt _ _ _ _ => KeyManagerRC × Bytes

/-- A cast to another class, or a use of a null pointer. -/
inductive CliFault
  | undefined

abbrev CliProg (α : Type) := Prog CliCall CliCall.Reply CliFault α

abbrev CliEvent := Event CliCall CliCall.Reply

/-! ## Parameters -/

/-- `ConfigParseCryptoAlg` -/
def configParseCryptoAlg (config : CliConfig) : CryptoSymAlg :=
  if config.algorithm = ascii "AES128_GCM" then .aes128Gcm
  else if config.algorithm = ascii "AES256_GCM" then .aes256Gcm
  else if config.algorithm = ascii "SM4_CTR" then .sm4Ctr
  else if config.algorithm = ascii "AES128_CCM" then .aes128Ccm
  else if config.algorithm = ascii "CHACHA20_POLY1305" then .chacha20Poly1305
  else .unknown

/-- `KmcCmd::ParseDomainId`, which fails with `PARAM_INVALID` alone. -/
def parseDomainId (domainIdParam : Bytes) (domainCount : Nat) : Option Nat :=
  match strToU32 domainIdParam with
  | none => none
  | some value => if domainCount ≤ value then none else some value

/-- The places of the parameters. -/
def domainIdIndex : Nat := 0
def domainCountIndex : Nat := 1
def domainRemoveKeyIndex : Nat := 2

/-- `KmcCmd::ParseDomainIdAndDomainCount`, where both parameters are there. -/
def parseDomainIdAndDomainCount (cmdParams : List Bytes) : Option (Nat × Nat) :=
  match strToU32 (cmdParams.getD domainCountIndex []) with
  | none => none
  | some domainCount =>
    match parseDomainId (cmdParams.getD domainIdIndex []) domainCount with
    | none => none
    | some domainId => some (domainId, domainCount)

/-! ## The terminal -/

/-- `static_cast<char>(std::cin.get())` -/
def cinGet : CliProg UInt8 := do
  let ch ← .perform CliCall.cinGet
  .ret (ch.getD 255)

/-- The loop over a line, with so much room left and a character to put there. -/
def inputLoop : Nat → UInt8 → Bytes → CliProg Bytes
  | 0, _, text => .ret text
  | room + 1, ch, text =>
    if ch = 10 ∨ ch = 13 ∨ ch = 0 then .ret text
    else do
      let next ← cinGet
      inputLoop room next (text ++ [ch])

/-- A line into a buffer: it must neither be empty nor fill it. -/
def lineFromInput (size : Nat) : CliProg (CryptionToolRc × Bytes) := do
  let ch ← cinGet
  let text ← inputLoop (size - 1) ch []
  if text.length = 0 then .ret (.paramInvalid, text)
  else if text.length = size - 1 then .ret (.paramInvalid, text)
  else .ret (.ok, text)

/-- `GetAccessTokenFromInput` -/
def getAccessTokenFromInput (accessTokenLen : Nat) : CliProg (CryptionToolRc × Bytes) :=
  lineFromInput accessTokenLen

/-- `KmcCmd::GetPassFromInput` -/
def getPassFromInput (plainTextLength : Nat) : CliProg (CryptionToolRc × Bytes) :=
  lineFromInput plainTextLength

/-- `KmcCmd::ReadEncryptContent`, with the text where it succeeds. -/
def readEncryptContent (plainTextLength : Nat) : CliProg (Option Bytes) := do
  let plainText ← getPassFromInput plainTextLength
  if plainText.1 ≠ .ok then .ret none
  else do
    let plainTextCheck ← getPassFromInput plainTextLength
    if plainTextCheck.1 ≠ .ok then .ret none
    else if cstr plainText.2 ≠ cstr plainTextCheck.2 then .ret none
    else .ret (some plainText.2)

/-! ## The manager -/

/-- `GetKm` -/
def getKm (config : CliConfig) : Option Borrowed :=
  if config.kmcType = ascii "openbao" then borrow .openbao
  else if config.kmcType = ascii "vault" then borrow .vault
  else borrow .unknown

/-- `InitKm` -/
def initKm (config : CliConfig) (km : Option Borrowed) (domainCount : Nat) :
    CliProg CryptionToolRc :=
  match km with
  | none => .ret .paramInvalid
  | some km => do
    let accessToken ← getAccessTokenFromInput 128
    if accessToken.1 ≠ .ok then .ret accessToken.1
    else do
      let ret ← .perform (CliCall.init km config.thirdKmc.kmcPath (cstr accessToken.2) domainCount)
      .ret (if ret ≠ .ok then .encryptError else .ok)

/-- The manager behind the pointer. -/
def deref : Option Borrowed → CliProg Borrowed
  | none => .halt .undefined
  | some km => .ret km

/-- The `switch` over `Type()` with its `static_cast`: whether there is a case. -/
def switchType (km : Borrowed) : CliProg Bool := do
  let type ← .perform (CliCall.type km)
  match type with
  | .openbao => if km = .openbao then .ret true else .halt .undefined
  | .vault => if km = .vault then .ret true else .halt .undefined
  | .unknown => .ret false

/-- `PrepareKmDomainKey` -/
def prepareKmDomainKey (km : Borrowed) (domainId : Nat) : CliProg CryptionToolRc := do
  let known ← switchType km
  if known then do
    let latest ← .perform (CliCall.getLatestKey km domainId)
    if latest = [] then do
      let _ ← .perform (CliCall.createKey km domainId)
      .ret .ok
    else .ret .ok
  else .ret .internalError

/-- `CheckDomainKey` -/
def checkDomainKey (km : Borrowed) (domainId : Nat) : CliProg CryptionToolRc := do
  let known ← switchType km
  if known then do
    let latest ← .perform (CliCall.getLatestKey km domainId)
    if latest = [] then .ret .paramInvalid else .ret .ok
  else .ret .internalError

/-- `KmCryptor::Encrypt` -/
def cryptorEncrypt (km : Borrowed) (alg : CryptoSymAlg) (plaintext : Bytes) (domainId : Nat) :
    CliProg (CryptionRC × Bytes) := do
  let known ← switchType km
  if known then do
    let result ← .perform (CliCall.encrypt km alg domainId plaintext)
    .ret (cryptorAnswer result)
  else .ret (.invalidParam, [])

/-- `KmCryptor::Decrypt` -/
def cryptorDecrypt (km : Borrowed) (alg : CryptoSymAlg) (ciphertext : Bytes) (domainId : Nat) :
    CliProg (CryptionRC × Bytes) := do
  let known ← switchType km
  if known then do
    let result ← .perform (CliCall.decrypt km alg domainId ciphertext)
    .ret (cryptorAnswer result)
  else .ret (.invalidParam, [])

/-! ## Handlers -/

/-- What every handler does with its manager: `body` where it is initialised, else `failed`. -/
def withKm {α : Type} (config : CliConfig) (domainCount : Nat) (failed : α)
    (body : Borrowed → CliProg α) : CliProg α := do
  let km := getKm config
  let inited ← initKm config km domainCount
  if inited = .ok then do
    let km ← deref km
    body km
  else .ret failed

/-- What every handler does with its parameters. -/
def withDomain (paramCount : Nat) (cmdParams : List Bytes)
    (body : Nat → Nat → CliProg CryptionToolRc) : CliProg CryptionToolRc :=
  if cmdParams.length ≠ paramCount then .ret .paramInvalid
  else
    match parseDomainIdAndDomainCount cmdParams with
    | none => .ret .paramInvalid
    | some (domainId, domainCount) => body domainId domainCount

/-- `EncryptKeyCmd::Encrypt`, with the ciphertext. -/
def encrypt (config : CliConfig) (domainId domainCount : Nat) (inputPlainText : Bytes) :
    CliProg (CryptionToolRc × Bytes) :=
  withKm config domainCount (.internalError, []) fun km => do
    let tmpRc ← prepareKmDomainKey km domainId
    if tmpRc ≠ .ok then .ret (tmpRc, [])
    else do
      let result ← cryptorEncrypt km (configParseCryptoAlg config) (cstr inputPlainText) domainId
      let _ ← .perform (CliCall.unInit km)
      if result.1 ≠ .ok then .ret (.encryptError, []) else .ret (.ok, result.2)

/-- `ReEncryptCmd::ReEncrypt`, with the new ciphertext. -/
def reEncrypt (config : CliConfig) (domainId domainCount : Nat) (inputCipherText : Bytes) :
    CliProg (CryptionToolRc × Bytes) :=
  withKm config domainCount (.internalError, []) fun km => do
    let tmpRc ← checkDomainKey km domainId
    if tmpRc ≠ .ok then .ret (tmpRc, [])
    else do
      let result ← cryptorDecrypt km (configParseCryptoAlg config) (cstr inputCipherText) domainId
      if result.1 ≠ .ok then do
        let _ ← .perform (CliCall.unInit km)
        .ret (.encryptError, [])
      else do
        let result ← cryptorEncrypt km (configParseCryptoAlg config) result.2 domainId
        if result.1 ≠ .ok then do
          let _ ← .perform (CliCall.unInit km)
          .ret (.encryptError, [])
        else do
          let _ ← .perform (CliCall.unInit km)
          .ret (.ok, result.2)

/-- `MAX_KEY_LENGTH` and `MAX_CIPHER_LENGTH` -/
def maxKeyLength : Nat := 33
def maxCipherLength : Nat := 150

/-- `EncryptKeyCmd::HandleCmd` -/
def encryptKeyCmd (cmdParams : List Bytes) (config : CliConfig) : CliProg CryptionToolRc :=
  withDomain 2 cmdParams fun domainId domainCount => do
    let inputPlainText ← readEncryptContent maxKeyLength
    match inputPlainText with
    | none => .ret .paramInvalid
    | some inputPlainText => do
      let ret ← encrypt config domainId domainCount inputPlainText
      if ret.1 ≠ .ok then .ret .paramInvalid else .ret .ok

/-- `ReEncryptCmd::HandleCmd` -/
def reEncryptCmd (cmdParams : List Bytes) (config : CliConfig) : CliProg CryptionToolRc :=
  withDomain 2 cmdParams fun domainId domainCount => do
    let inputCipherText ← readEncryptContent maxCipherLength
    match inputCipherText with
    | none => .ret .paramInvalid
    | some inputCipherText => do
      let ret ← reEncrypt config domainId domainCount inputCipherText
      .ret ret.1

/-- One operation on the keys of a domain, between `InitKm` and `UnInit`. -/
def keyOperation (config : CliConfig) (domainCount : Nat) (operation : Borrowed → CliCall)
    (rc : ∀ km, (operation km).Reply → KeyManagerRC) : CliProg CryptionToolRc :=
  withKm config domainCount .encryptInternalError fun km => do
    let result ← .perform (operation km)
    let _ ← .perform (CliCall.unInit km)
    if rc km result ≠ .ok then .ret .activeKeyError else .ret .ok

/-- `CreateKeyCmd::HandleCmd` -/
def createKeyCmd (cmdParams : List Bytes) (config : CliConfig) : CliProg CryptionToolRc :=
  withDomain 2 cmdParams fun domainId domainCount =>
    keyOperation config domainCount (fun km => .createKey km domainId) fun _ result => result.1

/-- `DisplaykeyCmd::HandleCmd` -/
def displaykeyCmd (cmdParams : List Bytes) (config : CliConfig) : CliProg CryptionToolRc :=
  withDomain 2 cmdParams fun domainId domainCount =>
    keyOperation config domainCount (fun km => .displayKey km domainId) fun _ result => result

/-- `RemovekeyCmd::HandleCmd` -/
def removekeyCmd (cmdParams : List Bytes) (config : CliConfig) : CliProg CryptionToolRc :=
  withDomain 3 cmdParams fun domainId domainCount =>
    match strToU32 (cmdParams.getD domainRemoveKeyIndex []) with
    | none => .ret .paramInvalid
    | some keyId =>
      keyOperation config domainCount (fun km => .removeKey km domainId keyId)
        fun _ result => result

/-- The commands that use a key manager. -/
inductive Command
  | encrypt
  | reEncrypt
  | createkey
  | displaykey
  | removekey
  deriving DecidableEq, Repr

/-- `HandleCmd` -/
def Command.handleCmd : Command → List Bytes → CliConfig → CliProg CryptionToolRc
  | encrypt => encryptKeyCmd
  | reEncrypt => reEncryptCmd
  | createkey => createKeyCmd
  | displaykey => displaykeyCmd
  | removekey => removekeyCmd

end CdfCrypto.Cli
