import CdfCrypto.Cryption.NativeCryptor
import CdfCrypto.Lib.Prog
import CdfCrypto.Utils.Bytes

/-!
# The RAND module

The module keeps one DRBG with its parent, each an algorithm and a context, and the providers
they come from, all in globals: `RandModule`. What runs under `g_initMutex` is a program over
the OpenSSL calls, from the globals as they are to those it leaves (`initLocked`, `attempt`,
`deinitLocked`). A call of the module is a program over these: between two of them it holds no
mutex and reads nothing but `g_initialized`.

What is logged is left out. A pointer is the number of its address.
-/

namespace CdfCrypto.Rand

open Lib

/-! ## OpenSSL -/

/-- A parameter of a DRBG. -/
inductive DrbgParam
  | cipher (name : Bytes)
  | digest (name : Bytes)
  | mac (name : Bytes)
  | properties (propq : Bytes)
  deriving DecidableEq

/-- What the module asks of OpenSSL, and of the clock. -/
inductive OsslCall
  | evpRandFetch (name : Bytes) (propq : Option Bytes)
  | evpRandFree (rand : Nat)
  | evpRandCtxNew (rand : Nat) (parent : Option Nat)
  | evpRandCtxFree (ctx : Nat)
  | evpRandInstantiate (ctx : Nat) (strength : UInt32) (predictionResistance : Bool)
      (params : List DrbgParam)
  | evpRandGetState (ctx : Nat)
  | evpRandGenerate (ctx : Nat) (outlen strength : UInt32) (predictionResistance : Bool)
  | providerLoad (name : Bytes)
  | providerUnload (provider : Nat)
  | randPoll
  | nowMs

/-- A pointer may be null. What is generated is left in the buffer. -/
abbrev OsslCall.Reply : OsslCall → Type
  | evpRandFetch _ _ => Option Nat
  | evpRandFree _ => Unit
  | evpRandCtxNew _ _ => Option Nat
  | evpRandCtxFree _ => Unit
  | evpRandInstantiate _ _ _ _ => Int32
  | evpRandGetState _ => Int32
  | evpRandGenerate _ _ _ _ => Int32 × (Nat → UInt8)
  | providerLoad _ => Option Nat
  | providerUnload _ => Unit
  | randPoll => Int32
  | nowMs => Int64

/-- A program over OpenSSL. -/
abbrev Ossl (α : Type) := Prog OsslCall OsslCall.Reply Empty α

/-- One call of OpenSSL and its answer. -/
abbrev OsslEvent := Event OsslCall OsslCall.Reply

/-! ## The globals -/

/-- `RandConfig` -/
structure RandConfig where
  drbgType : Bytes := ascii "CTR-DRBG"
  seedSource : Bytes := ascii "SEED-SRC"
  fipsMode : Bool := false
  customSeedProvider : Bytes := []
  securityStrength : UInt32 := 256
  predictionResistance : Bool := false
  healthCheckInterval : UInt32 := 0
  deriving DecidableEq

/-- The globals of the module. -/
structure RandModule where
  initialized : Bool := false
  errorCount : UInt32 := 0
  healthCheckInterval : UInt32 := 0
  lastHealthCheckMs : Int64 := 0
  randCtx : Option Nat := none
  parentCtx : Option Nat := none
  drbg : Option Nat := none
  parent : Option Nat := none
  activeConfig : RandConfig := {}
  customProvider : Option Nat := none
  fipsProvider : Option Nat := none
  defaultProvider : Option Nat := none
  deriving DecidableEq

/-- `RecordError` -/
def recordError (m : RandModule) : RandModule := { m with errorCount := m.errorCount + 1 }

/-- `ValidateConfig` -/
def validateConfig (config : RandConfig) (m : RandModule) : Bool × RandModule :=
  if config.drbgType ≠ ascii "CTR-DRBG" ∧ config.drbgType ≠ ascii "HASH-DRBG" ∧
      config.drbgType ≠ ascii "HMAC-DRBG" then (false, recordError m)
  else if config.seedSource ≠ ascii "SEED-SRC" ∧ config.seedSource ≠ ascii "OS" ∧
      config.seedSource ≠ ascii "HARDWARE" ∧ config.seedSource ≠ ascii "CUSTOM" then
    (false, recordError m)
  else if config.securityStrength < 112 ∨ 256 < config.securityStrength then
    (false, recordError m)
  else if config.drbgType = ascii "CTR-DRBG" ∧ config.securityStrength ≠ 128 ∧
      config.securityStrength ≠ 192 ∧ config.securityStrength ≠ 256 then (false, recordError m)
  else (true, m)

/-- `RandFetchSpec` -/
structure RandFetchSpec where
  parentName : Bytes
  parentPropq : Bytes
  drbgPropq : Bytes
  deriving DecidableEq

/-- `BuildProviderPropq` -/
def buildProviderPropq (providerName : Bytes) : Bytes := ascii "provider=" ++ providerName

/-- `BuildFetchSpec` -/
def buildFetchSpec (config : RandConfig) : RandFetchSpec :=
  let fips := if config.fipsMode then ascii "fips=yes" else []
  if config.seedSource = ascii "CUSTOM" then
    ⟨ascii "SEED-SRC", buildProviderPropq config.customSeedProvider, fips⟩
  else if config.seedSource = ascii "HARDWARE" ∨ config.fipsMode then ⟨ascii "JITTER", fips, fips⟩
  else ⟨ascii "SEED-SRC", [], fips⟩

/-- The call of `EVP_RAND_fetch`, with no property query for an empty one. -/
def fetch (name propq : Bytes) : OsslCall :=
  .evpRandFetch (cstr name) (if propq = [] then none else some (cstr propq))

/-- `FetchRandAvailable` -/
def fetchRandAvailable (name propq : Bytes) : Ossl Bool := do
  let rand ← .perform (fetch name propq)
  match rand with
  | none => .ret false
  | some rand => do
    .perform (OsslCall.evpRandFree rand)
    .ret true

/-! ## The providers -/

/-- `LoadDefaultProvider` -/
def loadDefaultProvider (m : RandModule) : Ossl (Bool × RandModule) :=
  if m.defaultProvider ≠ none then .ret (true, m)
  else do
    let provider ← .perform (OsslCall.providerLoad (ascii "default"))
    let m := { m with defaultProvider := provider }
    if provider = none then .ret (false, recordError m)
    else .ret (true, m)

/-- `LoadFipsProvider` -/
def loadFipsProvider (m : RandModule) : Ossl (Bool × RandModule) := do
  let (loaded, m) ← loadDefaultProvider m
  if ¬ loaded then .ret (false, m)
  else if m.fipsProvider ≠ none then .ret (true, m)
  else do
    let provider ← .perform (OsslCall.providerLoad (ascii "fips"))
    let m := { m with fipsProvider := provider }
    if provider = none then .ret (false, recordError m)
    else .ret (true, m)

/-- `PrepareProviders` after the test of `fipsMode`. -/
def prepareSeedProvider (config : RandConfig) (m : RandModule) : Ossl (Bool × RandModule) :=
  if config.seedSource ≠ ascii "CUSTOM" then loadDefaultProvider m
  else if config.customSeedProvider = [] then .ret (false, recordError m)
  else do
    let provider ← .perform (OsslCall.providerLoad (cstr config.customSeedProvider))
    match provider with
    | none => .ret (false, recordError m)
    | some provider => .ret (true, { m with customProvider := some provider })

/-- `PrepareProviders` -/
def prepareProviders (config : RandConfig) (m : RandModule) : Ossl (Bool × RandModule) :=
  if config.fipsMode then do
    let (loaded, m) ← loadFipsProvider m
    if ¬ loaded then .ret (false, m)
    else prepareSeedProvider config m
  else prepareSeedProvider config m

/-- `ValidateParentRandAvailable` -/
def validateParentRandAvailable (config : RandConfig) (m : RandModule) :
    Ossl (Bool × RandModule) := do
  let spec := buildFetchSpec config
  let available ← fetchRandAvailable spec.parentName spec.parentPropq
  if available then .ret (true, m)
  else .ret (false, recordError m)

/-! ## The chain -/

/-- `BuildDrbgParams`, which always returns true. -/
def buildDrbgParams (config : RandConfig) (propq : Bytes) : Bool × List DrbgParam :=
  let algorithm :=
    if config.drbgType = ascii "CTR-DRBG" then
      if config.securityStrength ≤ 128 then [DrbgParam.cipher (ascii "AES-128-CTR")]
      else if config.securityStrength ≤ 192 then [DrbgParam.cipher (ascii "AES-192-CTR")]
      else [DrbgParam.cipher (ascii "AES-256-CTR")]
    else
      let digest :=
        if config.securityStrength ≤ 112 then ascii "SHA-224"
        else if config.securityStrength ≤ 128 then ascii "SHA-256"
        else if config.securityStrength ≤ 192 then ascii "SHA-384"
        else ascii "SHA-512"
      if config.drbgType = ascii "HMAC-DRBG" then [.digest digest, .mac (ascii "HMAC")]
      else [.digest digest]
  let properties := if propq ≠ [] then [DrbgParam.properties propq] else []
  (true, algorithm ++ properties)

/-- A release of what is not the null pointer. -/
def freeAny (call : Nat → OsslCall) : Option Nat → Ossl Unit
  | none => .ret ()
  | some p => do
    let _ ← .perform (call p)
    .ret ()

/-- `EVP_RAND_free` of `g_pParent` -/
def freeParent (m : RandModule) : Ossl RandModule := do
  freeAny .evpRandFree m.parent
  .ret { m with parent := none }

/-- `EVP_RAND_free` of `g_pDrbg` -/
def freeDrbg (m : RandModule) : Ossl RandModule := do
  freeAny .evpRandFree m.drbg
  .ret { m with drbg := none }

/-- `EVP_RAND_CTX_free` of `g_pParentCtx` -/
def freeParentCtx (m : RandModule) : Ossl RandModule := do
  freeAny .evpRandCtxFree m.parentCtx
  .ret { m with parentCtx := none }

/-- `EVP_RAND_CTX_free` of `g_pRandCtx` -/
def freeRandCtx (m : RandModule) : Ossl RandModule := do
  freeAny .evpRandCtxFree m.randCtx
  .ret { m with randCtx := none }

/-- The failure of the chain with the parent. -/
def failParent (m : RandModule) : Ossl (Bool × RandModule) := do
  let m ← freeParent m
  .ret (false, m)

/-- The failure of the chain with the parent and its context. -/
def failParentCtx (m : RandModule) : Ossl (Bool × RandModule) := do
  let m ← freeParentCtx m
  failParent m

/-- The failure of the chain with both algorithms and the parent's context. -/
def failDrbg (m : RandModule) : Ossl (Bool × RandModule) := do
  let m ← freeParentCtx m
  let m ← freeDrbg m
  failParent m

/-- The failure of the chain with everything. -/
def failRandCtx (m : RandModule) : Ossl (Bool × RandModule) := do
  let m ← freeRandCtx m
  failDrbg m

/-- `RAND_poll` for the seed source `OS`, whose failure is only recorded. -/
def pollOs (config : RandConfig) (m : RandModule) : Ossl RandModule :=
  if config.seedSource = ascii "OS" then do
    let polled ← .perform OsslCall.randPoll
    if polled ≠ 1 then .ret (recordError m)
    else .ret m
  else .ret m

/-- `BuildRandChain` from its step 6 on. -/
def instantiateDrbg (config : RandConfig) (params : List DrbgParam) (randCtx : Nat)
    (m : RandModule) : Ossl (Bool × RandModule) := do
  let m ← pollOs config m
  let instantiated ← .perform (OsslCall.evpRandInstantiate randCtx config.securityStrength
    config.predictionResistance params)
  if instantiated ≠ 1 then failRandCtx (recordError m)
  else .ret (true, m)

/-- `BuildRandChain` from its step 4 on. -/
def buildDrbg (config : RandConfig) (params : List DrbgParam) (parentCtx : Nat) (m : RandModule) :
    Ossl (Bool × RandModule) := do
  let drbg ← .perform (fetch config.drbgType (buildFetchSpec config).drbgPropq)
  let m := { m with drbg }
  match drbg with
  | none => failParentCtx (recordError m)
  | some drbg => do
    let randCtx ← .perform (OsslCall.evpRandCtxNew drbg (some parentCtx))
    let m := { m with randCtx }
    match randCtx with
    | none => failDrbg (recordError m)
    | some randCtx => instantiateDrbg config params randCtx m

/-- `BuildRandChain` from its step 2 on. -/
def buildParent (config : RandConfig) (parent : Nat) (m : RandModule) :
    Ossl (Bool × RandModule) := do
  let parentCtx ← .perform (OsslCall.evpRandCtxNew parent none)
  let m := { m with parentCtx }
  match parentCtx with
  | none => failParent (recordError m)
  | some parentCtx => do
    let instantiated ← .perform
      (OsslCall.evpRandInstantiate parentCtx config.securityStrength false [])
    if instantiated ≠ 1 then failParentCtx (recordError m)
    else
      let params := buildDrbgParams config (buildFetchSpec config).drbgPropq
      if ¬ params.1 then failParentCtx m
      else buildDrbg config params.2 parentCtx m

/-- `BuildRandChain` -/
def buildRandChain (config : RandConfig) (m : RandModule) : Ossl (Bool × RandModule) := do
  let spec := buildFetchSpec config
  let parent ← .perform (fetch spec.parentName spec.parentPropq)
  let m := { m with parent }
  match parent with
  | none => .ret (false, recordError m)
  | some parent => buildParent config parent m

/-- `CleanupRandResources` -/
def cleanupRandResources (m : RandModule) : Ossl RandModule := do
  let m ← freeRandCtx m
  let m ← freeParentCtx m
  let m ← freeDrbg m
  freeParent m

/-- `CleanupProviders` -/
def cleanupProviders (m : RandModule) : Ossl RandModule := do
  freeAny .providerUnload m.customProvider
  freeAny .providerUnload m.fipsProvider
  freeAny .providerUnload m.defaultProvider
  .ret { m with customProvider := none, fipsProvider := none, defaultProvider := none }

/-! ## Under the mutex -/

/-- The failure of `RandInit` before the chain. -/
def failInit (m : RandModule) : Ossl (Except CcsecCryptErrorCode Unit × RandModule) := do
  let m ← cleanupProviders m
  .ret (.error .error, m)

/-- `RandInit` once the parent is known to be available. -/
def initChain (config : RandConfig) (m : RandModule) :
    Ossl (Except CcsecCryptErrorCode Unit × RandModule) := do
  let (built, m) ← buildRandChain config m
  if ¬ built then do
    let m ← cleanupProviders m
    let m ← cleanupRandResources m
    .ret (.error .error, m)
  else do
    let now ← .perform OsslCall.nowMs
    .ret (.ok (), { m with
      errorCount := 0
      healthCheckInterval := config.healthCheckInterval
      lastHealthCheckMs := now
      activeConfig := config
      initialized := true })

/-- `RandInit` under `g_initMutex`. -/
def initLocked (config : RandConfig) (m : RandModule) :
    Ossl (Except CcsecCryptErrorCode Unit × RandModule) :=
  if m.initialized then .ret (.ok (), m)
  else
    let valid := validateConfig config m
    if ¬ valid.1 then .ret (.error .paramInvalid, valid.2)
    else do
      let (prepared, m) ← prepareProviders config valid.2
      if ¬ prepared then failInit m
      else do
        let (available, m) ← validateParentRandAvailable config m
        if ¬ available then failInit m
        else initChain config m

/-- `EVP_RAND_STATE_READY` -/
def evpRandStateReady : Int32 := 1

/-- The periodic check of `GetRand`. -/
def healthCheck (ctx : Nat) (m : RandModule) : Ossl (Bool × RandModule) :=
  if m.healthCheckInterval = 0 then .ret (true, m)
  else do
    let now ← .perform OsslCall.nowMs
    if now - m.lastHealthCheckMs < m.healthCheckInterval.toUInt64.toInt64 then .ret (true, m)
    else do
      let state ← .perform (OsslCall.evpRandGetState ctx)
      if state ≠ evpRandStateReady then .ret (false, recordError m)
      else .ret (true, { m with lastHealthCheckMs := now })

/-- `GetRand` under `g_initMutex`, once: nothing where it is to try again. -/
def attempt (len : UInt32) (m : RandModule) :
    Ossl (Option (Except CcsecCryptErrorCode Bytes) × RandModule) :=
  match m.initialized, m.randCtx with
  | true, some ctx => do
    let (healthy, m) ← healthCheck ctx m
    if ¬ healthy then .ret (some (.error .error), m)
    else do
      let (result, source) ← .perform (OsslCall.evpRandGenerate ctx len
        m.activeConfig.securityStrength m.activeConfig.predictionResistance)
      if result ≠ 1 then .ret (some (.error .error), recordError m)
      else .ret (some (.ok (stream source len.toNat)), m)
  | _, _ => .ret (none, m)

/-- `RandDeinit` under `g_initMutex`. -/
def deinitLocked (m : RandModule) : Ossl (Unit × RandModule) := do
  let m ← cleanupRandResources m
  let m ← cleanupProviders m
  .ret ((), { m with
    initialized := false
    errorCount := 0
    healthCheckInterval := 0
    lastHealthCheckMs := 0
    activeConfig := {} })

/-! ## The calls -/

/-- What a call does without interruption: it reads `g_initialized`, or it holds
`g_initMutex`. -/
inductive RandAction
  | loadInitialized
  | init (config : RandConfig)
  | attempt (len : UInt32)
  | deinit

abbrev RandAction.Reply : RandAction → Type
  | loadInitialized => Bool
  | init _ => Except CcsecCryptErrorCode Unit
  | attempt _ => Option (Except CcsecCryptErrorCode Bytes)
  | deinit => Unit

/-- What an action does. -/
def RandAction.locked (m : RandModule) : (a : RandAction) → Ossl (a.Reply × RandModule)
  | loadInitialized => .ret (m.initialized, m)
  | init config => initLocked config m
  | attempt len => Rand.attempt len m
  | deinit => deinitLocked m

/-- A counter that has come round: the loop never ends. -/
inductive RandFault
  | diverges

/-- A call of the module, over its actions. -/
abbrev Rnd (α : Type) := Prog RandAction RandAction.Reply RandFault α

/-- `RandInit` -/
def randInit (config : RandConfig) : Rnd (Except CcsecCryptErrorCode Unit) := do
  let initialized ← .perform RandAction.loadInitialized
  if initialized then .ret (.ok ())
  else .perform (RandAction.init config)

/-- `EnsureRandReady` -/
def ensureRandReady : Rnd (Except CcsecCryptErrorCode Unit) := do
  let initialized ← .perform RandAction.loadInitialized
  if initialized then .ret (.ok ())
  else do
    let result ← randInit {}
    match result with
    | .error _ => .ret (.error .error)
    | .ok _ => .ret (.ok ())

/-- The loop of `GetRand`, for so many attempts. -/
def getRandLoop (len : UInt32) : Nat → Rnd (Except CcsecCryptErrorCode Bytes)
  | 0 => .ret (.error .error)
  | attempts + 1 => do
    let ready ← ensureRandReady
    match ready with
    | .error _ => getRandLoop len attempts
    | .ok _ => do
      let result ← .perform (RandAction.attempt len)
      match result with
      | none => getRandLoop len attempts
      | some result => .ret result

/-- `MAX_RAND_LEN` and `MAX_GET_RAND_ATTEMPTS` -/
def maxRandLen : UInt32 := 65536
def maxGetRandAttempts : Nat := 1000

/-- `GetRand`, with a buffer or without, and what it has put there. -/
def getRand (randBuff : Bool) (randDataLength : UInt32) : Rnd (Except CcsecCryptErrorCode Bytes) :=
  if ¬ randBuff then .ret (.error .paramInvalid)
  else if randDataLength < 1 ∨ maxRandLen < randDataLength then .ret (.error .paramInvalid)
  else getRandLoop randDataLength maxGetRandAttempts

/-- `RandDeinit` -/
def randDeinit : Rnd Unit := .perform RandAction.deinit

/-! ## Passwords -/

/-- `PWD_ALL_CHARS` -/
def pwdAllChars : Bytes :=
  ascii "0123456789abcdefghijklmnopqrstuvwxyzABCDEFGHIJKLMNOPQRSTUVWXYZ" ++
    ascii "\x60~!@#$%^&*()-_=+\\|[]\x7b\x7d;:\x27\" ,<.>/?"

/-- The bit of a character's `CharType`. -/
def charType (c : UInt8) : UInt8 :=
  if 48 ≤ c ∧ c ≤ 57 then (1 : UInt8) <<< 0
  else if 97 ≤ c ∧ c ≤ 122 then (1 : UInt8) <<< 1
  else if 65 ≤ c ∧ c ≤ 90 then (1 : UInt8) <<< 2
  else (1 : UInt8) <<< 3

/-- `HasMultipleCharTypes` -/
def hasMultipleCharTypes (pwd : Bytes) : Bool :=
  let types := pwd.foldl (fun types c => types ||| charType c) 0
  types &&& (types - 1) ≠ 0

/-- The 64-bit number of a block of the random bytes. -/
def randValue (block : Bytes) : UInt64 := block.foldl (fun value b => value <<< 8 ||| b.toUInt64) 0

/-- The characters that the random bytes choose. -/
def pwdChars (enhancedRand : Bytes) (pwdLength : Nat) : Bytes :=
  (List.range pwdLength).map fun pwdIdx =>
    pwdAllChars.getD (randValue (slice enhancedRand (pwdIdx * 8) 8) %
      UInt64.ofNat pwdAllChars.length).toNat 0

/-- The loop of `GetSecurePwd`, for so many rounds. -/
def securePwdLoop (pwdLength retryTimes : UInt32) :
    Nat → UInt32 → Bytes → Rnd (Except CcsecCryptErrorCode Unit × Bytes)
  | 0, _, _ => .halt .diverges
  | rounds + 1, retry, pwdBuff =>
    if retry < retryTimes then do
      let enhancedRand ← getRand true (pwdLength * 8)
      match enhancedRand with
      | .error _ => securePwdLoop pwdLength retryTimes rounds (retry + 1) pwdBuff
      | .ok enhancedRand =>
        let pwd := pwdChars enhancedRand pwdLength.toNat
        let pwdBuff := writeAt pwdBuff 0 pwd
        if hasMultipleCharTypes pwd then .ret (.ok (), pwdBuff)
        else securePwdLoop pwdLength retryTimes rounds (retry + 1) pwdBuff
    else .ret (.error .error, writeAt pwdBuff 0 (List.replicate pwdLength.toNat 0))

/-- `GetSecurePwd`, with what it leaves in the buffer. After 2^32 rounds the counter has been
everywhere. -/
def getSecurePwd (pwdBuff : Option Bytes) (pwdLength retryTimes : UInt32) :
    Rnd (Except CcsecCryptErrorCode Unit × Option Bytes) :=
  match pwdBuff with
  | none => .ret (.error .paramInvalid, none)
  | some pwdBuff =>
    if pwdLength < 8 ∨ 32 < pwdLength then .ret (.error .paramInvalid, some pwdBuff)
    else if retryTimes = 0 then .ret (.error .paramInvalid, some pwdBuff)
    else do
      let result ← securePwdLoop pwdLength retryTimes (2 ^ 32) 0 pwdBuff
      .ret (result.1, some result.2)

/-- A call of the module, with its arguments. -/
inductive RandCall
  | randInit (config : RandConfig)
  | getRand (randBuff : Bool) (randDataLength : UInt32)
  | getSecurePwd (pwdBuff : Option Bytes) (pwdLength retryTimes : UInt32)
  | randDeinit

/-- A call for what it does to the module: its result is dropped. -/
def RandCall.code : RandCall → Rnd Unit
  | randInit config => Rand.randInit config >>= fun _ => .ret ()
  | getRand randBuff randDataLength => Rand.getRand randBuff randDataLength >>= fun _ => .ret ()
  | getSecurePwd pwdBuff pwdLength retryTimes =>
    Rand.getSecurePwd pwdBuff pwdLength retryTimes >>= fun _ => .ret ()
  | randDeinit => Rand.randDeinit

end CdfCrypto.Rand
