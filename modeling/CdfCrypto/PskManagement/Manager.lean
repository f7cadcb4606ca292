import CdfCrypto.Lib.Run
import CdfCrypto.Lib.TwoWay
import CdfCrypto.PskManagement.Token
import Std.Data.ExtTreeMap

/-!
# `PskManager`

The manager's state and its operations as the source computes them. An
operation takes the `World` that answers during the call and gives the next
state with a `Reply`: the result code, the `Psk` written to the caller's
reference if one was, and the callback invocations made. `none` is a process
that ends inside the call (see `formatTime`).

Every call is one atomic step: the whole body of each operation runs under
`rwMutex_`.

`std::map::emplace` and `std::map::insert` leave an existing key as it is, so
they are `insertIfNew`. `GeneratePsk` and `ImportPsk` share their tail,
`storeCreatedPsk`, and they and `LoadAllPsk` share `addPsk`.

What a call can do to the state is said once for each operation, in the
`_cases` lemmas at the end; the results about runs never unfold an operation.
-/

namespace CdfCrypto.PskManagement

open Lib

structure PskManager where
  options : PsKManagerInitOptions := {}
  initCount : Int := 0
  pskContentMap : Std.ExtTreeMap Bytes Nat compare := ∅
  pskIdMap : Std.ExtTreeMap Nat Psk compare := ∅
  curPskMaxId : Nat := 1

/-- What one call hands back and what it triggered. -/
structure Reply where
  rc : PskManagerRC
  psk : Option Psk := none
  calls : List CallbackCall := []

abbrev Outcome := Option (PskManager × Reply)

/-- The callbacks of a call that answered `OK`. -/
def acknowledged (w : World) (r : Reply) : List CallbackCall :=
  r.calls.filter fun call => w.trigger call = .ok

/-- A call that ends with `rc` and does nothing else. -/
def answer (s : PskManager) (rc : PskManagerRC) : Outcome := some (s, { rc })

/-- Arithmetic of `std::atomic<int>`. -/
def wrapInt32 (n : Int) : Int := n.bmod (2 ^ 32)

namespace PskManager

def checkInited (s : PskManager) : Bool := 0 < s.initCount

end PskManager

/-! ## Init and UnInit -/

/-- `KeyManagerFactory::Borrow` returns an object. -/
def borrows : KeyManagerTy → Bool
  | .openbao => true
  | .vault => true
  | .unknown => false

def validateInitOptions (w : World) (opt : PsKManagerInitOptions) : PskManagerRC :=
  if opt.algType ≠ .aes256Gcm ∧ opt.algType ≠ .chacha20Poly1305 then .invalidParam
  else if opt.keyManagerType ≠ .openbao ∧ opt.keyManagerType ≠ .vault then .invalidParam
  else
    match opt.exePath with
    | none => .invalidParam
    | some exePath =>
      if ¬ w.pathAccepted exePath then .invalidParam
      else
        match opt.accessToken with
        | none => .invalidParam
        | some accessToken =>
          if accessToken = [] then .invalidParam
          else if opt.domainCount ≤ opt.domainId then .invalidParam
          else if opt.pskMaxCount < pskMaxCountLimitMin ∨ pskMaxCountLimitMax < opt.pskMaxCount then
            .invalidParam
          else .ok

def init (w : World) (s : PskManager) (opt : PsKManagerInitOptions) : Outcome :=
  if s.checkInited then answer { s with initCount := wrapInt32 (s.initCount + 1) } .ok
  else if validateInitOptions w opt ≠ .ok then answer s (validateInitOptions w opt)
  else if ¬ borrows opt.keyManagerType then answer { s with options := opt } .error
  else if w.kmInit opt.keyManagerType (opt.exePath.getD []) (opt.accessToken.getD [])
      opt.domainCount ≠ .ok then
    answer { s with options := opt } .initFailed
  else answer { s with options := opt, initCount := wrapInt32 (s.initCount + 1) } .ok

def unInit (w : World) (s : PskManager) : Outcome :=
  let initCount := wrapInt32 (s.initCount - 1)
  if initCount < 0 then answer { s with initCount := 0 } .ok
  else if 0 < initCount then answer { s with initCount } .ok
  else if ¬ borrows s.options.keyManagerType then answer { s with initCount } .error
  else if w.kmUnInit s.options.keyManagerType ≠ .ok then answer { s with initCount } .initFailed
  else answer { initCount } .ok

/-! ## Building and encrypting a PSK -/

def validPskLength (pskLength : Nat) : Bool :=
  pskLength = pskLength256 ∨ pskLength = pskLength384 ∨ pskLength = pskLength512

/-- The bounds both parameter checks apply; they differ in the count they
compare with the limit. -/
def validateFields (count : Nat) (options : PsKManagerInitOptions) (issuer subject : Bytes)
    (pskLength validDays : Nat) : PskManagerRC :=
  if options.pskMaxCount < count then .invalidParam
  else if issuer.length < pskIssuerLengthMin ∨ pskIssuerLengthMax < issuer.length then .invalidParam
  else if subject.length < pskSubjectLengthMin ∨ pskSubjectLengthMax < subject.length then
    .invalidParam
  else if ¬ validPskLength pskLength then .invalidParam
  else if validDays < pskValidDaysMin ∨ pskValidDaysMax < validDays then .invalidParam
  else .ok

def validatePskParams (s : PskManager) (pskParam : PskParam) : PskManagerRC :=
  validateFields s.curPskMaxId s.options pskParam.issuer pskParam.subject pskParam.pskLength
    pskParam.validDays

/-- The limit is compared with the id in the metadata, not with the counter. -/
def validatePskMetaData (options : PsKManagerInitOptions) (pskMeta : PskMetaData) : PskManagerRC :=
  validateFields pskMeta.pskId options pskMeta.issuer pskMeta.subject pskMeta.pskLength
    pskMeta.validDays

/-- `validDays * DAY_TO_SECOND_TIME`, a product of two `uint32_t`. -/
def validSeconds (validDays : Nat) : Nat := validDays * dayToSecondTime % 2 ^ 32

def buildPskObj (s : PskManager) (pskParam : PskParam) (pskContent : Bytes) : Psk :=
  { pskId := s.curPskMaxId, issuer := pskParam.issuer, subject := pskParam.subject,
    pskLength := pskParam.pskLength, pskContent, validDays := pskParam.validDays,
    beginTime := pskParam.beginTime,
    endTime := pskParam.beginTime + validSeconds pskParam.validDays }

def buildPskObjWithMetaData (s : PskManager) (pskMeta : PskMetaData) (pskContent : Bytes) : Psk :=
  { pskId := s.curPskMaxId, issuer := pskMeta.issuer, subject := pskMeta.subject,
    pskLength := pskMeta.pskLength, pskContent, validDays := pskMeta.validDays,
    beginTime := pskMeta.beginTime, endTime := pskMeta.endTime }

def generatePskContent (w : World) (pskLength : Nat) : Except PskManagerRC Bytes :=
  if pskLength = 0 then .error .invalidParam
  else
    match w.randomDev pskLength with
    | none => .error .error
    | some pskContent => if pskContent.length ≠ pskLength then .error .error else .ok pskContent

def encryptPskToken (w : World) (options : PsKManagerInitOptions) (pskToken : Bytes) :
    Except PskManagerRC Bytes :=
  match w.encrypt options.keyManagerType options.algType pskToken options.domainId with
  | (.ok, cipher) => .ok cipher
  | _ => .error .encryptoFail

def decryptPskCiphertext (w : World) (i : Nat) (options : PsKManagerInitOptions)
    (pskCiphertext : Bytes) : Except PskManagerRC Bytes :=
  match w.decrypt i options.keyManagerType options.algType pskCiphertext options.domainId with
  | (.ok, plaintext) => .ok plaintext
  | _ => .error .decryptoFail

def buildAndEncryptPskToken (H : Host) (w : World) (options : PsKManagerInitOptions) (psk : Psk) :
    Option (Except PskManagerRC Bytes) :=
  match constructPskMetaJsonString H psk with
  | none => none
  | some pskMetaJson => some (encryptPskToken w options (concatenatePskToken psk.pskContent pskMetaJson))

/-- An unregistered callback is skipped; a registered one is invoked and any
result of its own other than `OK` is reported as one code. -/
def triggerCallback (w : World) (id : PskCallBackType) (call : CallbackCall) :
    PskManagerRC × List CallbackCall :=
  if ¬ w.registered id then (.ok, [])
  else if w.trigger call ≠ .ok then (.callBackExecuteFailed, [call])
  else (.ok, [call])

def triggerCreatePskCallback (w : World) (pskId : Nat) (encryptedPskToken : Bytes) :=
  triggerCallback w .createPsk (.create pskId encryptedPskToken)

def triggerUpdatePskCallback (w : World) (pskId : Nat) (encryptedPskToken : Bytes) :=
  triggerCallback w .updatePsk (.update pskId encryptedPskToken)

def triggerDeletePskCallback (w : World) (pskId : Nat) :=
  triggerCallback w .deletePsk (.delete pskId)

/-! ## Creating, importing and deleting -/

/-- Both maps take the PSK unless they hold its key already, and the counter
moves on. -/
def PskManager.addPsk (s : PskManager) (psk : Psk) : PskManager :=
  { s with
    pskContentMap := s.pskContentMap.insertIfNew psk.pskContent psk.pskId
    pskIdMap := s.pskIdMap.insertIfNew psk.pskId psk
    curPskMaxId := (s.curPskMaxId + 1) % 2 ^ 32 }

/-- The tail of `GeneratePsk` and `ImportPsk`. -/
def storeCreatedPsk (H : Host) (w : World) (s : PskManager) (createPsk : Psk) : Outcome :=
  match buildAndEncryptPskToken H w s.options createPsk with
  | none => none
  | some (.error result) => answer s result
  | some (.ok encryptedPskToken) =>
    match triggerCreatePskCallback w createPsk.pskId encryptedPskToken with
    | (.ok, calls) => some (s.addPsk createPsk, { rc := .ok, psk := some createPsk, calls })
    | (_, calls) => some (s, { rc := .callBackExecuteFailed, calls })

def generatePsk (H : Host) (w : World) (s : PskManager) (pskParam : PskParam) : Outcome :=
  if ¬ s.checkInited then answer s .uninited
  else if validatePskParams s pskParam ≠ .ok then answer s (validatePskParams s pskParam)
  else
    match generatePskContent w pskParam.pskLength with
    | .error result => answer s result
    | .ok pskContent => storeCreatedPsk H w s (buildPskObj s pskParam pskContent)

def importPsk (H : Host) (w : World) (s : PskManager) (pskParam : PskParam) (pskContent : Bytes) :
    Outcome :=
  if ¬ s.checkInited then answer s .uninited
  else if validatePskParams s pskParam ≠ .ok then answer s (validatePskParams s pskParam)
  else if pskParam.pskLength ≠ pskContent.length then answer s .invalidParam
  else storeCreatedPsk H w s (buildPskObj s pskParam pskContent)

def deletePsk (w : World) (s : PskManager) (pskId : Nat) : Outcome :=
  if ¬ s.checkInited then answer s .uninited
  else
    match s.pskIdMap[pskId]? with
    | none => answer s .pskNotExist
    | some psk =>
      match triggerDeletePskCallback w pskId with
      | (.ok, calls) =>
        some ({ s with
            pskContentMap := s.pskContentMap.erase psk.pskContent
            pskIdMap := s.pskIdMap.erase pskId },
          { rc := .ok, calls })
      | (_, calls) => some (s, { rc := .callBackExecuteFailed, calls })

/-! ## Updating -/

/-- The PSK the two arguments of `UpdatePsk` denote. The length check on the
content only logs. -/
def findPrePsk (s : PskManager) (pskId : Nat) (pskContent : Bytes) : Except PskManagerRC Psk :=
  match s.pskIdMap[pskId]?, s.pskContentMap[pskContent]? with
  | some psk, some id => if psk.pskId = id then .ok psk else .error .invalidParam
  | some psk, none => .ok psk
  | none, some tempPskId =>
    match s.pskIdMap[tempPskId]? with
    | some psk => .ok psk
    | none => .error .invalidParam
  | none, none => .error .invalidParam

/-- The PSK that replaces `prePsk`: new content, and valid from now on. -/
def renewedPsk (w : World) (prePsk : Psk) (newPskContent : Bytes) : Psk :=
  { prePsk with
    pskContent := newPskContent
    beginTime := w.time
    endTime := w.time + validSeconds prePsk.validDays }

/-- Both entries of `prePsk` go, then both entries of `psk` are inserted. -/
def PskManager.replacePsk (s : PskManager) (prePsk psk : Psk) : PskManager :=
  { s with
    pskIdMap := (s.pskIdMap.erase prePsk.pskId).insertIfNew psk.pskId psk
    pskContentMap := (s.pskContentMap.erase prePsk.pskContent).insertIfNew psk.pskContent psk.pskId }

def updatePsk (H : Host) (w : World) (s : PskManager) (pskId : Nat) (pskContent : Bytes) : Outcome :=
  if ¬ s.checkInited then answer s .uninited
  else
    match findPrePsk s pskId pskContent with
    | .error result => answer s result
    | .ok prePsk =>
      match generatePskContent w prePsk.pskLength with
      | .error result => answer s result
      | .ok newPskContent =>
        let psk := renewedPsk w prePsk newPskContent
        -- the caller's reference already holds the renewed object, its content wiped
        let wiped := { psk with pskContent := [] }
        match buildAndEncryptPskToken H w s.options psk with
        | none => none
        | some (.error result) => some (s, { rc := result, psk := some wiped })
        | some (.ok encryptedPskToken) =>
          match triggerUpdatePskCallback w psk.pskId encryptedPskToken with
          | (.ok, calls) => some (s.replacePsk prePsk psk, { rc := .ok, psk := some psk, calls })
          | (_, calls) =>
            some (s, { rc := .callBackExecuteFailed, psk := some wiped, calls })

/-! ## Loading -/

/-- The maps, the counter and the options; the initialisation count stays. -/
def PskManager.clearAllData (s : PskManager) : PskManager := { initCount := s.initCount }

def decryptAndParsePskToken (H : Host) (w : World) (i : Nat) (options : PsKManagerInitOptions)
    (encryptedPskToken : Bytes) : Except PskManagerRC (Bytes × PskMetaData) :=
  match decryptPskCiphertext w i options encryptedPskToken with
  | .error result => .error result
  | .ok decryptedToken =>
    match splitPskToken decryptedToken with
    | none => .error .error
    | some (pskContent, pskMetaJson) =>
      match parsePskMetaJsonString H pskMetaJson with
      | none => .error .error
      | some pskMetaData => .ok (pskContent, pskMetaData)

/-- One element of the list: what is to be added, or the code the load ends with. -/
def loadEntry (H : Host) (w : World) (i : Nat) (options : PsKManagerInitOptions)
    (pskCiphertext : Bytes) : Except PskManagerRC (Bytes × PskMetaData) :=
  if pskCiphertext = [] then .error .invalidParam
  else
    match decryptAndParsePskToken H w i options pskCiphertext with
    | .error ret => .error ret
    | .ok (pskContent, pskMetaData) =>
      if validatePskMetaData options pskMetaData ≠ .ok then
        .error (validatePskMetaData options pskMetaData)
      else .ok (pskContent, pskMetaData)

/-- The loop of `LoadAllPsk` from index `i` on. -/
def loadLoop (H : Host) (w : World) : Nat → List Bytes → PskManager → PskManager × PskManagerRC
  | _, [], s => (s, .ok)
  | i, pskCiphertext :: pskList, s =>
    match loadEntry H w i s.options pskCiphertext with
    | .error ret => (s, ret)
    | .ok (pskContent, pskMetaData) =>
      loadLoop H w (i + 1) pskList (s.addPsk (buildPskObjWithMetaData s pskMetaData pskContent))

def loadAllPsk (H : Host) (w : World) (s : PskManager) (pskList : List Bytes) : Outcome :=
  if ¬ s.checkInited then answer s .uninited
  else if pskList = [] then answer s .invalidParam
  else
    let (s, rc) := loadLoop H w 0 pskList s.clearAllData
    answer s rc

/-- The elements a load adds: those before the first it rejects. -/
def loadedEntries (H : Host) (w : World) (options : PsKManagerInitOptions) :
    Nat → List Bytes → List (Bytes × PskMetaData)
  | _, [] => []
  | i, pskCiphertext :: pskList =>
    match loadEntry H w i options pskCiphertext with
    | .error _ => []
    | .ok entry => entry :: loadedEntries H w options (i + 1) pskList

/-- What the loop does with one accepted element. -/
def PskManager.addEntry (s : PskManager) (entry : Bytes × PskMetaData) : PskManager :=
  s.addPsk (buildPskObjWithMetaData s entry.2 entry.1)

/-! ## Calls -/

inductive Call
  | init (opt : PsKManagerInitOptions)
  | unInit
  | generatePsk (pskParam : PskParam)
  | importPsk (pskParam : PskParam) (pskContent : Bytes)
  | updatePsk (pskId : Nat) (pskContent : Bytes)
  | deletePsk (pskId : Nat)
  | loadAllPsk (pskList : List Bytes)

def exec (H : Host) (w : World) (s : PskManager) : Call → Outcome
  | .init opt => init w s opt
  | .unInit => unInit w s
  | .generatePsk pskParam => generatePsk H w s pskParam
  | .importPsk pskParam pskContent => importPsk H w s pskParam pskContent
  | .updatePsk pskId pskContent => updatePsk H w s pskId pskContent
  | .deletePsk pskId => deletePsk w s pskId
  | .loadAllPsk pskList => loadAllPsk H w s pskList

/-- One call, with whatever the environment answers. -/
def step (H : Host) (s : PskManager) (l : Call × World) (s' : PskManager) : Prop :=
  ∃ r, exec H l.2 s l.1 = some (s', r)

/-- The state after a list of calls, if none of them ends the process. -/
def execAll (H : Host) : List (Call × World) → PskManager → Option PskManager
  | [], s => some s
  | (call, w) :: ls, s =>
    match exec H w s call with
    | none => none
    | some (s', _) => execAll H ls s'

theorem run_of_execAll {H : Host} : ∀ {ls : List (Call × World)} {s s' : PskManager},
    execAll H ls s = some s' → Run (step H) s ls s'
  | [], s, s', h => by
    cases h
    exact Run.nil s
  | (call, w) :: ls, s, s', h => by
    unfold execAll at h
    split at h
    · cases h
    · next s₁ r hexec => exact Run.cons ⟨r, hexec⟩ (run_of_execAll h)

/-! ## What a call can do -/

@[simp] theorem PskManager.addPsk_options (s : PskManager) (psk : Psk) :
    (s.addPsk psk).options = s.options := rfl

@[simp] theorem PskManager.addPsk_initCount (s : PskManager) (psk : Psk) :
    (s.addPsk psk).initCount = s.initCount := rfl

/-- A replaced PSK is found under its id, and every other under its own. -/
theorem PskManager.replacePsk_getElem? {s : PskManager} {prePsk psk : Psk}
    (hpsk : psk.pskId = prePsk.pskId) (id : Nat) :
    (s.replacePsk prePsk psk).pskIdMap[id]? =
      Function.update (fun id : Nat => s.pskIdMap[id]?) prePsk.pskId (some psk) id := by
  have hnew : (s.pskIdMap.erase prePsk.pskId)[psk.pskId]? = none := by simp [hpsk]
  simp only [PskManager.replacePsk]
  rw [getElem?_insertIfNew_of_new hnew, Std.ExtTreeMap.getElem?_erase, hpsk]
  by_cases hid : prePsk.pskId = id
  · simp [hid]
  · simp [hid, Ne.symm hid]

/-- The options `Init` accepts. -/
theorem validateInitOptions_ok {w : World} {opt : PsKManagerInitOptions}
    (h : validateInitOptions w opt = .ok) :
    (opt.algType = .aes256Gcm ∨ opt.algType = .chacha20Poly1305) ∧
    (opt.keyManagerType = .openbao ∨ opt.keyManagerType = .vault) ∧
    opt.domainId < opt.domainCount ∧
    pskMaxCountLimitMin ≤ opt.pskMaxCount ∧ opt.pskMaxCount ≤ pskMaxCountLimitMax := by
  unfold validateInitOptions at h
  split at h
  · cases h
  · next halg =>
    split at h
    · cases h
    · next hty =>
      split at h
      · cases h
      · split at h
        · cases h
        · split at h
          · cases h
          · split at h
            · cases h
            · split at h
              · cases h
              · next hdomain =>
                split at h
                · cases h
                · next hcount =>
                  exact ⟨by tauto, by tauto, by omega, by omega, by omega⟩

theorem validateFields_ok {count : Nat} {options : PsKManagerInitOptions} {issuer subject : Bytes}
    {pskLength validDays : Nat} :
    validateFields count options issuer subject pskLength validDays = .ok ↔
      count ≤ options.pskMaxCount ∧
      (pskIssuerLengthMin ≤ issuer.length ∧ issuer.length ≤ pskIssuerLengthMax) ∧
      (pskSubjectLengthMin ≤ subject.length ∧ subject.length ≤ pskSubjectLengthMax) ∧
      validPskLength pskLength = true ∧
      (pskValidDaysMin ≤ validDays ∧ validDays ≤ pskValidDaysMax) := by
  unfold validateFields
  constructor
  · intro h
    split at h
    · cases h
    split at h
    · cases h
    split at h
    · cases h
    split at h
    · cases h
    split at h
    · cases h
    · next h₁ h₂ h₃ h₄ h₅ =>
      exact ⟨by omega, by omega, by omega, by simpa using h₄, by omega⟩
  · intro hboth
    obtain ⟨h₁, h₂, h₃, h₄, h₅⟩ := hboth
    rw [if_neg (by omega), if_neg (by omega), if_neg (by omega), if_neg (by simp [h₄]),
      if_neg (by omega)]

theorem generatePskContent_ok {w : World} {pskLength : Nat} {content : Bytes}
    (h : generatePskContent w pskLength = .ok content) : content.length = pskLength := by
  unfold generatePskContent at h
  split at h
  · cases h
  · split at h
    · cases h
    · split at h
      · cases h
      · next hlen =>
        cases h
        exact not_not.mp hlen

theorem generatePskContent_error {w : World} {pskLength : Nat} {rc : PskManagerRC}
    (h : generatePskContent w pskLength = .error rc) : rc ≠ .ok := by
  unfold generatePskContent at h
  split at h
  · cases h
    decide
  · split at h
    · cases h
      decide
    · split at h
      · cases h
        decide
      · cases h

theorem buildAndEncryptPskToken_error {H : Host} {w : World} {options : PsKManagerInitOptions}
    {psk : Psk} {rc : PskManagerRC}
    (h : buildAndEncryptPskToken H w options psk = some (.error rc)) : rc ≠ .ok := by
  unfold buildAndEncryptPskToken encryptPskToken at h
  split at h
  · cases h
  · split at h
    · cases h
    · cases h
      decide

/-- A successful create or import of `pskContent` in state `s`: the checks that
passed, the ciphertext the callback received, and the result. -/
structure Created (H : Host) (w : World) (s : PskManager) (pskParam : PskParam)
    (pskContent : Bytes) (cipher : Bytes) : Prop where
  inited : s.checkInited = true
  params : validatePskParams s pskParam = .ok
  length : pskParam.pskLength = pskContent.length
  encrypted : buildAndEncryptPskToken H w s.options (buildPskObj s pskParam pskContent) =
    some (.ok cipher)
  accepted : (triggerCreatePskCallback w s.curPskMaxId cipher).1 = .ok

/-- What a successful create or import hands back. -/
def createdReply (w : World) (psk : Psk) (cipher : Bytes) : Reply :=
  { rc := .ok, psk := some psk, calls := (triggerCreatePskCallback w psk.pskId cipher).2 }

/-- A callback that did not go through was not acknowledged. -/
theorem triggerCallback_refused {w : World} {id : PskCallBackType} {call : CallbackCall}
    {rc : PskManagerRC} {calls : List CallbackCall} (h : triggerCallback w id call = (rc, calls))
    (hrc : rc ≠ .ok) : calls.filter (fun call => w.trigger call = .ok) = [] := by
  unfold triggerCallback at h
  split at h
  · cases h
    exact absurd rfl hrc
  · split at h
    · next hfail =>
      cases h
      simp [hfail]
    · cases h
      exact absurd rfl hrc

/-- A registered callback that went through was invoked, and acknowledged. -/
theorem triggerCallback_accepted {w : World} {id : PskCallBackType} {call : CallbackCall}
    (hreg : w.registered id = true) (h : (triggerCallback w id call).1 = .ok) :
    (triggerCallback w id call).2 = [call] ∧ w.trigger call = .ok := by
  unfold triggerCallback at h ⊢
  rw [if_neg (by simp [hreg])] at h ⊢
  split at h
  · cases h
  · next hok =>
    have hok := not_not.mp hok
    exact ⟨by simp [hok], hok⟩

theorem storeCreatedPsk_cases {H : Host} {w : World} {s s' : PskManager} {psk : Psk} {r : Reply}
    (h : storeCreatedPsk H w s psk = some (s', r)) :
    (s' = s ∧ r.rc ≠ .ok ∧ acknowledged w r = []) ∨
    ∃ cipher, buildAndEncryptPskToken H w s.options psk = some (.ok cipher) ∧
      (triggerCreatePskCallback w psk.pskId cipher).1 = .ok ∧
      s' = s.addPsk psk ∧ r = createdReply w psk cipher := by
  unfold storeCreatedPsk at h
  split at h
  · cases h
  · next result henc =>
    cases h
    exact .inl ⟨rfl, buildAndEncryptPskToken_error henc, rfl⟩
  · next cipher henc =>
    split at h
    · next calls htrig =>
      cases h
      exact .inr ⟨cipher, henc, by rw [htrig], rfl, by simp [createdReply, htrig]⟩
    · next calls hrc htrig =>
      cases h
      exact .inl ⟨rfl, by simp, triggerCallback_refused htrig hrc⟩

theorem generatePsk_cases {H : Host} {w : World} {s s' : PskManager} {pskParam : PskParam}
    {r : Reply} (h : generatePsk H w s pskParam = some (s', r)) :
    (s' = s ∧ r.rc ≠ .ok ∧ acknowledged w r = []) ∨
    ∃ content cipher, generatePskContent w pskParam.pskLength = .ok content ∧
      Created H w s pskParam content cipher ∧
      s' = s.addPsk (buildPskObj s pskParam content) ∧
      r = createdReply w (buildPskObj s pskParam content) cipher := by
  unfold generatePsk at h
  split at h
  · cases h
    exact .inl ⟨rfl, by simp, rfl⟩
  · next hin =>
    split at h
    · next hv =>
      cases h
      exact .inl ⟨rfl, hv, rfl⟩
    · next hv =>
      split at h
      · next result hgen =>
        cases h
        exact .inl ⟨rfl, generatePskContent_error hgen, rfl⟩
      · next content hgen =>
        rcases storeCreatedPsk_cases h with hfail | ⟨cipher, henc, htrig, hs, hr⟩
        · exact .inl hfail
        · exact .inr ⟨content, cipher, hgen,
            ⟨by simpa using hin, by simpa using hv, (generatePskContent_ok hgen).symm, henc, htrig⟩,
            hs, hr⟩

theorem importPsk_cases {H : Host} {w : World} {s s' : PskManager} {pskParam : PskParam}
    {content : Bytes} {r : Reply} (h : importPsk H w s pskParam content = some (s', r)) :
    (s' = s ∧ r.rc ≠ .ok ∧ acknowledged w r = []) ∨
    ∃ cipher, Created H w s pskParam content cipher ∧
      s' = s.addPsk (buildPskObj s pskParam content) ∧
      r = createdReply w (buildPskObj s pskParam content) cipher := by
  unfold importPsk at h
  split at h
  · cases h
    exact .inl ⟨rfl, by simp, rfl⟩
  · next hin =>
    split at h
    · next hv =>
      cases h
      exact .inl ⟨rfl, hv, rfl⟩
    · next hv =>
      split at h
      · cases h
        exact .inl ⟨rfl, by simp, rfl⟩
      · next hlen =>
        rcases storeCreatedPsk_cases h with hfail | ⟨cipher, henc, htrig, hs, hr⟩
        · exact .inl hfail
        · exact .inr ⟨cipher, ⟨by simpa using hin, by simpa using hv, by simpa using hlen, henc,
            htrig⟩, hs, hr⟩

theorem importPsk_of_created {H : Host} {w : World} {s : PskManager} {pskParam : PskParam}
    {content cipher : Bytes} (h : Created H w s pskParam content cipher) :
    importPsk H w s pskParam content =
      some (s.addPsk (buildPskObj s pskParam content),
        createdReply w (buildPskObj s pskParam content) cipher) := by
  have haccepted := h.accepted
  unfold importPsk storeCreatedPsk createdReply
  rw [if_neg (by simp [h.inited]), if_neg (by simp [h.params]), if_neg (by simp [h.length]),
    h.encrypted]
  simp only [buildPskObj] at haccepted ⊢
  split
  · next calls htrig => rw [htrig]
  · next calls hrc htrig =>
    rw [htrig] at haccepted
    exact absurd haccepted hrc

theorem findPrePsk_error {s : PskManager} {pskId : Nat} {content : Bytes} {rc : PskManagerRC}
    (h : findPrePsk s pskId content = .error rc) : rc = .invalidParam := by
  unfold findPrePsk at h
  split at h
  · split at h <;> cases h
    rfl
  · cases h
  · split at h <;> cases h
    rfl
  · cases h
    rfl

/-- The PSK `UpdatePsk` renews is one the id map holds. -/
theorem findPrePsk_ok {s : PskManager} {pskId : Nat} {content : Bytes} {prePsk : Psk}
    (h : findPrePsk s pskId content = .ok prePsk) : ∃ id : Nat, s.pskIdMap[id]? = some prePsk := by
  unfold findPrePsk at h
  split at h
  · next hid _ =>
    split at h <;> cases h
    exact ⟨_, hid⟩
  · next hid _ =>
    cases h
    exact ⟨_, hid⟩
  · split at h
    · next hid =>
      cases h
      exact ⟨_, hid⟩
    · cases h
  · cases h

theorem updatePsk_cases {H : Host} {w : World} {s s' : PskManager} {pskId : Nat} {content : Bytes}
    {r : Reply} (h : updatePsk H w s pskId content = some (s', r)) :
    (s' = s ∧ r.rc ≠ .ok ∧ acknowledged w r = []) ∨
    ∃ prePsk newContent cipher, s.checkInited = true ∧ findPrePsk s pskId content = .ok prePsk ∧
      generatePskContent w prePsk.pskLength = .ok newContent ∧
      buildAndEncryptPskToken H w s.options (renewedPsk w prePsk newContent) = some (.ok cipher) ∧
      (triggerUpdatePskCallback w prePsk.pskId cipher).1 = .ok ∧
      s' = s.replacePsk prePsk (renewedPsk w prePsk newContent) ∧ r.rc = .ok ∧
      r.calls = (triggerUpdatePskCallback w prePsk.pskId cipher).2 ∧
      r.psk = some (renewedPsk w prePsk newContent) := by
  unfold updatePsk at h
  split at h
  · cases h
    exact .inl ⟨rfl, by simp, rfl⟩
  · next hin =>
    split at h
    · next result hfind =>
      cases h
      exact .inl ⟨rfl, by rw [findPrePsk_error hfind]; decide, rfl⟩
    · next prePsk hfind =>
      split at h
      · next result hgen =>
        cases h
        exact .inl ⟨rfl, generatePskContent_error hgen, rfl⟩
      · next newContent hgen =>
        dsimp only at h
        split at h
        · cases h
        · next result henc =>
          cases h
          exact .inl ⟨rfl, buildAndEncryptPskToken_error henc, rfl⟩
        · next cipher henc =>
          split at h
          · next calls htrig =>
            cases h
            exact .inr ⟨prePsk, newContent, cipher, by simpa using hin, hfind, hgen, henc,
              by rw [show prePsk.pskId = (renewedPsk w prePsk newContent).pskId from rfl, htrig],
              rfl, rfl,
              by rw [show prePsk.pskId = (renewedPsk w prePsk newContent).pskId from rfl, htrig], rfl⟩
          · next calls hrc htrig =>
            cases h
            exact .inl ⟨rfl, by simp, triggerCallback_refused htrig hrc⟩

theorem deletePsk_cases {w : World} {s s' : PskManager} {pskId : Nat} {r : Reply}
    (h : deletePsk w s pskId = some (s', r)) :
    (s' = s ∧ r.rc ≠ .ok ∧ acknowledged w r = []) ∨
    ∃ psk, s.checkInited = true ∧ s.pskIdMap[pskId]? = some psk ∧
      (triggerDeletePskCallback w pskId).1 = .ok ∧
      s' = { s with pskContentMap := s.pskContentMap.erase psk.pskContent
                    pskIdMap := s.pskIdMap.erase pskId } ∧ r.rc = .ok ∧
      r.calls = (triggerDeletePskCallback w pskId).2 := by
  unfold deletePsk at h
  split at h
  · cases h
    exact .inl ⟨rfl, by simp, rfl⟩
  · next hin =>
    split at h
    · cases h
      exact .inl ⟨rfl, by simp, rfl⟩
    · next psk hpsk =>
      split at h
      · next calls htrig =>
        cases h
        exact .inr ⟨psk, by simpa using hin, hpsk, by rw [htrig], rfl, rfl, by rw [htrig]⟩
      · next calls hrc htrig =>
        cases h
        exact .inl ⟨rfl, by simp, triggerCallback_refused htrig hrc⟩

theorem loadEntry_error {H : Host} {w : World} {i : Nat} {options : PsKManagerInitOptions}
    {cipher : Bytes} {rc : PskManagerRC} (h : loadEntry H w i options cipher = .error rc) :
    rc ≠ .ok := by
  unfold loadEntry at h
  split at h
  · cases h
    decide
  · split at h
    · next hdec =>
      cases h
      unfold decryptAndParsePskToken decryptPskCiphertext at hdec
      split at hdec
      · next hd =>
        cases hdec
        split at hd
        · cases hd
        · cases hd
          decide
      · split at hdec
        · cases hdec
          decide
        · split at hdec
          · cases hdec
            decide
          · cases hdec
    · split at h
      · next hv =>
        cases h
        exact hv
      · cases h

/-- The loop adds the accepted elements in order. -/
theorem loadLoop_state (H : Host) (w : World) : ∀ (pskList : List Bytes) (i : Nat) (s : PskManager),
    (loadLoop H w i pskList s).1 =
      (loadedEntries H w s.options i pskList).foldl PskManager.addEntry s
  | [], _, _ => rfl
  | pskCiphertext :: pskList, i, s => by
    cases hentry : loadEntry H w i s.options pskCiphertext with
    | error ret => simp [loadLoop, loadedEntries, hentry]
    | ok entry =>
      simp only [loadLoop, loadedEntries, hentry, List.foldl_cons]
      rw [loadLoop_state H w pskList, PskManager.addPsk_options]
      rfl

/-- The load succeeds exactly when no element is rejected. -/
theorem loadLoop_ok (H : Host) (w : World) : ∀ (pskList : List Bytes) (i : Nat) (s : PskManager),
    (loadLoop H w i pskList s).2 = .ok ↔
      (loadedEntries H w s.options i pskList).length = pskList.length
  | [], _, _ => by simp [loadLoop, loadedEntries]
  | pskCiphertext :: pskList, i, s => by
    cases hentry : loadEntry H w i s.options pskCiphertext with
    | error ret => simp [loadLoop, loadedEntries, hentry, loadEntry_error hentry]
    | ok entry =>
      simp only [loadLoop, loadedEntries, hentry, List.length_cons]
      rw [loadLoop_ok H w pskList, PskManager.addPsk_options]
      omega

/-- A load formats no time, so it always returns. -/
theorem loadAllPsk_returns (H : Host) (w : World) (s : PskManager) (pskList : List Bytes) :
    ∃ p, loadAllPsk H w s pskList = some p := by
  unfold loadAllPsk answer
  split
  · exact ⟨_, rfl⟩
  · split
    · exact ⟨_, rfl⟩
    · exact ⟨_, rfl⟩

theorem loadAllPsk_cases {H : Host} {w : World} {s s' : PskManager} {pskList : List Bytes}
    {r : Reply} (h : loadAllPsk H w s pskList = some (s', r)) :
    (s' = s ∧ r.rc ≠ .ok ∧ ¬ (s.checkInited = true ∧ pskList ≠ [])) ∨
    (s.checkInited = true ∧ pskList ≠ [] ∧
      s' = (loadedEntries H w {} 0 pskList).foldl PskManager.addEntry s.clearAllData ∧
      (r.rc = .ok ↔ (loadedEntries H w {} 0 pskList).length = pskList.length)) := by
  unfold loadAllPsk at h
  split at h
  · next hin =>
    cases h
    exact .inl ⟨rfl, by simp, fun hgo => by simp [hgo.1] at hin⟩
  · next hin =>
    split at h
    · next hnil =>
      cases h
      exact .inl ⟨rfl, by simp, fun hgo => hgo.2 hnil⟩
    · next hnil =>
      cases h
      exact .inr ⟨by simpa using hin, hnil, loadLoop_state H w pskList 0 _, loadLoop_ok H w pskList 0 _⟩

/-- The ids after a load of `n` elements: the counter started at 1, and every PSK
is stored under its own id. -/
structure LoadedIds (s : PskManager) (n : Nat) : Prop where
  counter : s.curPskMaxId = (1 + n) % 2 ^ 32
  ids : ∀ (i : Nat) (psk : Psk), s.pskIdMap[i]? = some psk →
    psk.pskId = i ∧ ∃ k < n, i = (1 + k) % 2 ^ 32

theorem loadedIds_clearAllData (s : PskManager) : LoadedIds s.clearAllData 0 where
  counter := rfl
  ids i psk h := by simp [PskManager.clearAllData] at h

theorem LoadedIds.addEntry {s : PskManager} {n : Nat} (h : LoadedIds s n)
    (entry : Bytes × PskMetaData) : LoadedIds (s.addEntry entry) (n + 1) where
  counter := by
    simp only [PskManager.addEntry, PskManager.addPsk, h.counter]
    omega
  ids i psk hi := by
    rcases getElem?_insertIfNew_some hi with ⟨rfl, rfl⟩ | hi
    · exact ⟨rfl, n, by omega, h.counter⟩
    · obtain ⟨hid, k, hk, heq⟩ := h.ids i psk hi
      exact ⟨hid, k, by omega, heq⟩

theorem LoadedIds.foldl : ∀ (entries : List (Bytes × PskMetaData)) {s : PskManager} {n : Nat},
    LoadedIds s n → LoadedIds (entries.foldl PskManager.addEntry s) (n + entries.length)
  | [], _, _, h => h
  | entry :: entries, s, n, h => by
    have := LoadedIds.foldl entries (h.addEntry entry)
    rwa [show n + 1 + entries.length = n + (entry :: entries).length from by simp; omega] at this

/-- `Init` leaves the maps and the counter alone. -/
theorem init_cases {w : World} {s s' : PskManager} {opt : PsKManagerInitOptions} {r : Reply}
    (h : init w s opt = some (s', r)) :
    (s.checkInited = true ∧ r.rc = .ok ∧
      s' = { s with initCount := wrapInt32 (s.initCount + 1) }) ∨
    (s.checkInited = false ∧ r.rc ≠ .ok ∧ ∃ options, s' = { s with options }) ∨
    (s.checkInited = false ∧ r.rc = .ok ∧ validateInitOptions w opt = .ok ∧
      s' = { s with options := opt, initCount := wrapInt32 (s.initCount + 1) }) := by
  unfold init at h
  split at h
  · next hin =>
    cases h
    exact .inl ⟨hin, rfl, rfl⟩
  · next hin =>
    have hin : s.checkInited = false := by simpa using hin
    split at h
    · next hv =>
      cases h
      exact .inr (.inl ⟨hin, hv, s.options, rfl⟩)
    · next hv =>
      split at h
      · cases h
        exact .inr (.inl ⟨hin, by simp, opt, rfl⟩)
      · split at h
        · cases h
          exact .inr (.inl ⟨hin, by simp, opt, rfl⟩)
        · cases h
          exact .inr (.inr ⟨hin, rfl, not_not.mp hv, rfl⟩)

/-- `UnInit` either only counts or, on the last count, clears everything. -/
theorem unInit_cases {w : World} {s s' : PskManager} {r : Reply} (h : unInit w s = some (s', r)) :
    (¬ (wrapInt32 (s.initCount - 1) = 0 ∧ r.rc = .ok) ∧ ∃ initCount, s' = { s with initCount }) ∨
    (wrapInt32 (s.initCount - 1) = 0 ∧ r.rc = .ok ∧ s' = {}) := by
  unfold unInit at h
  dsimp only at h
  split at h
  · next hneg =>
    cases h
    exact .inl ⟨fun hc => by omega, _, rfl⟩
  · next hneg =>
    split at h
    · next hpos =>
      cases h
      exact .inl ⟨fun hc => by omega, _, rfl⟩
    · next hpos =>
      have hzero : wrapInt32 (s.initCount - 1) = 0 := by omega
      split at h
      · cases h
        exact .inl ⟨fun hc => by simp at hc, _, rfl⟩
      · split at h
        · cases h
          exact .inl ⟨fun hc => by simp at hc, _, rfl⟩
        · cases h
          exact .inr ⟨hzero, rfl, by rw [hzero]⟩

/-! ## A small environment -/

/-- January 1970 at Greenwich, where `localtime` and `mktime` are inverse. -/
def januaryHost (json : RapidJson) : Host where
  localtime t := some
    { tmYear := 70, tmMon := 0, tmMday := t / 86400 + 1, tmHour := t / 3600 % 24,
      tmMin := t / 60 % 60, tmSec := t % 60, tmIsdst := 0 }
  mktime tm := (((tm.tmMday - 1) * 24 + tm.tmHour) * 60 + tm.tmMin) * 60 + tm.tmSec
  buffer _ := []
  json

/-- The compact text of a flat object whose strings need no escape. -/
def flatMember : Bytes × JsonValue → Bytes
  | (name, .int n) => ascii "\"" ++ name ++ ascii "\":" ++ decimalInt n
  | (name, .string v) => ascii "\"" ++ name ++ ascii "\":\"" ++ v ++ ascii "\""
  | _ => []

/-- A JSON library that writes flat objects and parses what `parse` lists. -/
def flatJson (parse : Bytes → Option JsonValue) : RapidJson where
  parse
  write
    | .object members => ascii "\x7b" ++ (ascii ",").intercalate (members.map flatMember) ++ ascii "\x7d"
    | _ => []

/-- A key manager that accepts everything, a random device that repeats one byte
and no callbacks. -/
def quietWorld : World where
  pathAccepted _ := true
  kmInit _ _ _ _ := .ok
  kmUnInit _ := .ok
  randomDev n := some (List.replicate n 7)
  encrypt _ _ plaintext _ := (.ok, plaintext)
  decrypt _ _ _ ciphertext _ := (.ok, ciphertext)
  registered _ := false
  trigger _ := .ok
  time := 0

def sampleOptions : PsKManagerInitOptions :=
  { exePath := some (ascii "/usr/bin/bao"), accessToken := some (ascii "s.token") }

def sampleParam : PskParam :=
  { issuer := ascii "ca", subject := ascii "node", pskLength := 256, beginTime := 0, validDays := 1 }

/-- The first PSK made of `sampleParam`. -/
def samplePsk : Psk := buildPskObj {} sampleParam (List.replicate 256 7)

def sampleDocument : JsonValue :=
  .object (pskMetaMembers samplePsk (ascii "1970-01-01 00:00:00") (ascii "1970-01-02 00:00:00"))

/-- The text of `sampleDocument`. -/
def sampleMetaJson : Bytes := (flatJson fun _ => none).write sampleDocument

def sampleHost : Host :=
  januaryHost (flatJson fun text => if text = sampleMetaJson then some sampleDocument else none)

end CdfCrypto.PskManagement
