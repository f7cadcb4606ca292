import CdfCrypto.Jwt.AuthServer
import CdfCrypto.KeyManagement.Header
import CdfCrypto.KeyManagement.VaultManager

/-!
# Servers that share a key manager

Every server in `INTERNAL_KEY` mode borrows the one key manager of the process, inits it in
`Start` and un-inits it in `Stop`. A started server needs it inited: to create or to validate
a token it decrypts its key, which an uninited manager refuses.

The manager does not count its users, and neither does `JwtAuthServer`, as the PSK manager does
for the same manager. `Start` leaves it inited for everybody, but the first `Stop` takes it away
from everybody. So in a run each started server finds the manager inited in every state passed if
and only if no server that uses it stops while another one does (`independent_iff_of_run`).
-/

namespace CdfCrypto.Jwt

open Lib KeyManagement OpenbaoKeyManager

/-! ## Many servers, one pair of managers -/

/-- What the managers do for one call of a server; the time, the memory and the paths are
not theirs. -/
def ManagersStep (H : KmHost) (s : Managers) (ev : JwtEvent) (s' : Managers) : Prop :=
  match ev with
  | ⟨.init km execPath accessToken domainCount, rc⟩ =>
    ∃ tr, Traces ((LifeCall.init km execPath accessToken domainCount).prog H s) tr (.ret (rc, s'))
  | ⟨.unInit km, rc⟩ => ∃ tr, Traces ((LifeCall.unInit km).prog H s) tr (.ret (.ok rc, s'))
  | ⟨.encrypt type alg plaintext d, result⟩ =>
    ∃ tr, Traces (kmCryptorEncrypt H s (borrow type) alg plaintext d) tr (.ret (result, s'))
  | ⟨.decrypt type alg ciphertext d, result⟩ =>
    s' = s ∧ ∃ tr, Traces (kmCryptorDecrypt H s (borrow type) alg ciphertext d) tr (.ret result)
  | ⟨.clockGettime, _⟩ => s' = s
  | ⟨.newChars _, _⟩ => s' = s
  | ⟨.accessPath _, _⟩ => s' = s

/-- Any number of servers, beside the managers they share. -/
structure Service where
  managers : Managers
  server : Nat → Impl := fun _ => {}

/-- A call on one of them, with the calls it makes in turn. -/
structure ServiceCall where
  id : Nat
  op : ServerOp
  tr : List JwtEvent

/-- One call that comes back. -/
def ServiceStep (O : OpensslHmac) (H : KmHost) (w : Service) (c : ServiceCall) (w' : Service) :
    Prop :=
  ∃ answer s', Exec (ManagersStep H) (c.op.prog O (w.server c.id)) w.managers c.tr
    (.ret (answer, s')) w'.managers ∧ w'.server = Function.update w.server c.id s'

/-- The server is started and keeps its key with the shared manager. -/
def Impl.UsesManager (s : Impl) : Prop :=
  s.started = true ∧ s.options.keyTransferMode = .internalKey

/-- The manager has refused to decrypt a key because it is not inited. -/
def FailsUninited : JwtEvent → Prop
  | ⟨.decrypt _ _ _ _, result⟩ => result.1 = .uninited
  | _ => False

/-- The operations on tokens. -/
def ServerOp.OnToken : ServerOp → Prop
  | createToken _ | validateToken _ => True
  | _ => False

/-- Every started server finds the manager it needs, and no operation of it on a token
fails because it does not. -/
structure Independent (O : OpensslHmac) (H : KmHost) (w : Service) : Prop where
  inited : ∀ i, (w.server i).UsesManager → w.managers.openbao.inited = true
  answered : ∀ i, (w.server i).UsesManager → ∀ op : ServerOp, op.OnToken → ∀ tr o m',
    Exec (ManagersStep H) (op.prog O (w.server i)) w.managers tr o m' →
      ∀ ev ∈ tr, ¬ FailsUninited ev

/-! ## Which calls take the manager away -/

/-- Every call but `UnInit`. -/
def KeepsManager : JwtCall → Prop
  | .unInit _ => False
  | _ => True

theorem calls_setKey (k : JwtKeyPass) (key : Option Bytes) (len : UInt32) (type : KeyManagerTy)
    (d : Nat) (alg : CryptoSymAlg) : Calls KeepsManager (k.setKey key len type d alg) := by
  unfold JwtKeyPass.setKey
  split
  · trivial
  split
  · trivial
  refine (calls_perform trivial).bind fun _ => (calls_perform trivial).bind fun _ => ?_
  split
  · trivial
  refine (calls_perform trivial).bind fun _ => ?_
  split
  · trivial
  split
  · trivial
  · trivial

theorem calls_refreshKey (k : JwtKeyPass) (key : Option Bytes) (len : UInt32) (type : KeyManagerTy)
    (d : Nat) (alg : CryptoSymAlg) : Calls KeepsManager (k.refreshKey key len type d alg) := by
  unfold JwtKeyPass.refreshKey
  split
  · trivial
  refine (calls_perform trivial).bind fun _ => ?_
  split
  · trivial
  split
  · trivial
  · exact (calls_setKey _ key len type d alg).bind fun _ => trivial

theorem calls_checkTokenExpiredTime (headerB64 : Bytes) :
    Calls KeepsManager (checkTokenExpiredTime headerB64) := by
  unfold checkTokenExpiredTime
  dsimp only
  split
  · trivial
  split
  · trivial
  · exact (calls_perform trivial).bind fun _ => (calls_ofExcept _).bind fun _ => trivial

theorem calls_checkCalculateSignature (O : OpensslHmac) (s : Impl) (algType : CryptoHmacAlg)
    (key totalB64 : Bytes) :
    Calls KeepsManager (s.checkCalculateSignature O algType key totalB64) := by
  unfold Impl.checkCalculateSignature
  split
  · trivial
  refine (calls_perform trivial).bind fun _ => ?_
  split
  · trivial
  · exact calls_ofExcept _

theorem calls_nullOrExpired {key : Bytes} {isExpired : Auth Bool}
    (h : Calls KeepsManager isExpired) : Calls KeepsManager (Impl.nullOrExpired key isExpired) := by
  unfold Impl.nullOrExpired
  split
  · trivial
  · exact h

theorem calls_isExpired (k : JwtKeyPass) : Calls KeepsManager k.isExpired :=
  (calls_perform trivial).bind fun _ => trivial

theorem calls_isOldKeyExpired (k : JwtKeyPass) : Calls KeepsManager k.isOldKeyExpired :=
  (calls_perform trivial).bind fun _ => trivial

theorem calls_validateTokenFromInternalKey (O : OpensslHmac) (s : Impl) (algType : CryptoHmacAlg)
    (sign totalB64 : Bytes) :
    Calls KeepsManager (s.validateTokenFromInternalKey O algType sign totalB64) := by
  unfold Impl.validateTokenFromInternalKey
  refine (calls_ofExcept _).bind fun key => ?_
  refine Calls.bind ?_ fun invalid => ?_
  · unfold Impl.bothNullOrExpired
    refine (calls_nullOrExpired (calls_isExpired _)).bind fun keyInvalid => ?_
    split
    · trivial
    · exact (calls_ofExcept _).bind fun oldKey => calls_nullOrExpired (calls_isOldKeyExpired _)
  split
  · trivial
  refine (calls_checkCalculateSignature O s algType key totalB64).bind fun signed => ?_
  split
  · trivial
  split
  · trivial
  refine (calls_ofExcept _).bind fun oldKey => ?_
  refine (calls_nullOrExpired (calls_isOldKeyExpired _)).bind fun oldInvalid => ?_
  split
  · trivial
  refine (calls_checkCalculateSignature O s algType oldKey totalB64).bind fun signed => ?_
  split
  · trivial
  split
  · trivial
  · trivial

theorem calls_createToken (O : OpensslHmac) (s : Impl) (opt : CDFDistAuthCreateTokenOptions) :
    Calls KeepsManager (s.createToken O opt) := by
  have hinternal : ∀ input, Calls KeepsManager (s.createTokenFromInternalKey O input) := by
    intro input
    unfold Impl.createTokenFromInternalKey
    refine (calls_ofExcept _).bind fun key => ?_
    refine (calls_nullOrExpired (calls_isExpired _)).bind fun invalid => ?_
    split
    · trivial
    refine (calls_perform trivial).bind fun result => ?_
    split
    · trivial
    · exact (calls_ofExcept _).bind fun _ => trivial
  have hinner : Calls KeepsManager (s.createInnerToken O opt) := by
    unfold Impl.createInnerToken
    dsimp only
    split
    · exact hinternal _
    · split
      · trivial
      split
      · trivial
      split
      · trivial
      · exact (calls_ofExcept _).bind fun _ => trivial
    · trivial
  unfold Impl.createToken
  dsimp only
  split
  · trivial
  refine hinner.bind fun created => ?_
  split
  · trivial
  split
  · trivial
  split
  · trivial
  · trivial

theorem calls_validateToken (O : OpensslHmac) (s : Impl) (opt : CDFDistAuthValidateTokenOptions) :
    Calls KeepsManager (s.validateToken O opt) := by
  unfold Impl.validateToken
  dsimp only
  split
  · trivial
  split
  rotate_left
  · trivial
  refine (calls_checkTokenExpiredTime _).bind fun checked => ?_
  split
  · trivial
  refine Calls.bind ?_ fun signed => ?_
  · unfold Impl.expectedSignature
    split
    · exact calls_validateTokenFromInternalKey O s _ _ _
    split
    · trivial
    split
    · trivial
    split
    · trivial
    · exact calls_ofExcept _
  · split
    · trivial
    · trivial

theorem calls_start (s : Impl) (opt : CDFDistAuthServerOptions) :
    Calls KeepsManager (s.start opt) := by
  have hvalidate : Calls KeepsManager (s.validateOptions opt) := by
    unfold Impl.validateOptions
    split
    · trivial
    split
    · trivial
    split
    · trivial
    split
    · trivial
    split
    · trivial
    refine (calls_perform trivial).bind fun _ => ?_
    split
    · trivial
    split
    · trivial
    · trivial
  unfold Impl.start
  split
  · trivial
  split
  · trivial
  refine hvalidate.bind fun validated => ?_
  split
  · trivial
  refine Calls.bind ((calls_perform trivial).bind fun _ => trivial) fun tokenHeader => ?_
  dsimp only
  split
  rotate_left
  · trivial
  split
  · trivial
  refine (calls_perform trivial).bind fun rc => ?_
  split
  · trivial
  split
  · trivial
  · trivial

/-- Only `Stop` calls `UnInit`. -/
theorem calls_prog (O : OpensslHmac) (s : Impl) {op : ServerOp} (h : op ≠ .stop) :
    Calls KeepsManager (op.prog O s) := by
  cases op with
  | start opt =>
    refine (calls_start s opt).bind fun result => ?_
    split
    · trivial
    · trivial
  | stop => exact absurd rfl h
  | refreshEncryptionKey newKey keyLen =>
    refine Calls.bind ?_ fun _ => trivial
    unfold Impl.refreshEncryptionKey
    dsimp only
    split
    · trivial
    · exact (calls_refreshKey _ newKey keyLen _ _ _).bind fun _ => trivial
  | setEncryptionKey newKey keyLen =>
    refine Calls.bind ?_ fun _ => trivial
    unfold Impl.setEncryptionKey
    dsimp only
    split
    · trivial
    split
    · trivial
    · exact (calls_setKey _ newKey keyLen _ _ _).bind fun _ => trivial
  | estimateTokenLength inputLen => trivial
  | createToken opt => exact (calls_createToken O s opt).bind fun _ => trivial
  | validateToken opt => exact (calls_validateToken O s opt).bind fun _ => trivial

/-! ## What the managers do -/

theorem checkParams_uninited_iff {m : OpenbaoKeyManager} {d : Nat} {symAlg : CryptoSymAlg} :
    m.checkEncryptAndDecryptParams d symAlg = .uninited ↔ m.inited = false := by
  unfold checkEncryptAndDecryptParams
  by_cases hinited : m.inited = true
  · rw [if_neg (by simp [hinited]), hinited]
    refine iff_of_false (fun h => ?_) (by decide)
    split at h
    · cases h
    split at h
    · cases h
    split at h
    · cases h
    split at h
    · cases h
    · cases h
  · rw [if_pos hinited]
    exact iff_of_true rfl (by simpa using hinited)

/-- **A decryption says `UNINITED`** for that reason and no other. -/
theorem decrypt_uninited_iff (H : KmHost) (m : OpenbaoKeyManager) (symAlg : CryptoSymAlg) (d : Nat)
    (ciphertext : Bytes) :
    wp (m.decrypt H symAlg d ciphertext) fun _ o =>
      ∀ rc vec, o = .ret (rc, vec) → (rc = .uninited ↔ m.inited = false) := by
  unfold OpenbaoKeyManager.decrypt
  rw [wp_locked]
  split
  next hparams =>
    intro rc vec hsame
    cases hsame
    exact checkParams_uninited_iff
  next hparams =>
  have hparams : m.checkEncryptAndDecryptParams d symAlg = .ok := not_not.mp hparams
  have hinited : m.inited ≠ false := fun hnot => by
    cases (checkParams_uninited_iff.mpr hnot).symm.trans hparams
  -- every other code is one the manager gives once it is inited
  have hother : ∀ (tr : List KmEvent) {rc : KeyManagerRC} {vec : Bytes}, rc ≠ .uninited →
      Unlocking .shared (fun _ o => ∀ rc vec, o = .ret (rc, vec) →
        (rc = .uninited ↔ m.inited = false)) tr (.ret (rc, vec)) := by
    intro tr rc vec hrc rc' vec' heq
    obtain ⟨rfl, -⟩ := Prod.mk.inj (Outcome.ret.inj heq)
    exact iff_of_false hrc hinited
  dsimp only
  split
  · exact hother [] (by decide)
  unfold parseCipherHeader
  cases readCipherHeader (bas64DecodeCipherText ciphertext) with
  | none => exact hother [] (by decide)
  | some header =>
    dsimp only
    split
    · exact hother [] fun hrc => hinited (checkParams_uninited_iff.mp hrc)
    split
    · exact hother [] (by decide)
    split
    · exact hother [] (by decide)
    split
    · exact hother [] (by decide)
    refine wp_bind_any (fun tr vec => ?_) fun _ _ => ?_
    · split
      · exact hother (tr ++ []) (by decide)
      · exact hother (tr ++ []) (by decide)
    · intro rc vec hsame
      cases hsame

theorem parseKeyManagerRC_eq_uninited {rc : KeyManagerRC} :
    parseKeyManagerRC rc = .uninited ↔ rc = .uninited := by
  cases rc <;> decide

variable {H : KmHost} {s s' : Managers}

/-- What one call does to the manager's readiness. -/
structure Effect (s : Managers) (ev : JwtEvent) (s' : Managers) : Prop where
  keeps : KeepsManager ev.1 → s.openbao.inited = true → s'.openbao.inited = true
  init : ∀ km execPath accessToken domainCount,
    ev = ⟨.init km execPath accessToken domainCount, .ok .ok⟩ → s'.openbao.inited = true
  unInit : ∀ km rc, ev = ⟨.unInit km, rc⟩ → s'.openbao.inited = false
  answers : FailsUninited ev → s.openbao.inited = false

theorem Effect.of_eq {ev : JwtEvent} (hinit : ∀ km execPath accessToken domainCount rc,
      ev ≠ ⟨.init km execPath accessToken domainCount, rc⟩)
    (hunInit : ∀ km rc, ev ≠ ⟨.unInit km, rc⟩) (hsame : s'.openbao.inited = s.openbao.inited)
    (hanswers : FailsUninited ev → s.openbao.inited = false) : Effect s ev s' where
  keeps _ h := hsame.trans h
  init _ _ _ _ h := absurd h (hinit _ _ _ _ _)
  unInit _ _ h := absurd h (hunInit _ _)
  answers := hanswers

/-- An encryption leaves the manager as ready as it was. -/
theorem kmCryptorEncrypt_inited {type : KeyManagerTy} {alg : CryptoSymAlg} {plaintext : Bytes}
    {d : Nat} {tr : List KmEvent} {result : CryptionRC × Bytes}
    (h : Traces (kmCryptorEncrypt H s (borrow type) alg plaintext d) tr (.ret (result, s'))) :
    s'.openbao.inited = s.openbao.inited := by
  have hwp : wp (kmCryptorEncrypt H s (borrow type) alg plaintext d) fun _ o =>
      ∀ result s', o = .ret (result, s') → s'.openbao.inited = s.openbao.inited := by
    unfold kmCryptorEncrypt
    split
    · intro result s' heq
      cases heq
      rfl
    refine wp_ofExcept_bind (fun cast _ => ?_) fun _ _ _ _ ho => by cases ho
    cases cast with
    | none =>
      intro result s' heq
      cases heq
      rfl
    | some _ =>
      refine wp_bind_of (encrypt_traces H s.openbao alg d plaintext)
        (fun _ encrypted htrace => ?_) fun _ _ _ _ _ ho => by cases ho
      intro result s' heq
      cases heq
      exact htrace.inherits.sameButMap.inited
  exact wp_iff.mp hwp _ _ h _ _ rfl

theorem kmCryptorDecrypt_uninited {type : KeyManagerTy} {alg : CryptoSymAlg} {ciphertext : Bytes}
    {d : Nat} {tr : List KmEvent} {result : CryptionRC × Bytes}
    (h : Traces (kmCryptorDecrypt H s (borrow type) alg ciphertext d) tr (.ret result))
    (hresult : result.1 = .uninited) : s.openbao.inited = false := by
  have hwp : wp (kmCryptorDecrypt H s (borrow type) alg ciphertext d) fun _ o =>
      ∀ result, o = .ret result → result.1 = .uninited → s.openbao.inited = false := by
    unfold kmCryptorDecrypt
    split
    · intro result heq hsame
      cases heq
      cases hsame
    refine wp_ofExcept_bind (fun cast _ => ?_) fun _ _ _ ho => by cases ho
    cases cast with
    | none =>
      intro result heq hsame
      cases heq
      cases hsame
    | some _ =>
      refine wp_bind_of (decrypt_uninited_iff H s.openbao alg d ciphertext)
        (fun _ decrypted huninited => ?_) fun _ _ _ _ ho => by cases ho
      intro result heq hresult
      cases heq
      exact (huninited _ _ rfl).mp (parseKeyManagerRC_eq_uninited.mp hresult)
  exact wp_iff.mp hwp _ _ h _ rfl hresult

theorem ManagersStep.effect {ev : JwtEvent} (h : ManagersStep H s ev s') : Effect s ev s' := by
  obtain ⟨call, reply⟩ := ev
  cases call with
  | init km execPath accessToken domainCount =>
    obtain ⟨tr, htr⟩ := h
    have hleaves := lifeCall_init_leaves htr
    have hinited : (km.initialised s).inited = s.openbao.inited := by cases km <;> rfl
    have hkeeps : s.openbao.inited = true → s'.openbao.inited = true := fun hs => by
      rw [hleaves.2.1 (hinited.trans hs), hinited, hs]
    refine ⟨fun _ => hkeeps, ?_, ?_, False.elim⟩
    · intro _ _ _ _ heq
      cases heq
      by_cases hs : s.openbao.inited = true
      · exact hkeeps hs
      · exact (hleaves.2.2 (hinited.trans (by simpa using hs)) rfl).1
    · intro _ _ heq
      cases heq
  | unInit km =>
    obtain ⟨tr, htr⟩ := h
    have hnot : s'.openbao.inited = false := by cases km <;> cases htr <;> rfl
    exact ⟨False.elim, nofun, fun _ _ _ => hnot, False.elim⟩
  | encrypt type alg plaintext d =>
    obtain ⟨tr, htr⟩ := h
    exact .of_eq nofun nofun (kmCryptorEncrypt_inited htr) False.elim
  | decrypt type alg ciphertext d =>
    obtain ⟨rfl, tr, htr⟩ := h
    exact .of_eq nofun nofun rfl (kmCryptorDecrypt_uninited htr)
  | clockGettime =>
    obtain rfl : s' = s := h
    exact .of_eq nofun nofun rfl False.elim
  | newChars len =>
    obtain rfl : s' = s := h
    exact .of_eq nofun nofun rfl False.elim
  | accessPath path =>
    obtain rfl : s' = s := h
    exact .of_eq nofun nofun rfl False.elim

/-- Along calls other than `UnInit` a ready manager stays ready, and refuses no decryption for
not being so. -/
theorem inited_of_run {tr : List JwtEvent} (hrun : Run (ManagersStep H) s tr s')
    (htr : ∀ ev ∈ tr, KeepsManager ev.1) (hs : s.openbao.inited = true) :
    s'.openbao.inited = true ∧ ∀ ev ∈ tr, ¬ FailsUninited ev := by
  induction hrun with
  | nil s => exact ⟨hs, fun ev hev => absurd hev List.not_mem_nil⟩
  | cons hstep _ ih =>
    have heffect := hstep.effect
    have hs₁ := heffect.keeps (htr _ List.mem_cons_self) hs
    obtain ⟨hs', hnone⟩ := ih (fun ev hev => htr ev (List.mem_cons_of_mem _ hev)) hs₁
    refine ⟨hs', fun ev hev hfails => ?_⟩
    rcases List.mem_cons.mp hev with rfl | hev
    · exact absurd (hs.symm.trans (heffect.answers hfails)) (by decide)
    · exact hnone ev hev hfails

/-! ## What a call does to the server -/

variable {s s' : Impl}

/-- How a server comes to use the manager: it did before, or the call's last act was to init
it. -/
inductive Enters (s : Impl) (tr : List JwtEvent) (s' : Impl) : Prop
  | before (huses : s.UsesManager) (htype : s'.options.keyManagerType = s.options.keyManagerType)
  | started {km : Borrowed} {execPath accessToken : Bytes} {domainCount : Nat}
      {pre : List JwtEvent} (htr : tr = pre ++ [⟨.init km execPath accessToken domainCount, .ok .ok⟩])
      (hkm : borrow s'.options.keyManagerType = some km)

/-- Options that are accepted are stored, and nothing else is changed. -/
def OptionsStored (s : Impl) (opt : CDFDistAuthServerOptions) (tr : List JwtEvent) :
    Outcome Fault (JwtAuthRC × Impl) → Prop
  | .ret (rc, s') => s' = (if rc = .ok then { s with options := opt } else s) ∧
      (rc = .ok → opt.algType.isValue = true) ∧ ∀ now, ⟨.clockGettime, now⟩ ∉ tr
  | .halt _ => False

theorem validateOptions_stored (s : Impl) (opt : CDFDistAuthServerOptions) :
    wp (s.validateOptions opt) (OptionsStored s opt) := by
  have hrefused : ∀ {tr : List JwtEvent}, (∀ now, ⟨.clockGettime, now⟩ ∉ tr) →
      OptionsStored s opt tr (.ret (.paramInvalid, s)) := fun htr =>
    ⟨rfl, nofun, htr⟩
  unfold Impl.validateOptions
  by_cases halg : opt.algType.isValue = true
  rotate_left
  · rw [if_pos halg]
    exact hrefused (by simp)
  rw [if_neg (not_not.mpr halg)]
  split
  · exact ⟨rfl, fun _ => halg, by simp⟩
  split
  · exact hrefused (by simp)
  split
  · exact hrefused (by simp)
  split
  · exact hrefused (by simp)
  refine wp_perform_bind.mpr fun accessible => ?_
  split
  · exact hrefused (by simp)
  split
  · exact hrefused (by simp)
  · exact ⟨rfl, fun _ => halg, by simp⟩

/-- The one reading of the clock that a header is made with. -/
def Stamped (alg : CryptoHmacAlg) (expireTime : Int16) (tr : List JwtEvent) :
    Outcome Fault JwtTokenHeader → Prop
  | .ret h => ∃ now, tr = [⟨.clockGettime, now⟩] ∧ h = ⟨alg, expireTime, now.toUInt64⟩
  | .halt _ => False

theorem make_stamped (alg : CryptoHmacAlg) (expireTime : Int16) :
    wp (JwtTokenHeader.make alg expireTime) (Stamped alg expireTime) := fun now => ⟨now, rfl, rfl⟩

/-- The server once `Start` has stored the options and made the header. -/
def Impl.prepared (s : Impl) (opt : CDFDistAuthServerOptions) (now : Int64) : Impl :=
  { s with
    options := opt, tokenHeader := ⟨opt.algType, opt.tokenExpireMinutes, now.toUInt64⟩ }

/-- What `Start` does before it borrows anything: it finds the options in order and reads the
clock once. -/
structure Prepares (s : Impl) (opt : CDFDistAuthServerOptions) (pre : List JwtEvent) : Prop where
  stopped : ¬ s.started = true
  mode : opt.keyTransferMode ≠ .unknown
  alg : opt.algType.isValue = true
  noClock : ∀ now, ⟨.clockGettime, now⟩ ∉ pre

/-- How `Start` ends. -/
inductive StartEnds (s : Impl) (opt : CDFDistAuthServerOptions) : List JwtEvent →
    Outcome Fault (Except StdException JwtAuthRC × Impl) → Prop
  | already (hstarted : s.started = true) : StartEnds s opt [] (.ret (.ok .ok, s))
  | refused {tr : List JwtEvent} {rc : JwtAuthRC} (hstopped : ¬ s.started = true) (hrc : rc ≠ .ok) :
    StartEnds s opt tr (.ret (.ok rc, s))
  | failed {pre post : List JwtEvent} {now : Int64} {result : Except StdException JwtAuthRC}
      (hpre : Prepares s opt pre) (hresult : result ≠ .ok .ok) :
    StartEnds s opt (pre ++ ⟨.clockGettime, now⟩ :: post) (.ret (result, s.prepared opt now))
  | internal {pre : List JwtEvent} {now : Int64} {km : Borrowed} (hpre : Prepares s opt pre)
      (hmode : opt.keyTransferMode = .internalKey) (hkm : borrow opt.keyManagerType = some km) :
    StartEnds s opt (pre ++ [⟨.clockGettime, now⟩,
        ⟨.init km opt.execPath opt.accessToken (int16ToU32 opt.domainCount), .ok .ok⟩])
      (.ret (.ok .ok, { s.prepared opt now with
        keyPass := .ofHours opt.serverKeyExpiredHours.toInt64.toUInt64, started := true }))
  | external {pre : List JwtEvent} {now : Int64} (hpre : Prepares s opt pre)
      (hmode : opt.keyTransferMode ≠ .internalKey) :
    StartEnds s opt (pre ++ [⟨.clockGettime, now⟩])
      (.ret (.ok .ok, { s.prepared opt now with started := true }))

theorem start_ends (s : Impl) (opt : CDFDistAuthServerOptions) :
    wp (s.start opt) (StartEnds s opt) := by
  unfold Impl.start
  by_cases hstarted : s.started = true
  · rw [if_pos hstarted]
    exact .already hstarted
  rw [if_neg hstarted]
  split
  · exact .refused hstarted (by decide)
  next hmode =>
  have hknown : opt.keyTransferMode ≠ .unknown := by
    intro heq
    rw [heq] at hmode
    exact hmode ⟨by decide, by decide⟩
  refine wp_bind_of (validateOptions_stored s opt) (fun pre validated hstored => ?_)
    fun _ _ hhalt => hhalt.elim
  obtain ⟨hs', halg, hclock⟩ := hstored
  by_cases hrc : validated.1 = .ok
  rotate_left
  · rw [if_neg hrc] at hs'
    rw [if_pos hrc, hs']
    exact .refused hstarted hrc
  rw [if_pos hrc] at hs'
  rw [if_neg (not_not.mpr hrc), hs']
  have hpre : Prepares s opt pre := ⟨hstarted, hknown, halg hrc, hclock⟩
  refine wp_bind_of (make_stamped _ _) (fun _ tokenHeader hstamped => ?_)
    fun _ _ hhalt => hhalt.elim
  obtain ⟨now, rfl, rfl⟩ := hstamped
  dsimp only
  by_cases hinternal : opt.keyTransferMode = .internalKey
  rotate_left
  · rw [if_neg hinternal]
    exact .external hpre hinternal
  rw [if_pos hinternal]
  cases hkm : borrow opt.keyManagerType with
  | none => exact .failed hpre (by simp)
  | some km =>
    refine wp_perform_bind.mpr fun reply => ?_
    cases reply with
    | error e => exact .failed hpre (by simp)
    | ok rc =>
      dsimp only
      by_cases hinit : rc = .ok
      · rw [if_neg (not_not.mpr hinit), hinit]
        exact .internal hpre hinternal hkm
      · rw [if_pos hinit]
        exact .failed hpre (by simp)

theorem start_enters (s : Impl) (opt : CDFDistAuthServerOptions) :
    wp (s.start opt) fun tr o => ∀ result s', o = .ret (result, s') → s'.UsesManager →
      Enters s tr s' := by
  refine wp_mono (start_ends s opt) fun tr o hends => ?_
  intro result s' ho huses
  cases hends with
  | already hstarted =>
    cases ho
    exact .before huses rfl
  | refused hstopped =>
    cases ho
    exact absurd huses.1 hstopped
  | failed hpre =>
    cases ho
    exact absurd huses.1 hpre.stopped
  | @internal pre now km hpre hmode hkm =>
    cases ho
    exact .started (List.append_assoc pre [⟨.clockGettime, now⟩] _).symm hkm
  | external hpre hmode =>
    cases ho
    exact absurd huses.2 hmode

/-- `Stop` ends the use; the manager is un-inited where there was one. -/
theorem stop_leaves (s : Impl) :
    wp s.stop fun tr o => ∀ rc s', o = .ret (rc, s') → ¬ s'.UsesManager ∧
      (¬ s.UsesManager → tr = []) ∧
      (s.UsesManager → ∀ km, borrow s.options.keyManagerType = some km →
        ∃ rc, tr = [⟨.unInit km, rc⟩]) := by
  unfold Impl.stop
  by_cases hstarted : s.started = true
  rotate_left
  · rw [if_pos hstarted]
    intro rc s' heq
    cases heq
    exact ⟨fun h => hstarted h.1, fun _ => rfl, fun h => absurd h.1 hstarted⟩
  rw [if_neg (not_not.mpr hstarted)]
  dsimp only
  by_cases hmode : s.options.keyTransferMode = .internalKey
  rotate_left
  · rw [if_neg hmode]
    intro rc s' heq
    cases heq
    exact ⟨fun h => absurd h.1 Bool.false_ne_true, fun _ => rfl, fun h => absurd h.2 hmode⟩
  rw [if_pos hmode]
  have huses : s.UsesManager := ⟨hstarted, hmode⟩
  cases hkm : borrow s.options.keyManagerType with
  | none =>
    intro rc s' heq
    cases heq
    refine ⟨fun h => absurd h.1 Bool.false_ne_true, fun h => absurd huses h, ?_⟩
    intro _ km heq
    cases heq
  | some km =>
    intro reply rc s' heq
    cases heq
    refine ⟨fun h => absurd h.1 Bool.false_ne_true, fun h => absurd huses h, ?_⟩
    intro _ km' heq
    cases heq
    exact ⟨reply, rfl⟩

/-- Only the keys change. -/
def KeysOnly {α : Type} (s : Impl) : Outcome Fault (α × Impl) → Prop
  | .ret (_, s') => ∃ keyPass, s' = { s with keyPass }
  | .halt _ => True

theorem refreshEncryptionKey_keysOnly (s : Impl) (newKey : Option Bytes) (keyLen : UInt32) :
    wp (s.refreshEncryptionKey newKey keyLen) fun _ o => KeysOnly s o := by
  unfold Impl.refreshEncryptionKey
  dsimp only
  split
  · exact ⟨s.keyPass, rfl⟩
  · exact wp_bind_any (fun _ result => ⟨result.2, rfl⟩) fun _ _ => trivial

theorem setEncryptionKey_keysOnly (s : Impl) (newKey : Option Bytes) (keyLen : UInt32) :
    wp (s.setEncryptionKey newKey keyLen) fun _ o => KeysOnly s o := by
  unfold Impl.setEncryptionKey
  dsimp only
  split
  · exact ⟨s.keyPass, rfl⟩
  split
  · exact ⟨s.keyPass, rfl⟩
  · exact wp_bind_any (fun _ result => ⟨result.2, rfl⟩) fun _ _ => trivial

/-- No call but `Start` and `Stop` touches anything but the keys. -/
theorem prog_keysOnly (O : OpensslHmac) (s : Impl) {op : ServerOp} (hstart : ∀ opt, op ≠ .start opt)
    (hstop : op ≠ .stop) : wp (op.prog O s) fun _ o => KeysOnly s o := by
  have hsame : KeysOnly s (.ret ((), s)) := ⟨s.keyPass, rfl⟩
  cases op with
  | start opt => exact absurd rfl (hstart opt)
  | stop => exact absurd rfl hstop
  | refreshEncryptionKey newKey keyLen =>
    exact wp_bind_of (refreshEncryptionKey_keysOnly s newKey keyLen) (fun _ _ hkeys => hkeys)
      fun _ _ _ => trivial
  | setEncryptionKey newKey keyLen =>
    exact wp_bind_of (setEncryptionKey_keysOnly s newKey keyLen) (fun _ _ hkeys => hkeys)
      fun _ _ _ => trivial
  | estimateTokenLength inputLen => exact hsame
  | createToken opt => exact wp_bind_any (fun _ _ => hsame) fun _ _ => trivial
  | validateToken opt => exact wp_bind_any (fun _ _ => hsame) fun _ _ => trivial

/-- A call that does not stop the server. -/
theorem prog_enters (O : OpensslHmac) (s : Impl) {op : ServerOp} (hop : op ≠ .stop) :
    wp (op.prog O s) fun tr o => ∀ answer s', o = .ret (answer, s') → s'.UsesManager →
      Enters s tr s' := by
  by_cases hstart : ∃ opt, op = .start opt
  · obtain ⟨opt, rfl⟩ := hstart
    refine wp_bind_of (start_enters s opt) (fun tr result henters => ?_)
      fun _ _ _ _ _ ho => by cases ho
    split
    · intro answer s' heq huses
      cases heq
      rw [List.append_nil]
      exact henters _ _ rfl huses
    · intro answer s' heq huses
      cases heq
      rw [List.append_nil]
      exact henters _ _ rfl huses
  · -- the same server, but perhaps for its keys
    refine wp_mono (prog_keysOnly O s (fun opt h => hstart ⟨opt, h⟩) hop) fun tr o hkeys => ?_
    intro answer s' ho huses
    rw [ho] at hkeys
    obtain ⟨keyPass, rfl⟩ := hkeys
    exact .before huses rfl

/-! ## Runs -/

variable {O : OpensslHmac} {w w' : Service} {c : ServiceCall}

/-- A server that uses the manager does not stop while another one uses it. -/
def SoleStop (w : Service) (c : ServiceCall) : Prop :=
  c.op = .stop → (w.server c.id).UsesManager → ∀ i, i ≠ c.id → ¬ (w.server i).UsesManager

/-- A server that uses the manager has one to borrow. -/
def Borrows (w : Service) : Prop :=
  ∀ i, (w.server i).UsesManager → ∃ km, borrow (w.server i).options.keyManagerType = some km

/-- Every server that uses the manager finds it inited. -/
def Ready (w : Service) : Prop :=
  ∀ i, (w.server i).UsesManager → w.managers.openbao.inited = true

/-- What a call other than `Stop` does. -/
theorem ServiceStep.enters (h : ServiceStep O H w c w') (hop : c.op ≠ .stop) :
    ∃ s', w'.server = Function.update w.server c.id s' ∧
      Run (ManagersStep H) w.managers c.tr w'.managers ∧ (∀ ev ∈ c.tr, KeepsManager ev.1) ∧
      (s'.UsesManager → Enters (w.server c.id) c.tr s') := by
  obtain ⟨answer, s', ⟨htr, hrun⟩, hserver⟩ := h
  have hkeeps := wp_iff.mp (calls_prog O (w.server c.id) hop).trace _ _ htr
  have henters := wp_iff.mp (prog_enters O (w.server c.id) hop) _ _ htr answer s' rfl
  exact ⟨s', hserver, hrun, hkeeps, henters⟩

/-- What a `Stop` does. -/
theorem ServiceStep.stops (h : ServiceStep O H w c w') (hop : c.op = .stop) :
    ∃ s', w'.server = Function.update w.server c.id s' ∧ ¬ s'.UsesManager ∧
      (¬ (w.server c.id).UsesManager → w'.managers = w.managers) ∧
      ((w.server c.id).UsesManager → Borrows w → w'.managers.openbao.inited = false) := by
  obtain ⟨answer, s', ⟨htr, hrun⟩, hserver⟩ := h
  have hwp : wp (c.op.prog O (w.server c.id)) fun tr o => ∀ answer s', o = .ret (answer, s') →
      ¬ s'.UsesManager ∧ (¬ (w.server c.id).UsesManager → tr = []) ∧
      ((w.server c.id).UsesManager → ∀ km, borrow (w.server c.id).options.keyManagerType = some km →
        ∃ rc, tr = [⟨.unInit km, rc⟩]) := by
    rw [hop]
    refine wp_bind_of (stop_leaves (w.server c.id)) (fun tr result hleaves => ?_)
      fun _ _ _ _ _ ho => by cases ho
    intro answer s' heq
    cases heq
    rw [List.append_nil]
    exact hleaves _ _ rfl
  obtain ⟨hnot, hnone, hunInit⟩ := wp_iff.mp hwp _ _ htr answer s' rfl
  refine ⟨s', hserver, hnot, fun huses => ?_, fun huses hborrows => ?_⟩
  · rw [hnone huses] at hrun
    generalize w'.managers = m' at hrun ⊢
    cases hrun
    rfl
  · obtain ⟨km, hkm⟩ := hborrows c.id huses
    obtain ⟨rc, htr'⟩ := hunInit huses km hkm
    rw [htr'] at hrun
    cases hrun with
    | cons hstep hrest =>
      cases hrest
      exact hstep.effect.unInit km rc rfl

/-- The servers that use the manager after a call used it before, but for the one called. -/
theorem usesManager_update {s' : Impl} {i : Nat} (hserver : w'.server = Function.update w.server c.id s')
    (huses : (w'.server i).UsesManager) :
    (i = c.id ∧ s'.UsesManager) ∨ (i ≠ c.id ∧ (w.server i).UsesManager) := by
  rw [hserver] at huses
  by_cases hi : i = c.id
  · rw [hi, Function.update_self] at huses
    exact .inl ⟨hi, huses⟩
  · rw [Function.update_of_ne hi] at huses
    exact .inr ⟨hi, huses⟩

theorem ServiceStep.borrows (hw : Borrows w) (h : ServiceStep O H w c w') : Borrows w' := by
  intro i huses
  by_cases hop : c.op = .stop
  · obtain ⟨s', hserver, hnot, -, -⟩ := h.stops hop
    rcases usesManager_update hserver huses with ⟨-, huses'⟩ | ⟨hi, huses'⟩
    · exact absurd huses' hnot
    · rw [hserver, Function.update_of_ne hi]
      exact hw i huses'
  · obtain ⟨s', hserver, -, -, henters⟩ := h.enters hop
    rcases usesManager_update hserver huses with ⟨rfl, huses'⟩ | ⟨hi, huses'⟩
    · rw [hserver, Function.update_self]
      cases henters huses' with
      | before hused htype => exact htype ▸ hw _ hused
      | started _ hkm => exact ⟨_, hkm⟩
    · rw [hserver, Function.update_of_ne hi]
      exact hw i huses'

/-- **One call.** A manager that is inited for all its users stays so, unless one of several
stops. -/
theorem ServiceStep.ready (hw : Ready w) (hsole : SoleStop w c) (h : ServiceStep O H w c w') :
    Ready w' := by
  intro i huses
  by_cases hop : c.op = .stop
  · obtain ⟨s', hserver, hnot, hsame, -⟩ := h.stops hop
    rcases usesManager_update hserver huses with ⟨-, huses'⟩ | ⟨hi, huses'⟩
    · exact absurd huses' hnot
    · rw [hsame fun hused => hsole hop hused i hi huses']
      exact hw i huses'
  · obtain ⟨s', hserver, hrun, hkeeps, henters⟩ := h.enters hop
    rcases usesManager_update hserver huses with ⟨-, huses'⟩ | ⟨-, huses'⟩
    · cases henters huses' with
      | before hused _ => exact (inited_of_run hrun hkeeps (hw _ hused)).1
      | started htr _ =>
        rw [htr] at hrun
        obtain ⟨t, -, hlast⟩ := hrun.split
        cases hlast with
        | cons hstep hrest =>
          cases hrest
          exact hstep.effect.init _ _ _ _ rfl
    · exact (inited_of_run hrun hkeeps (hw i huses')).1

theorem Ready.independent (hw : Ready w) : Independent O H w where
  inited := hw
  answered i huses op htoken tr o m' hexec := by
    have hop : op ≠ .stop := by
      intro heq
      subst heq
      exact htoken
    have hkeeps := wp_iff.mp (calls_prog O (w.server i) hop).trace _ _ hexec.1
    exact (inited_of_run hexec.2 hkeeps (hw i huses)).2

/-- No server has been started, whatever the managers have been used for. -/
def freshService (managers : Managers) : Service := { managers }

theorem not_usesManager_fresh (managers : Managers) (i : Nat) :
    ¬ ((freshService managers).server i).UsesManager := fun h => absurd h.1 Bool.false_ne_true

/-- **Independence in every run.** Each started server finds the manager inited in every state a run
passes, and gets its decryptions, if and only if no server that uses the manager stops while
another one uses it. -/
theorem independent_iff_of_run {managers : Managers} {calls : List ServiceCall}
    (hrun : Run (ServiceStep O H) (freshService managers) calls w) :
    (∀ pre post t, calls = pre ++ post → Run (ServiceStep O H) (freshService managers) pre t →
      Run (ServiceStep O H) t post w → Independent O H t) ↔
    ∀ pre c post t t', calls = pre ++ c :: post →
      Run (ServiceStep O H) (freshService managers) pre t → ServiceStep O H t c t' →
      Run (ServiceStep O H) t' post w → SoleStop t c := by
  have hfresh : ∀ i, ¬ ((freshService managers).server i).UsesManager :=
    not_usesManager_fresh managers
  constructor
  · intro hall pre c post t t' hsame hpre hstep hpost hop huses i hi hother
    subst hsame
    have hborrows : Borrows t := Run.invariant (I := Borrows)
      (fun _ _ _ ht h => ServiceStep.borrows ht h) hpre fun i h => absurd h (hfresh i)
    -- the other one is started still, and the manager is gone
    obtain ⟨s', hserver, -, -, hgone⟩ := hstep.stops hop
    have hafter := hall (pre ++ [c]) post t' (by simp) (hpre.append (.cons hstep (.nil _))) hpost
    have hinited := hafter.inited i (by rw [hserver, Function.update_of_ne hi]; exact hother)
    exact absurd (hinited.symm.trans (hgone huses hborrows)) (by decide)
  · intro hsole pre post t hsame hpre hpost
    subst hsame
    have hguarded : Run (Guarded SoleStop (ServiceStep O H)) (freshService managers) pre t := by
      refine hpre.guarded fun pre' c post' u u' heq hpre' hstep hpost' => ?_
      exact hsole pre' c (post' ++ post) u u' (by simp [heq]) hpre' hstep (hpost'.append hpost)
    have hready : Ready t := Run.invariant (I := Ready)
      (fun _ _ _ ht h => ServiceStep.ready ht h.1 h.2) hguarded fun i h => absurd h (hfresh i)
    exact hready.independent

/-! ## Two servers -/

/-- An HMAC of zero bytes. -/
def sampleHmac : OpensslHmac where
  hmac alg _ _ := some (List.replicate (getEstimateHmacOutLen alg) 0)
  length_eq alg _ _ digest h := by
    obtain rfl := Option.some.inj h
    exact List.length_replicate

def sampleOptions : CDFDistAuthServerOptions :=
  { execPath := ascii "/bao", accessToken := ascii "token" }

/-- The server that `Start` makes of them. -/
def sampleServer (now : Int64) : Impl where
  started := true
  options := sampleOptions
  tokenHeader := { expireTimeMinute := 480, createTimeSec := now.toUInt64 }

def sampleStart (id : Nat) (now : Int64) : ServiceCall where
  id
  op := .start sampleOptions
  tr := [⟨.accessPath (ascii "/bao"), true⟩, ⟨.clockGettime, now⟩,
    ⟨.init .openbao (ascii "/bao") (ascii "token") 2, .ok .ok⟩]

def sampleStop (id : Nat) : ServiceCall where
  id
  op := .stop
  tr := [⟨.unInit .openbao, .ok⟩]

theorem serviceStep_start {managers managers' : Managers} {server : Nat → Impl} {id : Nat}
    (now : Int64) (hfresh : server id = {}) {tr : List KmEvent}
    (hinit : Traces (sampleInit.prog sampleHost managers) tr (.ret (.ok .ok, managers'))) :
    ServiceStep sampleHmac sampleHost ⟨managers, server⟩ (sampleStart id now)
      ⟨managers', Function.update server id (sampleServer now)⟩ := by
  refine ⟨.code .ok, sampleServer now, ⟨?_, ?_⟩, rfl⟩
  · show Traces ((ServerOp.start sampleOptions).prog sampleHmac (server id)) _ _
    rw [hfresh]
    exact .call (.call (.call (.ret _)))
  · exact .cons rfl (.cons rfl (.cons ⟨tr, hinit⟩ (.nil _)))

theorem serviceStep_stop {managers : Managers} {server : Nat → Impl} {id : Nat} {now : Int64}
    (hstarted : server id = sampleServer now) :
    ServiceStep sampleHmac sampleHost ⟨managers, server⟩ (sampleStop id)
      ⟨{ managers with openbao := managers.openbao.unInit.2 },
        Function.update server id { sampleServer now with started := false }⟩ := by
  refine ⟨.code .ok, { sampleServer now with started := false }, ⟨?_, ?_⟩, rfl⟩
  · show Traces (ServerOp.stop.prog sampleHmac (server id)) _ _
    rw [hstarted]
    exact .call (.ret _)
  · exact .cons ⟨[], .ret _⟩ (.nil _)

/-- The next `Init` has nothing to do. -/
theorem sampleInit_again {s : Managers} (hinited : s.openbao.inited = true) :
    Traces (sampleInit.prog sampleHost s) [acquired .exclusive, released .exclusive]
      (.ret (.ok .ok, s)) := by
  show Traces (do
    let result ← s.openbao.init sampleHost (ascii "/bao") (ascii "token") 2
    .ret (result.1, { s with openbao := result.2 })) _ _
  unfold OpenbaoKeyManager.init
  rw [if_pos hinited]
  exact .call (.call (.ret _))

/-- **Two servers, one stopped.** The other is started and its manager is not inited. -/
theorem servers_not_independent : ¬ ∀ (O : OpensslHmac) (H : KmHost) (managers : Managers)
    (calls : List ServiceCall) (w : Service),
    (∀ c ∈ calls, (∃ opt, c.op = .start opt) ∨ c.op = .stop) →
    Run (ServiceStep O H) (freshService managers) calls w → Independent O H w := by
  intro hall
  obtain ⟨tr, s, hfirst, hinited, -⟩ := sampleInit_inits (.inl rfl)
  have hrun : Run (ServiceStep sampleHmac sampleHost) (freshService {})
      [sampleStart 0 1700000000, sampleStart 1 1700000060, sampleStop 0] _ :=
    .cons (serviceStep_start 1700000000 rfl hfirst) <|
      .cons (serviceStep_start 1700000060 rfl (sampleInit_again hinited)) <|
        .cons (serviceStep_stop rfl) (.nil _)
  have hcalls : ∀ c ∈ [sampleStart 0 1700000000, sampleStart 1 1700000060, sampleStop 0],
      (∃ opt, c.op = .start opt) ∨ c.op = .stop := by
    simp [sampleStart, sampleStop]
  have hinited := (hall _ _ _ _ _ hcalls hrun).inited 1 ⟨rfl, rfl⟩
  cases hinited

/-- Two servers: the second is started after the first has stopped. -/
theorem independent_iff_of_run_start : ∃ w : Service,
    (w.server 1).UsesManager ∧ w.managers.openbao.inited = true ∧
    ∀ pre post t, [sampleStart 0 1700000000, sampleStop 0, sampleStart 1 1700000060] = pre ++ post →
      Run (ServiceStep sampleHmac sampleHost) (freshService {}) pre t →
      Run (ServiceStep sampleHmac sampleHost) t post w → Independent sampleHmac sampleHost t := by
  obtain ⟨tr, s, hfirst, -, hclosed⟩ := sampleInit_inits (.inl rfl)
  obtain ⟨tr', s', hsecond, hinited, -⟩ := sampleInit_inits (.inr rfl)
  have hstop : ServiceStep sampleHmac sampleHost
      ⟨s, Function.update (fun _ => {}) 0 (sampleServer 1700000000)⟩ (sampleStop 0) _ :=
    serviceStep_stop rfl
  rw [hclosed] at hstop
  have hrun : Run (ServiceStep sampleHmac sampleHost) (freshService {})
      [sampleStart 0 1700000000, sampleStop 0, sampleStart 1 1700000060] _ :=
    .cons (serviceStep_start 1700000000 rfl hfirst) <| .cons hstop <|
      .cons (serviceStep_start 1700000060 rfl hsecond) (.nil _)
  refine ⟨_, ⟨rfl, rfl⟩, hinited, (independent_iff_of_run hrun).mpr ?_⟩
  intro pre c post t t' hsame hpre _ _ hop _ i hi
  rcases pre with _ | ⟨_, _ | ⟨_, _ | ⟨_, _⟩⟩⟩
  case nil =>
    obtain ⟨rfl, -⟩ := List.cons.inj hsame
    cases hop
  case cons.nil =>
    -- only the first server has been started
    obtain ⟨rfl, hrest⟩ := List.cons.inj hsame
    obtain ⟨rfl, -⟩ := List.cons.inj hrest
    cases hpre with
    | cons hstart hdone =>
      cases hdone
      obtain ⟨_, s₁, -, hserver⟩ := hstart
      have hother : i ≠ (sampleStart 0 1700000000).id := hi
      rw [hserver, Function.update_of_ne hother]
      exact not_usesManager_fresh {} i
  case cons.cons.nil =>
    obtain ⟨-, hrest⟩ := List.cons.inj hsame
    obtain ⟨-, hrest⟩ := List.cons.inj hrest
    obtain ⟨rfl, -⟩ := List.cons.inj hrest
    cases hop
  case cons.cons.cons => simp at hsame

end CdfCrypto.Jwt
