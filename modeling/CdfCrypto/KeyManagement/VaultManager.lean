import CdfCrypto.Lib.Lockstep
import CdfCrypto.KeyManagement.Dispatch

/-!
# The vault manager as a key manager

`VaultKeyManager` has the interface of `OpenbaoKeyManager` and forwards each operation to
that manager's singleton, whose tag its `Init` and `UnInit` set. No operation reads the
tag: two managers that differ in nothing else stay in lock step (`prog_lockstep`). So a
vault manager and an OpenBao manager of its own, started fresh and given the same answers,
return the same from every operation, and the singleton is that manager but for the tag
(`vaultKeyManager_refines`).

`CheckInited()` and `DomainCount()` are not forwarded: they answer from members of the
wrapper that nothing writes.
-/

namespace CdfCrypto.KeyManagement

open Lib OpenbaoKeyManager

/-! ## The tag is never read -/

/-- `m'` is `m` but for its type. -/
def SameButType (m m' : OpenbaoKeyManager) : Prop := m' = { m with type := m'.type }

namespace SameButType

variable {m m' m'' : OpenbaoKeyManager}

theorem refl (m : OpenbaoKeyManager) : SameButType m m := rfl

theorem symm (h : SameButType m m') : SameButType m' m := by
  unfold SameButType at h ⊢
  rw [h]

theorem trans (h : SameButType m m') (h' : SameButType m' m'') : SameButType m m'' := by
  unfold SameButType at h h' ⊢
  rw [h] at h'
  exact h'

theorem setType (m : OpenbaoKeyManager) (type : KeyManagerTy) : SameButType m (m.setType type) := rfl

end SameButType

/-- The same answer, and managers that differ in their type only. -/
def Twins {α : Type} (a b : α × OpenbaoKeyManager) : Prop := a.1 = b.1 ∧ SameButType a.2 b.2

variable {m m' : OpenbaoKeyManager}

theorem twins {α : Type} (a : α) (h : SameButType m m') : Twins (a, m) (a, m') := ⟨rfl, h⟩

theorem prepareMapLoop_lockstep (H : KmHost) (pairs : List (Nat × Nat)) :
    ∀ {m m' : OpenbaoKeyManager}, SameButType m m' →
      Lockstep Twins (prepareMapLoop H m pairs) (prepareMapLoop H m' pairs) := by
  induction pairs with
  | nil => exact fun h => .ret (twins _ h)
  | cons pair pairs ih =>
    intro m m' h
    obtain ⟨type, rfl⟩ : ∃ type, m' = { m with type } := ⟨_, h⟩
    unfold prepareMapLoop
    refine .bind_same _ fun result => ?_
    refine .ite (fun _ => .ret (twins _ h)) fun _ => ?_
    refine .ite (fun _ => .ret (twins _ h)) fun _ => ?_
    refine .bind_same _ fun time => ?_
    refine .ite (fun _ => ih rfl) fun _ => .ret (twins _ rfl)

theorem prepareMap_lockstep (H : KmHost) (h : SameButType m m') :
    Lockstep Twins (prepareMap H m) (prepareMap H m') := by
  obtain ⟨type, rfl⟩ : ∃ type, m' = { m with type } := ⟨_, h⟩
  unfold prepareMap
  refine .bind_same _ fun result => ?_
  refine .ite (fun _ => .ret (twins _ h)) fun _ => ?_
  refine .ite (fun _ => .ret (twins _ h)) fun _ => ?_
  cases getJsonFieldIntPairVec H.json result.2 with
  | error e => exact .ret (twins _ h)
  | ok found =>
    cases found with
    | none => exact .ret (twins _ h)
    | some pairs =>
      refine (prepareMapLoop_lockstep H pairs h).bind fun a b hab => ?_
      rw [hab.1]
      exact .ret (twins _ hab.2)

/-- What a guard object does around two bodies in step. -/
theorem Lockstep.locked {α β : Type} {Q : α → β → Prop} {mode : LockMode} {p : Km α} {q : Km β}
    (h : Lockstep Q p q) :
    Lockstep Q (KeyManagement.locked mode p) (KeyManagement.locked mode q) := by
  unfold KeyManagement.locked
  refine .bind_same _ fun _ => h.bind fun a b hab => ?_
  exact .bind_same _ fun _ => .ret hab

theorem init_lockstep (H : KmHost) (h : SameButType m m') (exePath accessToken : Bytes)
    (domainCount : Nat) :
    Lockstep Twins (m.init H exePath accessToken domainCount)
      (m'.init H exePath accessToken domainCount) := by
  obtain ⟨type, rfl⟩ : ∃ type, m' = { m with type } := ⟨_, h⟩
  unfold OpenbaoKeyManager.init
  refine Lockstep.locked (.ite (fun _ => .ret (twins _ h)) fun _ => ?_)
  refine .bind_same _ fun canonical => ?_
  cases canonical with
  | none => exact .ret (twins _ h)
  | some p =>
    dsimp only
    by_cases hcount : domainIdMin ≤ domainCount ∧ domainCount ≤ domainIdMax
    rotate_left
    · rw [dif_neg hcount, dif_neg hcount]
      exact .ret (twins _ rfl)
    rw [dif_pos hcount, dif_pos hcount]
    refine .ite (fun _ => .ret (twins _ rfl)) fun _ => ?_
    refine .ite (fun _ => .ret (twins _ rfl)) fun _ => ?_
    have hready : SameButType { m with exePath := p, accessToken }
        { m with exePath := p, accessToken, type } := rfl
    refine (prepareMap_lockstep H hready).bind fun a b hab => ?_
    obtain ⟨result, m₁⟩ := a
    obtain ⟨result, m₂⟩ := b
    obtain ⟨rfl, hm⟩ := hab
    obtain ⟨type', rfl⟩ : ∃ type', m₂ = { m₁ with type := type' } := ⟨_, hm⟩
    cases result with
    | error e => exact .ret (twins _ hm)
    | ok rc => exact .ite (fun _ => .ret (twins _ hm)) fun _ => .ret (twins _ rfl)

theorem removeKey_lockstep (h : SameButType m m') (d k : Nat) :
    Lockstep Twins (m.removeKey d k) (m'.removeKey d k) := by
  obtain ⟨type, rfl⟩ : ∃ type, m' = { m with type } := ⟨_, h⟩
  unfold OpenbaoKeyManager.removeKey
  refine Lockstep.locked (.ite (fun _ => .ret (twins _ h)) fun _ => ?_)
  refine .ite (fun _ => .ret (twins _ h)) fun _ => ?_
  refine .ite (fun _ => .ret (twins _ h)) fun _ => ?_
  refine .ite (fun _ => .ret (twins _ h)) fun _ => ?_
  cases hsub : m.domainKeyMap[d]? with
  | none => exact .ret (twins _ h)
  | some subMap =>
    refine .ite (fun _ => .ret (twins _ h)) fun _ => ?_
    refine .bind_same _ fun ret => ?_
    exact .ite (fun _ => .ret (twins _ h)) fun _ => .ret (twins _ rfl)

theorem createKey_lockstep (H : KmHost) (h : SameButType m m') (d : Nat) :
    Lockstep Twins (m.createKey H d) (m'.createKey H d) := by
  obtain ⟨type, rfl⟩ : ∃ type, m' = { m with type } := ⟨_, h⟩
  have htouched : SameButType (m.generateKeyId d).2
      (OpenbaoKeyManager.generateKeyId { m with type } d).2 := by
    rw [generateKeyId_map, generateKeyId_map]
    rfl
  have hid : (OpenbaoKeyManager.generateKeyId { m with type } d).1 = (m.generateKeyId d).1 := by
    unfold OpenbaoKeyManager.generateKeyId
    dsimp only
    split
    · rfl
    split
    · rfl
    split <;> rfl
  unfold OpenbaoKeyManager.createKey
  refine Lockstep.locked (.ite (fun _ => .ret (twins _ h)) fun _ => ?_)
  dsimp only
  rw [hid]
  generalize (m.generateKeyId d).1 = generated at *
  generalize (m.generateKeyId d).2 = m₁ at *
  obtain ⟨type₁, hm₁⟩ : ∃ type₁,
      (OpenbaoKeyManager.generateKeyId { m with type } d).2 = { m₁ with type := type₁ } :=
    ⟨_, htouched⟩
  rw [hm₁]
  refine .ite (fun _ => .ret (twins _ rfl)) fun _ => ?_
  refine .bind_same _ fun ret => .ite (fun _ => .ret (twins _ rfl)) fun _ => ?_
  refine .bind_same _ fun ret => .ite (fun _ => .ret (twins _ rfl)) fun _ => ?_
  refine .bind_same _ fun result => .ite (fun _ => .ret (twins _ rfl)) fun _ => ?_
  refine .bind_same _ fun time => .ite (fun _ => ?_) fun _ => .ret (twins _ rfl)
  have hsame : SameButType m₁ { m₁ with type := type₁ } := rfl
  exact (removeKey_lockstep hsame d generated.2).bind fun a b hab => .ret (twins _ hab.2)

theorem deleteInner_lockstep (d : Nat) (keys : List Nat) :
    ∀ {m m' : OpenbaoKeyManager}, SameButType m m' →
      Lockstep SameButType (deleteInner d m keys) (deleteInner d m' keys) := by
  induction keys with
  | nil => exact fun h => .ret h
  | cons k keys ih =>
    intro m m' h
    obtain ⟨type, rfl⟩ : ∃ type, m' = { m with type } := ⟨_, h⟩
    unfold deleteInner
    exact .bind_same _ fun ret => .ite (fun _ => .halt _) fun _ => ih rfl

theorem deleteOuter_lockstep (domains : List Nat) :
    ∀ {m m' : OpenbaoKeyManager}, SameButType m m' →
      Lockstep SameButType (deleteOuter m domains) (deleteOuter m' domains) := by
  induction domains with
  | nil => exact fun h => .ret h
  | cons d domains ih =>
    intro m m' h
    obtain ⟨type, rfl⟩ : ∃ type, m' = { m with type } := ⟨_, h⟩
    unfold deleteOuter
    refine (deleteInner_lockstep d _ h).bind fun a b hab => ?_
    obtain ⟨type', rfl⟩ : ∃ type', b = { a with type := type' } := ⟨_, hab⟩
    exact ih rfl

theorem deleteAllKey_lockstep (h : SameButType m m') :
    Lockstep Twins m.deleteAllKey m'.deleteAllKey := by
  obtain ⟨type, rfl⟩ : ∃ type, m' = { m with type } := ⟨_, h⟩
  unfold OpenbaoKeyManager.deleteAllKey
  refine Lockstep.locked (.ite (fun _ => .ret (twins _ h)) fun _ => ?_)
  refine .ite (fun _ => .ret (twins _ h)) fun _ => ?_
  refine (deleteOuter_lockstep _ h).bind fun a b hab => ?_
  obtain ⟨type', rfl⟩ : ∃ type', b = { a with type := type' } := ⟨_, hab⟩
  exact .ret (twins _ rfl)

theorem autoUpdateLoop_lockstep (H : KmHost) (d lead : Nat) (time : Int)
    (keys : List (Nat × Int)) : ∀ {m m' : OpenbaoKeyManager}, SameButType m m' →
      Lockstep Twins (autoUpdateLoop H d lead time m keys)
        (autoUpdateLoop H d lead time m' keys) := by
  induction keys with
  | nil => exact fun h => .ret (twins _ h)
  | cons key keys ih =>
    intro m m' h
    obtain ⟨type, rfl⟩ : ∃ type, m' = { m with type } := ⟨_, h⟩
    unfold autoUpdateLoop
    refine .ite (fun _ => .ret (twins _ h)) fun _ => ?_
    refine .ite (fun _ => .ret (twins _ h)) fun _ => ?_
    refine .ite (fun _ => ?_) fun _ => ih h
    refine .bind_same _ fun ret => .ite (fun _ => .ret (twins _ h)) fun _ => ?_
    refine .bind_same _ fun result => .ite (fun _ => .ret (twins _ h)) fun _ => ?_
    refine .bind_same _ fun timeTmp => .ite (fun _ => .ret (twins _ h)) fun _ => ih rfl

theorem autoUpdate_lockstep (H : KmHost) (h : SameButType m m') (d lead : Nat) :
    Lockstep Twins (m.checkDomainKeysExpiredAndAutoUpdate H d lead)
      (m'.checkDomainKeysExpiredAndAutoUpdate H d lead) := by
  obtain ⟨type, rfl⟩ : ∃ type, m' = { m with type } := ⟨_, h⟩
  unfold OpenbaoKeyManager.checkDomainKeysExpiredAndAutoUpdate
  refine Lockstep.locked (.bind_same _ fun time => ?_)
  refine .ite (fun _ => .ret (twins _ h)) fun _ => ?_
  exact .ite (fun _ => .ret (twins _ h)) fun _ => autoUpdateLoop_lockstep H d lead time _ h

theorem getLatestKey_lockstep (H : KmHost) (h : SameButType m m') (d id : Nat) :
    Lockstep Twins (m.getLatestKey H d id) (m'.getLatestKey H d id) := by
  obtain ⟨type, rfl⟩ : ∃ type, m' = { m with type } := ⟨_, h⟩
  unfold OpenbaoKeyManager.getLatestKey
  refine .ite (fun _ => .ret (twins _ h)) fun _ => ?_
  refine .ite (fun _ => .ret (twins _ h)) fun _ => ?_
  dsimp only
  cases lastKey? (m.domainKeyMap.at' d) with
  | none => exact .ret (twins _ rfl)
  | some k => exact .bind_same _ fun result => .bind_same _ fun key => .ret (twins _ rfl)

theorem sealText_lockstep (H : KmHost) (h : SameButType m m') (symAlg : CryptoSymAlg) (d k : Nat)
    (plaintext key : Bytes) :
    Lockstep Twins (m.sealText H symAlg d k plaintext key)
      (m'.sealText H symAlg d k plaintext key) := by
  unfold sealText
  refine .bind_same _ fun w => ?_
  exact .ite (fun _ => .ret (twins _ h)) fun _ => .ret (twins _ h)

theorem encrypt_lockstep (H : KmHost) (h : SameButType m m') (symAlg : CryptoSymAlg) (d : Nat)
    (plaintext : Bytes) :
    Lockstep Twins (m.encrypt H symAlg d plaintext) (m'.encrypt H symAlg d plaintext) := by
  obtain ⟨type, rfl⟩ : ∃ type, m' = { m with type } := ⟨_, h⟩
  unfold OpenbaoKeyManager.encrypt
  refine Lockstep.locked (.ite (fun _ => .ret (twins _ h)) fun _ => ?_)
  refine .ite (fun _ => .ret (twins _ h)) fun _ => ?_
  refine (getLatestKey_lockstep H h d 0).bind fun a b hab => ?_
  obtain ⟨latest, m₁⟩ := a
  obtain ⟨latest, m₂⟩ := b
  obtain ⟨rfl, hm⟩ := hab
  refine .ite (fun _ => ?_) fun _ => sealText_lockstep H hm _ _ _ _ _
  refine (createKey_lockstep H hm d).bind fun a b hab => ?_
  obtain ⟨created, m₁⟩ := a
  obtain ⟨created, m₂⟩ := b
  obtain ⟨rfl, hm⟩ := hab
  refine .ite (fun _ => .ret (twins _ hm)) fun _ => ?_
  refine (getLatestKey_lockstep H hm d latest.2).bind fun a b hab => ?_
  obtain ⟨latest, m₁⟩ := a
  obtain ⟨latest, m₂⟩ := b
  obtain ⟨rfl, hm⟩ := hab
  exact sealText_lockstep H hm _ _ _ _ _

/-- **No operation reads the tag.** -/
theorem prog_lockstep (H : KmHost) (h : SameButType m m') (op : Op) :
    Lockstep Twins (op.prog H m) (op.prog H m') := by
  -- an operation that keeps to the answer and the manager of its program
  have hdress : ∀ {α : Type} {p q : Km (α × OpenbaoKeyManager)} (f : α → Answer),
      Lockstep Twins p q → Lockstep Twins (p >>= fun result => .ret (f result.1, result.2))
        (q >>= fun result => .ret (f result.1, result.2)) := fun f hpq =>
    hpq.bind fun a b hab => .ret ⟨congrArg f hab.1, hab.2⟩
  cases op with
  | init exePath accessToken domainCount =>
    refine (init_lockstep H h exePath accessToken domainCount).bind fun a b hab => ?_
    obtain ⟨result, m₁⟩ := a
    obtain ⟨result, m₂⟩ := b
    obtain ⟨rfl, hm⟩ := hab
    cases result with
    | error e => exact .ret (twins _ hm)
    | ok rc => exact .ret (twins _ hm)
  | unInit =>
    obtain ⟨type, rfl⟩ : ∃ type, m' = { m with type } := ⟨_, h⟩
    exact .ret (twins _ rfl)
  | setType type =>
    obtain ⟨type', rfl⟩ : ∃ type', m' = { m with type := type' } := ⟨_, h⟩
    exact .ret (twins _ rfl)
  | createKey d => exact hdress (fun result => .keyId result.1 result.2) (createKey_lockstep H h d)
  | removeKey d k => exact hdress .code (removeKey_lockstep h d k)
  | deleteAllKey => exact hdress .code (deleteAllKey_lockstep h)
  | displayKey d =>
    obtain ⟨type, rfl⟩ : ∃ type, m' = { m with type } := ⟨_, h⟩
    exact .bind_same (m.displayKey d) fun _ => .ret (twins _ h)
  | displayAllKey =>
    obtain ⟨type, rfl⟩ : ∃ type, m' = { m with type } := ⟨_, h⟩
    exact .bind_same m.displayAllKey fun _ => .ret (twins _ h)
  | checkDomainKeysExpired d lead =>
    obtain ⟨type, rfl⟩ : ∃ type, m' = { m with type } := ⟨_, h⟩
    exact .bind_same (m.checkDomainKeysExpired d lead) fun _ => .ret (twins _ h)
  | checkDomainKeysExpiredAndAutoUpdate d lead =>
    exact hdress .code (autoUpdate_lockstep H h d lead)
  | getLatestKey d id =>
    exact hdress (fun result => .key result.1 result.2) (getLatestKey_lockstep H h d id)
  | encrypt symAlg d plaintext =>
    exact hdress (fun result => .bytes result.1 result.2) (encrypt_lockstep H h symAlg d plaintext)
  | decrypt symAlg d ciphertext =>
    obtain ⟨type, rfl⟩ : ∃ type, m' = { m with type } := ⟨_, h⟩
    exact .bind_same (m.decrypt H symAlg d ciphertext) fun _ => .ret (twins _ h)

/-! ## The two objects side by side -/

/-- The operations of the interface, through which the tag is not set. -/
def InInterface : Op → Prop
  | .setType _ => False
  | _ => True

/-- A forwarder of `VaultKeyManager`. -/
def forward (H : KmHost) (s : Managers) (op : Op) : Km (Answer × Managers) := do
  let result ← op.prog H s.openbao
  .ret (result.1, { s with openbao := result.2 })

/-- One operation of the vault manager. -/
def vaultProg (H : KmHost) (s : Managers) : Op → Km (Answer × Managers)
  | .init exePath accessToken domainCount => do
    let result ← vaultInit H s exePath accessToken domainCount
    match result.1 with
    | .error e => .ret (.thrown e, result.2)
    | .ok rc => .ret (.code rc, result.2)
  | .unInit => .ret (.code (vaultUnInit s).1, (vaultUnInit s).2)
  | op => forward H s op

/-- The same answer, and the singleton is the other manager but for its type; the wrapper's own
members are not written. -/
structure InStep {α : Type} (s : Managers) (a : α × Managers) (b : α × OpenbaoKeyManager) : Prop where
  answer : a.1 = b.1
  openbao : SameButType a.2.openbao b.2
  vault : a.2.vault = s.vault

theorem vaultProg_lockstep (H : KmHost) {s : Managers} (h : SameButType s.openbao m) (op : Op) :
    Lockstep (InStep s) (vaultProg H s op) (op.prog H m) := by
  have hforward : ∀ op, Lockstep (InStep s) (forward H s op) (op.prog H m) := fun op =>
    (prog_lockstep H h op).map_left (fun _ => rfl) fun a b hab => ⟨hab.1, hab.2, rfl⟩
  cases op with
  | init exePath accessToken domainCount =>
    have htag : SameButType (s.openbao.setType .vault) m :=
      (SameButType.setType s.openbao .vault).symm.trans h
    have hinit : Lockstep (InStep s) (vaultInit H s exePath accessToken domainCount)
        (m.init H exePath accessToken domainCount) :=
      (init_lockstep H htag exePath accessToken domainCount).map_left (fun _ => rfl)
        fun a b hab => ⟨hab.1, hab.2, rfl⟩
    refine hinit.bind fun a b hab => ?_
    obtain ⟨result, s₁⟩ := a
    obtain ⟨result, m₁⟩ := b
    obtain ⟨rfl, hopenbao, hvault⟩ := hab
    cases result with
    | error e => exact .ret ⟨rfl, hopenbao, hvault⟩
    | ok rc => exact .ret ⟨rfl, hopenbao, hvault⟩
  | unInit =>
    obtain ⟨type, rfl⟩ : ∃ type, m = { s.openbao with type } := ⟨_, h⟩
    exact .ret ⟨rfl, rfl, rfl⟩
  | _ => exact hforward _

/-- One operation on each object, with the calls both make and the answer of each. -/
structure TwinCall where
  op : Op
  inInterface : InInterface op
  tr : List KmEvent
  vaultAnswer : Answer
  openbaoAnswer : Answer

/-- The vault manager beside an OpenBao manager of its own, whose vault answers the same. -/
def TwinStep (H : KmHost) (s : Managers × OpenbaoKeyManager) (call : TwinCall)
    (s' : Managers × OpenbaoKeyManager) : Prop :=
  Traces (vaultProg H s.1 call.op) call.tr (.ret (call.vaultAnswer, s'.1)) ∧
    Traces (call.op.prog H s.2) call.tr (.ret (call.openbaoAnswer, s'.2))

/-- **One operation on each.** -/
theorem TwinStep.inStep {H : KmHost} {s s' : Managers × OpenbaoKeyManager} {call : TwinCall}
    (hs : SameButType s.1.openbao s.2) (h : TwinStep H s call s') :
    call.vaultAnswer = call.openbaoAnswer ∧ SameButType s'.1.openbao s'.2 ∧
      s'.1.vault = s.1.vault := by
  obtain ⟨b, htr, hstep⟩ := (vaultProg_lockstep H hs call.op).traces h.1
  obtain rfl := Outcome.ret.inj (htr.unique h.2)
  exact ⟨hstep.answer, hstep.openbao, hstep.vault⟩

/-- What a run of both objects keeps. -/
theorem twins_of_run {H : KmHost} {s t : Managers × OpenbaoKeyManager} {calls : List TwinCall}
    (hs : SameButType s.1.openbao s.2) (hrun : Run (TwinStep H) s calls t) :
    (∀ call ∈ calls, call.vaultAnswer = call.openbaoAnswer) ∧ SameButType t.1.openbao t.2 := by
  induction hrun with
  | nil s => exact ⟨by simp, hs⟩
  | cons hstep _ ih =>
    obtain ⟨hanswer, hnext, -⟩ := hstep.inStep hs
    obtain ⟨hanswers, hlast⟩ := ih hnext
    exact ⟨List.forall_mem_cons.mpr ⟨hanswer, hanswers⟩, hlast⟩

/-- **Refinement.** In every run of a fresh vault manager and a fresh OpenBao manager whose
vaults answer the same, all operations return the same, and the singleton behind the vault
manager is the other manager but for its type. Whatever one of them can do next, the other
can, with the same calls and the same answer. -/
theorem vaultKeyManager_refines {H : KmHost} {s : Managers} {calls : List TwinCall}
    (hrun : Run (TwinStep H) ({}, {}) calls (s, m)) :
    (∀ call ∈ calls, call.vaultAnswer = call.openbaoAnswer) ∧ SameButType s.openbao m ∧
      ∀ op tr,
        (∀ answer s', Traces (vaultProg H s op) tr (.ret (answer, s')) →
          ∃ m', Traces (op.prog H m) tr (.ret (answer, m')) ∧ SameButType s'.openbao m') ∧
        (∀ answer m', Traces (op.prog H m) tr (.ret (answer, m')) →
          ∃ s', Traces (vaultProg H s op) tr (.ret (answer, s')) ∧ SameButType s'.openbao m') ∧
        ∀ x, Traces (vaultProg H s op) tr (.halt x) ↔ Traces (op.prog H m) tr (.halt x) := by
  obtain ⟨hanswers, hsame⟩ := twins_of_run (SameButType.refl _) hrun
  refine ⟨hanswers, hsame, fun op tr => ?_⟩
  have hstep := vaultProg_lockstep H hsame op
  refine ⟨?_, ?_, fun x => ⟨hstep.traces_halt, hstep.symm.traces_halt⟩⟩
  · intro answer s' htr
    obtain ⟨⟨answer', m'⟩, htr', hin⟩ := hstep.traces htr
    obtain rfl : answer = answer' := hin.answer
    exact ⟨m', htr', hin.openbao⟩
  · intro answer m' htr
    obtain ⟨⟨answer', s'⟩, htr', hin⟩ := hstep.symm.traces htr
    obtain rfl : answer' = answer := hin.answer
    exact ⟨s', htr', hin.openbao⟩

/-! ## An `Init` that both objects see -/

/-- The code and the manager of an execution that returns a code. -/
def codeAfter : Outcome Fault (Answer × OpenbaoKeyManager) → Option (KeyManagerRC × OpenbaoKeyManager)
  | .ret (.code rc, m) => some (rc, m)
  | _ => none

theorem codeAfter_eq_some {o : Outcome Fault (Answer × OpenbaoKeyManager)} {rc : KeyManagerRC}
    (h : codeAfter o = some (rc, m)) : o = .ret (.code rc, m) := by
  unfold codeAfter at h
  split at h
  · obtain ⟨rfl, rfl⟩ := Prod.mk.inj (Option.some.inj h)
    rfl
  · cases h

/-- Both are told that the vault is empty, and both return OK. -/
theorem twinInit : ∃ tr s m', TwinStep sampleHost ({}, {})
    ⟨.init (ascii "/bao") (ascii "token") 5, trivial, tr, .code .ok, .code .ok⟩ (s, m') ∧
      s.vault.inited = false ∧ m'.inited = true ∧ s.openbao.inited = true := by
  have hrun : (codeAfter (Prog.runWith emptyAnswer
      (Op.prog sampleHost {} (.init (ascii "/bao") (ascii "token") 5))).2).map
        (fun r => (r.1, r.2.inited)) = some (.ok, true) := by decide +kernel
  obtain ⟨⟨rc, m'⟩, hafter, heq⟩ := Option.map_eq_some_iff.mp hrun
  obtain ⟨rfl, hinited⟩ := Prod.mk.inj heq
  have htr := traces_runWith emptyAnswer
    (Op.prog sampleHost {} (.init (ascii "/bao") (ascii "token") 5))
  rw [codeAfter_eq_some hafter] at htr
  obtain ⟨⟨answer, s⟩, hvault, hin⟩ := (vaultProg_lockstep sampleHost (s := {})
    (SameButType.refl _) (.init (ascii "/bao") (ascii "token") 5)).symm.traces htr
  obtain rfl : answer = .code .ok := hin.answer
  have hown : s.vault.inited = false := congrArg VaultKeyManager.inited hin.vault
  have hsingleton : s.openbao.inited = m'.inited :=
    (congrArg OpenbaoKeyManager.inited hin.openbao).symm
  exact ⟨_, s, m', ⟨hvault, htr⟩, hown, hinited, hsingleton.trans hinited⟩

/-- What can be observed of the singleton is as it was. -/
def Untouched (s : Managers) : Prop :=
  s.openbao.type = .openbao ∧ s.openbao.inited = false ∧ s.openbao.domainCount.1 = domainIdMin

/-- All results agree, those of the observers too, and the singleton is as it was. -/
def AgreesThroughout (calls : List TwinCall) (s : Managers) (m : OpenbaoKeyManager) : Prop :=
  (∀ call ∈ calls, call.vaultAnswer = call.openbaoAnswer) ∧
    (s.vault.inited = m.inited ∧ s.vault.domainCount = m.domainCount.1) ∧ Untouched s

/-- After an `Init` that returned OK the wrapper still says that it is not inited, and the
singleton does not. The singleton is not what it was either, as it is meant to be. -/
theorem vaultKeyManager_disagrees :
    (¬ ∀ (H : KmHost) (calls : List TwinCall) (s : Managers) (m : OpenbaoKeyManager),
      Run (TwinStep H) ({}, {}) calls (s, m) → AgreesThroughout calls s m) ∧
    ¬ ∀ (H : KmHost) (calls : List TwinCall) (s : Managers) (m : OpenbaoKeyManager),
      Run (TwinStep H) ({}, {}) calls (s, m) → Untouched s := by
  obtain ⟨tr, s, m', hstep, hvault, hinited, hsingleton⟩ := twinInit
  refine ⟨fun hall => ?_, fun hall => ?_⟩
  · have hobservers := (hall _ _ s m' (Run.cons hstep (Run.nil _))).2.1.1
    rw [hvault, hinited] at hobservers
    cases hobservers
  · obtain ⟨-, huninited, -⟩ := hall _ _ s m' (Run.cons hstep (Run.nil _))
    cases huninited.symm.trans hsingleton

theorem vaultKeyManager_refines_init : ∃ s : Managers, ∃ m' : OpenbaoKeyManager,
    m'.inited = true ∧ SameButType s.openbao m' := by
  obtain ⟨tr, s, m', hstep, -, hinited, -⟩ := twinInit
  exact ⟨s, m', hinited, (vaultKeyManager_refines (Run.cons hstep (Run.nil _))).2.1⟩

end CdfCrypto.KeyManagement
