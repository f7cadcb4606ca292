import CdfCrypto.KeyManagement.RoundTrip

/-!
# Two managers, one singleton

`KeyManagerFactory::Borrow` hands out one of two objects. The vault manager has
state of its own that nothing ever writes, and a reference to the OpenBao manager
to which it forwards every operation; its `Init` and `UnInit` also rewrite that
manager's type tag. `KmCryptor` and the command line take the tag an object reports
for its dynamic type and cast to it (`castTo`): a cast to the other class has no
meaning. `switchType_served` of the command line is that its casts are these.

`lifeStep_type` is what one `Init` or `UnInit` does to the tag: only the two of the
vault manager write it. So the tag is right in every state of a run exactly when the
run has no `Init` of the vault manager (`typesOk_iff_of_run`): right after one, whatever
it returns, it is wrong.
-/

namespace CdfCrypto.KeyManagement

open Lib OpenbaoKeyManager

/-! ## The objects -/

/-- `VaultKeyManager`'s own members; `openbaoKeyManager` is the singleton beside it. -/
structure VaultKeyManager where
  inited : Bool := false
  domainCount : Nat := 2

/-- The two singletons. -/
structure Managers where
  openbao : OpenbaoKeyManager := {}
  vault : VaultKeyManager := {}

/-- The dynamic type of a borrowed object. -/
inductive Borrowed
  | openbao
  | vault
  deriving DecidableEq, Repr

/-- `KeyManagerFactory::Borrow` -/
def borrow : KeyManagerTy → Option Borrowed
  | .openbao => some .openbao
  | .vault => some .vault
  | .unknown => none

/-- `Type()` -/
def Borrowed.type (s : Managers) : Borrowed → KeyManagerTy
  | openbao => s.openbao.type
  | vault => .vault

/-- `VaultKeyManager::Init` -/
def vaultInit (H : KmHost) (s : Managers) (exePath accessToken : Bytes) (domainCount : Nat) :
    Km (Except StdException KeyManagerRC × Managers) := do
  let result ← (s.openbao.setType .vault).init H exePath accessToken domainCount
  .ret (result.1, { s with openbao := result.2 })

/-- `VaultKeyManager::UnInit` -/
def vaultUnInit (s : Managers) : KeyManagerRC × Managers :=
  let ret := s.openbao.unInit
  (ret.1, { s with openbao := ret.2.setType .openbao })

/-- A call of `Init` or `UnInit` through the interface. -/
inductive LifeCall
  | init (km : Borrowed) (exePath accessToken : Bytes) (domainCount : Nat)
  | unInit (km : Borrowed)

def LifeCall.prog (H : KmHost) (s : Managers) :
    LifeCall → Km (Except StdException KeyManagerRC × Managers)
  | init .openbao exePath accessToken domainCount => do
    let result ← s.openbao.init H exePath accessToken domainCount
    .ret (result.1, { s with openbao := result.2 })
  | init .vault exePath accessToken domainCount => vaultInit H s exePath accessToken domainCount
  | unInit .openbao => .ret (.ok s.openbao.unInit.1, { s with openbao := s.openbao.unInit.2 })
  | unInit .vault => .ret (.ok (vaultUnInit s).1, (vaultUnInit s).2)

/-- One call that comes back, with the code it returns or the exception it throws. -/
def LifeStep (H : KmHost) (s : Managers) (call : LifeCall) (s' : Managers) : Prop :=
  ∃ tr result, Traces (call.prog H s) tr (.ret (result, s'))

/-! ## Casts -/

/-- The `switch` over `Type()` with its `static_cast`: no case for an unknown tag. -/
def castTo (s : Managers) (km : Borrowed) : Except Fault (Option Borrowed) :=
  match km.type s with
  | .openbao => if km = .openbao then .ok (some .openbao) else .error .undefined
  | .vault => if km = .vault then .ok (some .vault) else .error .undefined
  | .unknown => .ok none

/-- `ParseKeyManagerRC` -/
def parseKeyManagerRC : KeyManagerRC → CryptionRC
  | .ok => .ok
  | .invalidParam => .invalidParam
  | .uninited => .uninited
  | _ => .error

/-- What both operations of `KmCryptor` make of the manager's answer. -/
def cryptorAnswer (result : KeyManagerRC × Bytes) : CryptionRC × Bytes :=
  (parseKeyManagerRC result.1, if result.1 = .ok then result.2 else [])

/-- `KmCryptor::Encrypt`. Both classes end in the singleton's `Encrypt`. -/
def kmCryptorEncrypt (H : KmHost) (s : Managers) (borrowedKm : Option Borrowed)
    (alg : CryptoSymAlg) (plaintext : Bytes) (domainId : Nat) :
    Km ((CryptionRC × Bytes) × Managers) :=
  match borrowedKm with
  | none => .ret ((.error, []), s)
  | some km => do
    match ← .ofExcept (castTo s km) with
    | none => .ret ((.invalidParam, []), s)
    | some _ => do
      let result ← s.openbao.encrypt H alg domainId plaintext
      .ret (cryptorAnswer result.1, { s with openbao := result.2 })

/-- `KmCryptor::Decrypt` -/
def kmCryptorDecrypt (H : KmHost) (s : Managers) (borrowedKm : Option Borrowed)
    (alg : CryptoSymAlg) (ciphertext : Bytes) (domainId : Nat) : Km (CryptionRC × Bytes) :=
  match borrowedKm with
  | none => .ret (.error, [])
  | some km => do
    match ← .ofExcept (castTo s km) with
    | none => .ret (.invalidParam, [])
    | some _ => do
      let result ← s.openbao.decrypt H alg domainId ciphertext
      .ret (cryptorAnswer result)

/-! ## What a call does to the tag -/

/-- The tag that a call leaves on the singleton. -/
def LifeCall.tag (s : Managers) : LifeCall → KeyManagerTy
  | init .openbao _ _ _ => s.openbao.type
  | init .vault _ _ _ => .vault
  | unInit .openbao => s.openbao.type
  | unInit .vault => .openbao

/-- The manager that an `Init` through the object runs on. -/
def Borrowed.initialised (s : Managers) : Borrowed → OpenbaoKeyManager
  | openbao => s.openbao
  | vault => s.openbao.setType .vault

/-- What an `Init` leaves, for either caller. -/
theorem lifeCall_init_leaves {H : KmHost} {s s' : Managers} {km : Borrowed}
    {exePath accessToken : Bytes} {domainCount : Nat} {tr : List KmEvent}
    {result : Except StdException KeyManagerRC}
    (h : Traces ((LifeCall.init km exePath accessToken domainCount).prog H s) tr
      (.ret (result, s'))) :
    InitLeaves (km.initialised s) (.ret (result, s'.openbao)) := by
  have hinit : ∀ m : OpenbaoKeyManager, Traces (do
      let result ← m.init H exePath accessToken domainCount
      .ret (result.1, { s with openbao := result.2 })) tr (.ret (result, s')) →
      InitLeaves m (.ret (result, s'.openbao)) := by
    intro m htr
    have hwp : wp (do
        let result ← m.init H exePath accessToken domainCount
        .ret (result.1, { s with openbao := result.2 }) : Km (_ × Managers)) fun _ o =>
        ∀ result s', o = .ret (result, s') → InitLeaves m (.ret (result, s'.openbao)) := by
      refine wp_bind_of (init_leaves H m exePath accessToken domainCount)
        (fun _ inited hleaves => ?_) fun _ _ _ _ _ ho => by cases ho
      intro result s' ho
      obtain ⟨rfl, rfl⟩ := Prod.mk.inj (Outcome.ret.inj ho)
      exact hleaves
    exact wp_iff.mp hwp _ _ htr _ _ rfl
  cases km with
  | openbao => exact hinit s.openbao h
  | vault => exact hinit (s.openbao.setType .vault) h

/-- **One call.** Only the two of the vault manager write the tag, and its `Init` does so
however it ends. -/
theorem lifeStep_type {H : KmHost} {s s' : Managers} {call : LifeCall}
    (h : LifeStep H s call s') : s'.openbao.type = call.tag s := by
  obtain ⟨tr, result, htr⟩ := h
  cases call with
  | init km exePath accessToken domainCount =>
    have htype := (lifeCall_init_leaves htr).1
    cases km with
    | openbao => exact htype
    | vault => exact htype
  | unInit km =>
    cases km <;> cases htr <;> rfl

/-! ## Runs -/

/-- Each object reports its own type, and each cast is to the object's class. -/
structure TypesOk (s : Managers) : Prop where
  openbao : Borrowed.openbao.type s = .openbao
  vault : Borrowed.vault.type s = .vault
  castTo : ∀ km, castTo s km = .ok (some km)

theorem typesOk_iff {s : Managers} : TypesOk s ↔ s.openbao.type = .openbao := by
  constructor
  · exact fun h => h.openbao
  · intro h
    refine ⟨h, rfl, fun km => ?_⟩
    cases km with
    | openbao => simp [castTo, Borrowed.type, h]
    | vault => rfl

/-- The call is not the vault manager's `Init`. -/
def NotVaultInit (call : LifeCall) : Prop :=
  ∀ exePath accessToken domainCount, call ≠ .init .vault exePath accessToken domainCount

theorem typesOk_step {H : KmHost} {s s' : Managers} {call : LifeCall} (hs : TypesOk s)
    (hnot : NotVaultInit call) (h : LifeStep H s call s') : TypesOk s' := by
  rw [typesOk_iff, lifeStep_type h]
  have htype := typesOk_iff.mp hs
  cases call with
  | init km exePath accessToken domainCount =>
    cases km with
    | openbao => exact htype
    | vault => exact absurd rfl (hnot exePath accessToken domainCount)
  | unInit km =>
    cases km with
    | openbao => exact htype
    | vault => rfl

/-- In every run without an `Init` of the vault manager the tags and the casts stay right. -/
theorem typesOk_of_run {H : KmHost} {s t : Managers} {calls : List LifeCall} (hs : TypesOk s)
    (hrun : Run (Guarded (fun _ => NotVaultInit) (LifeStep H)) s calls t) : TypesOk t :=
  Run.invariant (I := TypesOk) (fun _ _ _ hs hstep => typesOk_step hs hstep.1 hstep.2) hrun hs

/-- **Dispatch in every run.** From two managers never used: the tags and the casts are right in
every state a run passes if and only if no call of it is an `Init` of the vault manager. -/
theorem typesOk_iff_of_run {H : KmHost} {s : Managers} {calls : List LifeCall}
    (hrun : Run (LifeStep H) {} calls s) :
    (∀ pre post t, calls = pre ++ post → Run (LifeStep H) {} pre t → Run (LifeStep H) t post s →
      TypesOk t) ↔ ∀ call ∈ calls, NotVaultInit call := by
  constructor
  · intro hall call hcall exePath accessToken domainCount heq
    subst heq
    obtain ⟨pre, post, rfl⟩ := List.append_of_mem hcall
    -- the state right after that call
    obtain ⟨t, hpre, hrest⟩ := Run.split pre _ hrun
    cases hrest with
    | cons hstep hpost =>
      have hok := hall (pre ++ [_]) post _ (by simp) (hpre.append (.cons hstep (.nil _))) hpost
      have htype := lifeStep_type hstep
      rw [typesOk_iff.mp hok] at htype
      cases htype
  · intro hcalls pre post t heq hpre _
    subst heq
    refine typesOk_of_run (typesOk_iff.mpr rfl) (hpre.guarded ?_)
    intro before call after _ _ heq _ _ _
    subst heq
    exact hcalls call (by simp)

/-- A world in which every path is refused. -/
def refusingAnswer : (c : Call) → c.Reply
  | .canonicalPath _ => none
  | c => sampleAnswer c

/-- An `Init` of the vault manager on which the path is refused. -/
theorem lifeStep_refused :
    LifeStep sampleHost {} (.init .vault (ascii "/bao") (ascii "token") 2)
      { openbao := { type := .vault } } :=
  ⟨_, _, traces_runWith refusingAnswer
    ((LifeCall.init .vault (ascii "/bao") (ascii "token") 2).prog sampleHost {})⟩

/-- An `Init` of the vault manager that fails leaves the singleton with the wrong tag, and the next
encryption through it without a meaning. -/
theorem vaultInit_misdispatches : ¬ ∀ (H : KmHost) (s : Managers) (calls : List LifeCall),
    Run (LifeStep H) {} calls s → TypesOk s := by
  intro hall
  have hok := hall sampleHost _ _ (.cons lifeStep_refused (.nil _))
  cases hok.openbao

/-- An `Init` of the OpenBao manager that succeeds, on a vault without keys. -/
def sampleInit : LifeCall := .init .openbao (ascii "/bao") (ascii "token") 2

/-- The managers that a call leaves, where it returns OK. -/
def managersAfter : Outcome Fault (Except StdException KeyManagerRC × Managers) → Option Managers
  | .ret (.ok .ok, s) => some s
  | _ => none

theorem managersAfter_eq_some {o : Outcome Fault (Except StdException KeyManagerRC × Managers)}
    {s : Managers} (h : managersAfter o = some s) : o = .ret (.ok .ok, s) := by
  unfold managersAfter at h
  split at h
  · rw [Option.some.inj h]
  · cases h

/-- It does so on new managers, and on what its `UnInit` leaves of them. -/
theorem sampleInit_inits {exePath : Bytes} (h : exePath = [] ∨ exePath = ascii "/bao") : ∃ tr s,
    Traces (sampleInit.prog sampleHost { openbao := { exePath } }) tr (.ret (.ok .ok, s)) ∧
      s.openbao.inited = true ∧
      { s with openbao := s.openbao.unInit.2 } = { openbao := { exePath := ascii "/bao" } } := by
  have hrun : (managersAfter ((sampleInit.prog sampleHost { openbao := { exePath } }).runWith
      emptyAnswer).2).map (fun s => (s.openbao.inited, s.openbao.exePath, s.openbao.type,
        s.vault.inited, s.vault.domainCount)) =
      some (true, ascii "/bao", .openbao, false, 2) := by
    rcases h with rfl | rfl
    · decide +kernel
    · decide +kernel
  obtain ⟨⟨m, v⟩, hs, heq⟩ := Option.map_eq_some_iff.mp hrun
  obtain ⟨hinited, hpath, htype, hvault, hcount⟩ := by simpa only [Prod.mk.injEq] using heq
  have htr := traces_runWith emptyAnswer (sampleInit.prog sampleHost { openbao := { exePath } })
  rw [managersAfter_eq_some hs] at htr
  refine ⟨_, ⟨m, v⟩, htr, hinited, ?_⟩
  obtain ⟨vinited, vcount⟩ := v
  obtain ⟨rfl, rfl⟩ : vinited = false ∧ vcount = 2 := ⟨hvault, hcount⟩
  simp only [unInit, hpath, htype]

/-- The OpenBao manager is inited, and then the vault manager un-inited. -/
theorem typesOk_iff_of_run_sample : ∃ s t,
    Run (LifeStep sampleHost) {} [sampleInit] s ∧ s.openbao.inited = true ∧
    Run (LifeStep sampleHost) s [.unInit .vault] t ∧ TypesOk s ∧ TypesOk t := by
  obtain ⟨tr, s, htr, hinited, -⟩ := sampleInit_inits (.inl rfl)
  have hinit : LifeStep sampleHost {} sampleInit s := ⟨tr, _, htr⟩
  have hunInit : LifeStep sampleHost s (.unInit .vault) (vaultUnInit s).2 := ⟨_, _, .ret _⟩
  have hrun := Run.cons hinit (.cons hunInit (.nil _))
  have hall := (typesOk_iff_of_run hrun).mpr fun call hcall => by
    intro exePath accessToken domainCount heq
    subst heq
    simp [sampleInit] at hcall
  refine ⟨s, _, .cons hinit (.nil _), hinited, .cons hunInit (.nil _), ?_, ?_⟩
  · exact hall [sampleInit] [.unInit .vault] s rfl (.cons hinit (.nil _)) (.cons hunInit (.nil _))
  · exact hall [sampleInit, .unInit .vault] [] _ rfl hrun (.nil _)

/-! ## The callers -/

/-- While the types are right, the operations of the cryptor are those of the manager. -/
theorem kmCryptorEncrypt_of_typesOk {H : KmHost} {s : Managers} (hs : TypesOk s) (km : Borrowed)
    (alg : CryptoSymAlg) (plaintext : Bytes) (d : Nat) :
    kmCryptorEncrypt H s (some km) alg plaintext d = (do
      let result ← s.openbao.encrypt H alg d plaintext
      .ret (cryptorAnswer result.1, { s with openbao := result.2 })) := by
  unfold kmCryptorEncrypt
  simp only [hs.castTo km]
  rfl

theorem kmCryptorDecrypt_of_typesOk {H : KmHost} {s : Managers} (hs : TypesOk s) (km : Borrowed)
    (alg : CryptoSymAlg) (ciphertext : Bytes) (d : Nat) :
    kmCryptorDecrypt H s (some km) alg ciphertext d = (do
      let result ← s.openbao.decrypt H alg d ciphertext
      .ret (cryptorAnswer result)) := by
  unfold kmCryptorDecrypt
  simp only [hs.castTo km]
  rfl

/-- Once the singleton carries the vault's tag, every caller that borrowed it as itself casts
it to the other class. -/
theorem castTo_mistagged {s : Managers} (htype : s.openbao.type = .vault) :
    castTo s .openbao = .error .undefined := by
  unfold castTo
  rw [Borrowed.type, htype]
  rfl

theorem kmCryptor_mistagged {H : KmHost} {s : Managers} (htype : s.openbao.type = .vault) :
    (∀ alg plaintext d,
      kmCryptorEncrypt H s (some .openbao) alg plaintext d = .halt .undefined) ∧
    ∀ alg ciphertext d,
      kmCryptorDecrypt H s (some .openbao) alg ciphertext d = .halt .undefined := by
  constructor
  · intro alg plaintext d
    simp only [kmCryptorEncrypt, castTo_mistagged htype]
    rfl
  · intro alg ciphertext d
    simp only [kmCryptorDecrypt, castTo_mistagged htype]
    rfl

end CdfCrypto.KeyManagement
