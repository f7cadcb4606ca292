import CdfCrypto.Kerberos.KeytabWatch

/-!
# `KrbCtx`

A context holds what it got of the Kerberos library, one handle in each field, and the entry it
took from a keytab. An operation that fails gives back what it has got so far, in a place of its
own for each way to fail.

A call of the library that fails stores nothing. `krb5_cc_destroy` and `krb5_kt_remove_entry` find
in the cache and in the keytab what they do, and a null pointer is the end of the process.
`MAX_KEYTAB_NAME_LEN` is a constant of the library and a parameter here. The loop over the entries
of a keytab is given a number of rounds; a keytab of a size that is accepted is done in fewer than
it has bytes (`getEntryLoop_safe`).
-/

namespace CdfCrypto.Kerberos

open Lib

/-! ## Calls -/

/-- What a context asks of its environment. -/
inductive CtxCall
  | read (call : WatchCall)
  | setenv (name value : Bytes)
  | krb5InitContext
  | krb5FreeContext (context : Handle)
  | krb5ParseName (context : Option Handle) (name : Bytes)
  | krb5FreePrincipal (context : Option Handle) (principal : Handle)
  | krb5PrincipalCompare (context principal : Option Handle) (entry : Option Krb5Principal)
  | krb5KtResolve (context : Option Handle) (name : Bytes)
  | krb5KtClose (context : Option Handle) (keytab : Handle)
  | krb5KtAddEntry (context keytab : Option Handle) (entry : KeytabEntry)
  | krb5KtRemoveEntry (context : Option Handle) (keytab : Handle) (entry : KeytabEntry)
  | krb5KtFreeEntry (context : Option Handle) (entry : KeytabEntry)
  | krb5CcDefault (context : Option Handle)
  | krb5CcInitialize (context ccache principal : Option Handle)
  | krb5CcStoreCred (context ccache : Option Handle)
  | krb5CcDestroy (context : Option Handle) (ccache : Handle)
  | krb5GetInitCredsOptAlloc (context : Option Handle)
  | krb5GetInitCredsOptFree (context : Option Handle) (opts : Handle)
  | krb5GetInitCredsKeytab (context principal keytab opts : Option Handle)
  | krb5FreeCredContents (context : Option Handle)

/-- A call that makes something answers its handle, unless it fails. -/
abbrev CtxCall.Reply : CtxCall → Type
  | read call => call.Reply
  | setenv _ _ => Int32
  | krb5InitContext => Option Handle
  | krb5FreeContext _ => Unit
  | krb5ParseName _ _ => Option Handle
  | krb5FreePrincipal _ _ => Unit
  | krb5PrincipalCompare _ _ _ => Bool
  | krb5KtResolve _ _ => Option Handle
  | krb5KtClose _ _ => Unit
  | krb5KtAddEntry _ _ _ => Int32
  | krb5KtRemoveEntry _ _ _ => Unit
  | krb5KtFreeEntry _ _ => Unit
  | krb5CcDefault _ => Option Handle
  | krb5CcInitialize _ _ _ => Int32
  | krb5CcStoreCred _ _ => Int32
  | krb5CcDestroy _ _ => Unit
  | krb5GetInitCredsOptAlloc _ => Option Handle
  | krb5GetInitCredsOptFree _ _ => Unit
  | krb5GetInitCredsKeytab _ _ _ _ => Int32
  | krb5FreeCredContents _ => Unit

/-- A program of a context. -/
abbrev Ctx (α : Type) := Prog CtxCall CtxCall.Reply KtFault α

/-- One call of a context and its answer. -/
abbrev CtxEvent := Event CtxCall CtxCall.Reply

/-- `KrbCtx::Impl` -/
structure KrbCtx where
  krb5Context : Option Handle := none
  principal : Option Handle := none
  keytabEntry : KeytabEntry := {}
  keytab : Option Handle := none
  ccache : Option Handle := none
  opts : Option Handle := none
  deriving DecidableEq

/-! ## The entry of a keytab -/

/-- `KerberosTSAfter` -/
def kerberosTSAfter (a b : Int32) : Bool := b.toUInt32 < a.toUInt32

def kMinKvno : UInt32 := 128
def kMaxKvno : UInt32 := 128

/-- `KerberosMoreRecent`, of the timestamps and versions of two entries. -/
def kerberosMoreRecent (k1 k2 : KeytabEntry) : Bool :=
  if ¬ kerberosTSAfter k2.timestamp k1.timestamp ∧ k1.vno < kMinKvno ∧ kMaxKvno < k2.vno then true
  else if ¬ kerberosTSAfter k1.timestamp k2.timestamp ∧ kMaxKvno < k1.vno ∧ k2.vno < kMinKvno then
    false
  else k2.vno < k1.vno

/-- `KerberosCompareEntry`: whether to go on, the current entry after it, and whether one has been
found. -/
def kerberosCompareEntry (krb5Context : Option Handle) (kvno : UInt32)
    (curEntry newEntry : KeytabEntry) (find : Bool) : Ctx (Bool × KeytabEntry × Bool) :=
  if kvno = 0 ∨ newEntry.vno = 0 then
    if curEntry.principal = none ∨ kerberosMoreRecent newEntry curEntry then do
      .perform (CtxCall.krb5KtFreeEntry krb5Context curEntry)
      .ret (true, newEntry, true)
    else do
      .perform (CtxCall.krb5KtFreeEntry krb5Context newEntry)
      .ret (true, curEntry, find)
  else if newEntry.vno = kvno then do
    .perform (CtxCall.krb5KtFreeEntry krb5Context curEntry)
    .ret (false, newEntry, true)
  else if newEntry.vno = (kvno &&& 0xff) ∧ curEntry.principal = none then
    .ret (true, newEntry, true)
  else do
    .perform (CtxCall.krb5KtFreeEntry krb5Context newEntry)
    .ret (true, curEntry, find)

/-- The loop of `KerberosGetEntry`, for so many rounds: the current entry at its end, and whether
one has been found. -/
def getEntryLoop (krb5Context principal : Option Handle) (buf : Bytes) (kvno : UInt32)
    (enctype : Int32) : Nat → UInt32 → KeytabEntry → Bool → Ctx (KeytabEntry × Bool)
  | 0, _, _, _ => .halt .diverges
  | rounds + 1, pos, curEntry, find => do
    let entry ← (watchedReadEntry buf pos).within CtxCall.read
    if ¬ entry.1 then .ret (curEntry, find)
    else do
      let newEntry := entry.2.retEntry
      let same ← .perform (CtxCall.krb5PrincipalCompare krb5Context principal newEntry.principal)
      if ¬ same ∨ (enctype ≠ 0 ∧ enctype ≠ newEntry.enctype) then do
        .perform (CtxCall.krb5KtFreeEntry krb5Context newEntry)
        getEntryLoop krb5Context principal buf kvno enctype rounds entry.2.keypos curEntry find
      else do
        let compared ← kerberosCompareEntry krb5Context kvno curEntry newEntry find
        if ¬ compared.1 then .ret compared.2
        else
          getEntryLoop krb5Context principal buf kvno enctype rounds entry.2.keypos compared.2.1
            compared.2.2

/-- `KerberosGetEntry`, with the entry that was asked for, which is written where the version of
the keytab is there. Nobody looks at the version. -/
def kerberosGetEntry (rounds : Nat) (krb5Context principal : Option Handle) (buf : Bytes)
    (kvno : UInt32) (enctype : Int32) (entry : KeytabEntry) : Ctx (KrbResult × KeytabEntry) :=
  match kerberosRead buf 2 1 0 with
  | (none, _) => .ret (⟨1, ascii "read ktVNo error"⟩, entry)
  | (some _, pos) => do
    let got ← getEntryLoop krb5Context principal buf kvno enctype rounds pos {} false
    .ret (if got.2 then ⟨0, ascii "GetEntry succeed"⟩ else ⟨1, ascii "GetEntry Failed"⟩, got.1)

/-! ## The operations -/

/-- What is done with a pointer that is not null. -/
def whenHeld (handle : Option Handle) (release : Handle → Ctx Unit) : Ctx Unit :=
  match handle with
  | none => .ret ()
  | some handle => release handle

/-- What looks into a pointer. -/
def deref (handle : Option Handle) (use : Handle → Ctx Unit) : Ctx Unit :=
  match handle with
  | none => .halt .nullPointer
  | some handle => use handle

namespace KrbCtx

/-- `KerberosUninit`, which leaves the entry. -/
def kerberosUninit (s : KrbCtx) : Ctx (KrbResult × KrbCtx) := do
  whenHeld s.principal fun principal =>
    .perform (CtxCall.krb5FreePrincipal s.krb5Context principal)
  whenHeld s.keytab fun keytab => .perform (CtxCall.krb5KtClose s.krb5Context keytab)
  whenHeld s.ccache fun ccache => .perform (CtxCall.krb5CcDestroy s.krb5Context ccache)
  whenHeld s.opts fun opts => .perform (CtxCall.krb5GetInitCredsOptFree s.krb5Context opts)
  whenHeld s.krb5Context fun context => .perform (CtxCall.krb5FreeContext context)
  .ret (⟨0, ascii "KerberosUninit succeed"⟩, { s with
    principal := none, keytab := none, ccache := none, opts := none, krb5Context := none })

/-- A failure after which nothing but the entry is kept. -/
def uninitWith (result : KrbResult) (s : KrbCtx) : Ctx (KrbResult × KrbCtx) := do
  let uninited ← s.kerberosUninit
  .ret (result, uninited.2)

/-- `KerberosInit` -/
def kerberosInit (s : KrbCtx) (inPrincipal : Bytes) : Ctx (KrbResult × KrbCtx) := do
  let context ← .perform CtxCall.krb5InitContext
  match context with
  | none => s.uninitWith ⟨1, ascii "krb5_init_context failed"⟩
  | some context => do
    let principal ← .perform (CtxCall.krb5ParseName (some context) (cstr inPrincipal))
    let s := { s with krb5Context := some context }
    match principal with
    | none => s.uninitWith ⟨1, ascii "krb5_parse_name could not parse principal"⟩
    | some principal =>
      .ret (⟨0, ascii "KerberosInit Succeed"⟩, { s with principal := some principal })

/-- The end of `KerberosInitKeytab`, from the resolved keytab on. -/
def takeEntry (rounds : Nat) (s : KrbCtx) (keytab : Handle) (keytabValue : Bytes) :
    Ctx (KrbResult × KrbCtx) := do
  let got ← kerberosGetEntry rounds s.krb5Context s.principal keytabValue 0 0 s.keytabEntry
  let s := { s with keytabEntry := got.2 }
  if got.1.mResult ≠ 0 then do
    .perform (CtxCall.krb5KtClose s.krb5Context keytab)
    { s with keytab := none }.uninitWith got.1
  else do
    let added ← .perform (CtxCall.krb5KtAddEntry s.krb5Context s.keytab s.keytabEntry)
    if added ≠ 0 then do
      .perform (CtxCall.krb5KtFreeEntry s.krb5Context s.keytabEntry)
      let s := { s with keytabEntry := { s.keytabEntry with principal := none } }
      .perform (CtxCall.krb5KtClose s.krb5Context keytab)
      { s with keytab := none }.uninitWith ⟨1, ascii "krb5_kt_add_entry failed"⟩
    else .ret (⟨0, ascii "KerberosInitKeytab Succeed"⟩, s)

/-- `KerberosInitKeytab` -/
def kerberosInitKeytab (maxKeytabNameLen rounds : Nat) (s : KrbCtx)
    (keytabValue inPrincipal memoryKeytabName : Bytes) : Ctx (KrbResult × KrbCtx) := do
  let ar ← s.kerberosInit inPrincipal
  let s := ar.2
  if ar.1.mResult ≠ 0 then .ret ar
  else if maxKeytabNameLen < memoryKeytabName.length then .ret (⟨1, []⟩, s)
  else do
    let set ← .perform (CtxCall.setenv (ascii "KRB5_KTNAME") (cstr memoryKeytabName))
    if set ≠ 0 then s.uninitWith ⟨1, []⟩
    else do
      let keytab ← .perform (CtxCall.krb5KtResolve s.krb5Context (cstr memoryKeytabName))
      match keytab with
      | none => s.uninitWith ⟨1, []⟩
      | some keytab => takeEntry rounds { s with keytab := some keytab } keytab keytabValue

/-- The first part of `KerberosDestroyKeytab`: the entry, out of the keytab. -/
def removeEntry (s : KrbCtx) : Ctx KrbCtx :=
  if s.keytabEntry.principal ≠ none then do
    deref s.keytab fun keytab =>
      .perform (CtxCall.krb5KtRemoveEntry s.krb5Context keytab s.keytabEntry)
    .perform (CtxCall.krb5KtFreeEntry s.krb5Context s.keytabEntry)
    .ret { s with keytabEntry := { s.keytabEntry with principal := none } }
  else .ret s

/-- `KerberosDestroyKeytab` -/
def kerberosDestroyKeytab (s : KrbCtx) : Ctx (KrbResult × KrbCtx) := do
  let s ← s.removeEntry
  whenHeld s.keytab fun keytab => .perform (CtxCall.krb5KtClose s.krb5Context keytab)
  { s with keytab := none }.uninitWith ⟨0, ascii "KerberosDestroyKeytab succeed"⟩

/-- A failure after which `KerberosDestroyKeytab` is called. -/
def destroyWith (result : KrbResult) (s : KrbCtx) : Ctx (KrbResult × KrbCtx) := do
  let destroyed ← s.kerberosDestroyKeytab
  .ret (result, destroyed.2)

/-- `ObtainKerberosCredentials` -/
def obtainKerberosCredentials (s : KrbCtx) : Ctx KrbResult := do
  let rc ← .perform
    (CtxCall.krb5GetInitCredsKeytab s.krb5Context s.principal s.keytab s.opts)
  if rc ≠ 0 then do
    .perform (CtxCall.krb5FreeCredContents s.krb5Context)
    .ret ⟨1, ascii "unable to login from keytab"⟩
  else do
    let inited ← .perform (CtxCall.krb5CcInitialize s.krb5Context s.ccache s.principal)
    if inited ≠ 0 then do
      .perform (CtxCall.krb5FreeCredContents s.krb5Context)
      .ret ⟨1, ascii "could not init ccache"⟩
    else do
      let stored ← .perform (CtxCall.krb5CcStoreCred s.krb5Context s.ccache)
      .perform (CtxCall.krb5FreeCredContents s.krb5Context)
      .ret (if stored ≠ 0 then ⟨1, ascii "could not store creds in cache"⟩
        else ⟨0, ascii "KerberosInitCcache Succeed"⟩)

/-- `KerberosInitCCache` -/
def kerberosInitCCache (maxKeytabNameLen rounds : Nat) (s : KrbCtx)
    (keytabValue inPrincipal memoryKeytabName inkrb5ccname : Bytes) :
    Ctx (KrbResult × KrbCtx) :=
  if maxKeytabNameLen < memoryKeytabName.length ∨ maxKeytabNameLen < inkrb5ccname.length then
    .ret (⟨1, []⟩, s)
  else do
    let ar ← s.kerberosInitKeytab maxKeytabNameLen rounds keytabValue inPrincipal memoryKeytabName
    let s := ar.2
    if ar.1.mResult ≠ 0 then .ret ar
    else do
      let set ← .perform (CtxCall.setenv (ascii "KRB5CCNAME") (cstr inkrb5ccname))
      if set ≠ 0 then s.destroyWith ⟨1, ascii "could not set KRB5CCNAME env"⟩
      else do
        let ccache ← .perform (CtxCall.krb5CcDefault s.krb5Context)
        match ccache with
        | none => do
          deref s.ccache fun ccache => .perform (CtxCall.krb5CcDestroy s.krb5Context ccache)
          { s with ccache := none }.destroyWith
            ⟨1, ascii "unable to get default credentials cache"⟩
        | some ccache => do
          let opts ← .perform (CtxCall.krb5GetInitCredsOptAlloc s.krb5Context)
          let s := { s with ccache := some ccache }
          match opts with
          | none => do
            .perform (CtxCall.krb5CcDestroy s.krb5Context ccache)
            { s with ccache := none }.destroyWith
              ⟨1, ascii "unable to allocate get_init_creds_opt struct"⟩
          | some opts => do
            let s := { s with opts := some opts }
            let credResult ← s.obtainKerberosCredentials
            if credResult.mResult = 0 then .ret (credResult, s)
            else do
              .perform (CtxCall.krb5GetInitCredsOptFree s.krb5Context opts)
              .perform (CtxCall.krb5CcDestroy s.krb5Context ccache)
              { s with opts := none, ccache := none }.destroyWith credResult

/-- `KerberosDestroyCCache` -/
def kerberosDestroyCCache (s : KrbCtx) : Ctx (KrbResult × KrbCtx) := do
  whenHeld s.opts fun opts => .perform (CtxCall.krb5GetInitCredsOptFree s.krb5Context opts)
  { s with opts := none }.destroyWith ⟨0, ascii "KerberosDestroyCcache succeed"⟩

end KrbCtx

/-! ## A sample -/

/-- Every call of the library succeeds, with one handle for each kind. -/
def granting : (call : CtxCall) → call.Reply
  | .read (.kt (.malloc size)) => some size
  | .read (.kt (.free _)) => ()
  | .read (.kt .errno) => (0 : Int32)
  | .read (.mark _) => ()
  | .setenv _ _ => (0 : Int32)
  | .krb5InitContext => some 1
  | .krb5FreeContext _ => ()
  | .krb5ParseName _ _ => some 1
  | .krb5FreePrincipal _ _ => ()
  | .krb5PrincipalCompare _ _ _ => true
  | .krb5KtResolve _ _ => some 1
  | .krb5KtClose _ _ => ()
  | .krb5KtAddEntry _ _ _ => (0 : Int32)
  | .krb5KtRemoveEntry _ _ _ => ()
  | .krb5KtFreeEntry _ _ => ()
  | .krb5CcDefault _ => some 1
  | .krb5CcInitialize _ _ _ => (0 : Int32)
  | .krb5CcStoreCred _ _ => (0 : Int32)
  | .krb5CcDestroy _ _ => ()
  | .krb5GetInitCredsOptAlloc _ => some 1
  | .krb5GetInitCredsOptFree _ _ => ()
  | .krb5GetInitCredsKeytab _ _ _ _ => (0 : Int32)
  | .krb5FreeCredContents _ => ()

/-- A version and one record: a realm, one component, no key. -/
def smallKeytab : Bytes := [5, 2, 0, 0, 0, 22, 0, 1, 0, 1, 82, 0, 1, 97, 0, 0, 0, 1, 0, 0, 0, 9, 3, 0,
  17, 0, 1, 7]

end CdfCrypto.Kerberos
