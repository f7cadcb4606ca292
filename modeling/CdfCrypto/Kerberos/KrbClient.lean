import CdfCrypto.Kerberos.KrbCtx
import CdfCrypto.Kerberos.KrbServer

/-!
# `KrbClient`

`ClientInit` fills a credentials cache and imports the two names, `ClientGetCred` asks for the
first token of a handshake, and `ClientAuthServer` takes the answer of the server. All of it is
kept in the object: two names, the credentials, the security context, and the Kerberos context.

A call of GSS-API is told by what it leaves in the variables that it is given, whatever its status
is, and so is `krb5_parse_name`. Buffers are wiped before they are freed; nobody can see it.
`InitParam` clears an entry that nothing reads, and is left out.
-/

namespace CdfCrypto.Kerberos

open Lib

/-! ## Calls -/

/-- What `gss_init_sec_context` leaves in the variables it is given. -/
structure Initiated extends GssStatus where
  context : Option Handle
  outputToken : GssBuffer

/-- What a client asks of its environment. -/
inductive ClientCall
  | inContext (call : CtxCall)
  | malloc (size : Nat)
  | free (addr : Nat)
  | krb5InitContext
  | krb5FreeContext (context : Handle)
  | krb5ParseName (context : Handle) (name : Bytes)
  | krb5FreePrincipal (context : Handle) (principal : Option Handle)
  | gssImportName (name oid : Bytes)
  | gssAcquireCred (name : Option Handle)
  | gssInitSecContext (credentials context name : Option Handle) (inputToken : Option Bytes)
  | gssReleaseName (name : Option Handle)
  | gssReleaseCred (credentials : Option Handle)
  | gssReleaseBuffer (buffer : GssBuffer)
  | gssDeleteSecContext (context : Option Handle)

/-- `krb5ParseName` answers whether the name could be parsed, and what the variable holds then. -/
abbrev ClientCall.Reply : ClientCall → Type
  | inContext call => call.Reply
  | malloc _ => Option Nat
  | free _ => Unit
  | krb5InitContext => Option Handle
  | krb5FreeContext _ => Unit
  | krb5ParseName _ _ => Bool × Option Handle
  | krb5FreePrincipal _ _ => Unit
  | gssImportName _ _ => GssStatus × Option Handle
  | gssAcquireCred _ => GssStatus × Option Handle
  | gssInitSecContext _ _ _ _ => Initiated
  | gssReleaseName _ => UInt32
  | gssReleaseCred _ => UInt32
  | gssReleaseBuffer _ => UInt32
  | gssDeleteSecContext _ => UInt32

/-- A program of a client. -/
abbrev Client (α : Type) := Prog ClientCall ClientCall.Reply KtFault α

/-- One call of a client and its answer. -/
abbrev ClientEvent := Event ClientCall ClientCall.Reply

/-- `KrbClient::Impl` -/
structure KrbClient where
  gssClientName : Option Handle := none
  gssServiceName : Option Handle := none
  gssClientContext : Option Handle := none
  clientCredentials : Option Handle := none
  kerberosContext : KrbCtx := {}
  deriving DecidableEq

/-- The names of the two memory stores, `KRB5KTNAME` and `KRB5CCNAME`. -/
def krb5KtName : Bytes := ascii "MEMORY:OCKSecurityKTName"
def krb5CcName : Bytes := ascii "MEMORY:OCKSecurityCCName"

/-- The elements `ClientInitServer` takes for the type of a principal name. -/
def principalNameElements : Bytes := [0x2a, 0x86, 0x48, 0x86, 0xf7, 0x12, 0x01, 0x02, 0x02, 0x01]

/-- The text of a failure with both statuses. -/
def statusText (text : String) (majorStatus minorStatus : UInt32) : Bytes :=
  ascii text ++ decimal majorStatus.toNat ++ ascii ", minorStatus:" ++ decimal minorStatus.toNat

namespace KrbClient

/-! ## Names -/

/-- A failure after which the credentials cache is destroyed. -/
def destroyCCacheWith (result : KrbResult) (s : KrbClient) : Client (KrbResult × KrbClient) := do
  let destroyed ← s.kerberosContext.kerberosDestroyCCache.within ClientCall.inContext
  .ret (result, { s with kerberosContext := destroyed.2 })

/-- The end of a failure in which the copy of a name is there still. -/
def cleanupBuffer (addr : Nat) (failed : Client (KrbResult × KrbClient)) :
    Client (KrbResult × KrbClient) := do
  let r ← failed
  .perform (ClientCall.free addr)
  .ret r

/-- `ClientInitClient`, from the copy of the name on. -/
def importClient (s : KrbClient) (addr : Nat) (inClientName : Bytes) :
    Client (KrbResult × KrbClient) := do
  let imported ← .perform (ClientCall.gssImportName inClientName userNameElements)
  let s := { s with gssClientName := imported.2 }
  if imported.1.major ≠ gssSComplete then
    cleanupBuffer addr (s.destroyCCacheWith
      (.ofRc .cdfError "gss_import_name(inClientName) Failed"))
  else do
    let acquired ← .perform (ClientCall.gssAcquireCred s.gssClientName)
    let s := { s with clientCredentials := acquired.2 }
    if acquired.1.major ≠ gssSComplete then do
      let _ ← .perform (ClientCall.gssReleaseName s.gssClientName)
      cleanupBuffer addr ({ s with gssClientName := none }.destroyCCacheWith
        (.ofRc .cdfError "gss_acquire_cred Failed"))
    else do
      .perform (ClientCall.free addr)
      .ret (.ofRc .cdfOk "ClientInitClient Succeed", s)

/-- `ClientInitClient` -/
def clientInitClient (s : KrbClient) (inClientName : Bytes) : Client (KrbResult × KrbClient) := do
  let allocated ← .perform (ClientCall.malloc inClientName.length)
  match allocated with
  | none => s.destroyCCacheWith ⟨1, ascii "malloc Failed"⟩
  | some addr =>
    if ¬ memcpyS inClientName.length inClientName.length then
      cleanupBuffer addr (s.destroyCCacheWith ⟨1, ascii "memcpy_s error"⟩)
    else s.importClient addr inClientName

/-- `Krb5NameFormatCheckHack` -/
def krb5NameFormatCheckHack (name : Bytes) : Client Bool := do
  let context ← .perform ClientCall.krb5InitContext
  match context with
  | none => .ret false
  | some context => do
    let parsed ← .perform (ClientCall.krb5ParseName context (cstr name))
    .perform (ClientCall.krb5FreePrincipal context parsed.2)
    .perform (ClientCall.krb5FreeContext context)
    .ret parsed.1

/-- `ClientInitServer`, from the copy of the name on. -/
def importServer (s : KrbClient) (addr : Nat) (inServiceName : Bytes) :
    Client (KrbResult × KrbClient) := do
  let imported ← .perform (ClientCall.gssImportName inServiceName principalNameElements)
  let s := { s with gssServiceName := imported.2 }
  if imported.1.major ≠ gssSComplete then do
    let _ ← .perform (ClientCall.gssReleaseName s.gssClientName)
    let _ ← .perform (ClientCall.gssReleaseName s.gssServiceName)
    let _ ← .perform (ClientCall.gssReleaseCred s.clientCredentials)
    cleanupBuffer addr ({ s with
      gssClientName := none, gssServiceName := none, clientCredentials := none }.destroyCCacheWith
        (.ofRc .cdfError "gss_import_name(inServiceName) Failed"))
  else do
    .perform (ClientCall.free addr)
    .ret (.ofRc .cdfOk "ClientInitServer Succeed", s)

/-- `ClientInitServer`. Where the name or the memory is wrong, it gives nothing back. -/
def clientInitServer (s : KrbClient) (inServiceName : Bytes) : Client (KrbResult × KrbClient) := do
  let checked ← krb5NameFormatCheckHack inServiceName
  if ¬ checked then .ret (⟨1, ascii "Invalid inServiceName: " ++ inServiceName⟩, s)
  else do
    let allocated ← .perform (ClientCall.malloc inServiceName.length)
    match allocated with
    | none => .ret (⟨1, ascii "malloc Failed"⟩, s)
    | some addr =>
      if ¬ memcpyS inServiceName.length inServiceName.length then do
        .perform (ClientCall.free addr)
        .ret (⟨1, ascii "memcpy_s error"⟩, s)
      else s.importServer addr inServiceName

/-- What `ClientInit` refuses before it does anything. -/
def Refused (inClientName inServiceName keyTable : Bytes) : Prop :=
  inClientName = [] ∨ inServiceName = [] ∨ keyTable = [] ∨
    maxAllowedNameLength < inClientName.length ∨ maxAllowedNameLength < inServiceName.length ∨
      maxFileSize < keyTable.length

instance (inClientName inServiceName keyTable : Bytes) :
    Decidable (Refused inClientName inServiceName keyTable) := by
  unfold Refused
  infer_instance

/-- `ClientInit` -/
def clientInit (maxKeytabNameLen rounds : Nat) (s : KrbClient)
    (inClientName inServiceName keyTable : Bytes) : Client (KrbResult × KrbClient) :=
  if Refused inClientName inServiceName keyTable then
    .ret (.ofRc .cdfInvalidParam
      "Invalid parameter, client/server name may be empty or key table is empty or too large.", s)
  else do
    -- what these two have held is forgotten
    let s := { s with gssClientContext := none, clientCredentials := none }
    let authAr ← (s.kerberosContext.kerberosInitCCache maxKeytabNameLen rounds keyTable inClientName
      krb5KtName krb5CcName).within ClientCall.inContext
    let s := { s with kerberosContext := authAr.2 }
    if authAr.1.mResult ≠ 0 then .ret (authAr.1, s)
    else do
      let authAr ← s.clientInitClient inClientName
      if authAr.1.mResult ≠ 0 then .ret authAr
      else do
        let authAr ← authAr.2.clientInitServer inServiceName
        if authAr.1.mResult ≠ 0 then .ret authAr
        else .ret (.ofRc .cdfOk "ClientInit Succeed", authAr.2)

/-! ## The handshake -/

/-- The end of a context where there is one, with `minorStatus` after it. -/
def deleteAnyContext (minorStatus : UInt32) (s : KrbClient) : Client (UInt32 × KrbClient) :=
  if s.gssClientContext = none then .ret (minorStatus, s)
  else do
    let minorStatus ← .perform (ClientCall.gssDeleteSecContext s.gssClientContext)
    .ret (minorStatus, { s with gssClientContext := none })

/-- `ClientGetCred`. It asks for a token, and does not look at the status if there is one. -/
def clientGetCred (s : KrbClient) : Client ((KrbResult × Bytes) × KrbClient) :=
  if s.gssClientContext ≠ none then
    .ret ((⟨1, ascii "Client has already been inited"⟩, []), s)
  else do
    let got ← .perform (ClientCall.gssInitSecContext s.clientCredentials s.gssClientContext
      s.gssServiceName none)
    let s := { s with gssClientContext := got.context }
    if 0 < got.outputToken.length ∧ got.outputToken.value ≠ none then
      match got.outputToken.copy with
      | none => do
        let deleted ← s.deleteAnyContext got.minor
        .ret ((.ofRc .cdfError "memcpy_s error", []), deleted.2)
      | some outCred => do
        let _ ← .perform (ClientCall.gssReleaseBuffer got.outputToken)
        .ret ((.ofRc .cdfOk "ClientGetCred succeed", outCred), s)
    else do
      let deleted ← s.deleteAnyContext got.minor
      .ret ((⟨KrbRc.cdfError.toUInt32, statusText "gss_init_sec_context error, majorStatus:"
        got.major deleted.1⟩, []), deleted.2)

/-- The end of the credentials where there are any. -/
def releaseAnyCred (s : KrbClient) : Client KrbClient :=
  if s.clientCredentials = none then .ret s
  else do
    let _ ← .perform (ClientCall.gssReleaseCred s.clientCredentials)
    .ret { s with clientCredentials := none }

/-- `ClientAuthServer`, of the bytes at `cred`, if it is not null. -/
def clientAuthServer (s : KrbClient) (cred : Option Bytes) : Client (KrbResult × KrbClient) :=
  match cred with
  | none => .ret (.ofRc .cdfInvalidParam "ClientAuthServer parameter error", s)
  | some inputToken =>
    if inputToken = [] ∨ maxFileSize < inputToken.length then
      .ret (.ofRc .cdfInvalidParam "ClientAuthServer parameter error", s)
    else do
      let got ← .perform (ClientCall.gssInitSecContext s.clientCredentials s.gssClientContext
        s.gssServiceName (some inputToken))
      let s ← { s with gssClientContext := got.context }.releaseAnyCred
      let minorStatus ← .perform (ClientCall.gssReleaseBuffer got.outputToken)
      if got.major = gssSContinueNeeded then
        .ret (.ofRc .cdfError "ClientAuthServer Failed need continue", s)
      else if got.major = gssSComplete then .ret (.ofRc .cdfOk "ClientAuthServer Succeed", s)
      else do
        let deleted ← s.deleteAnyContext minorStatus
        .ret (⟨KrbRc.cdfError.toUInt32,
          statusText "ClientAuthServer unknown error, majorStatus:" got.major deleted.1⟩, deleted.2)

/-! ## The end -/

/-- A release of what is there. -/
def releaseAny (handle : Option Handle) (release : ClientCall) : Client Unit :=
  if handle = none then .ret ()
  else do
    let _ ← .perform release
    .ret ()

/-- `~Impl` -/
def destroy (s : KrbClient) : Client Unit := do
  releaseAny s.gssClientName (.gssReleaseName s.gssClientName)
  releaseAny s.gssServiceName (.gssReleaseName s.gssServiceName)
  releaseAny s.clientCredentials (.gssReleaseCred s.clientCredentials)
  releaseAny s.gssClientContext (.gssDeleteSecContext s.gssClientContext)
  let _ ← s.kerberosContext.kerberosDestroyCCache.within ClientCall.inContext
  .ret ()

end KrbClient

/-- `KrbClient::GetAuthentication`: whether there is an object. -/
def KrbClient.getAuthentication (name : Bytes) : Option KrbClient :=
  if name ≠ ascii "kerberos" then none else some {}

end CdfCrypto.Kerberos
