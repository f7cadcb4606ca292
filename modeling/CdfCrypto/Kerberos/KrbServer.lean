import CdfCrypto.Kerberos.Define
import CdfCrypto.Lib.Decimal

/-!
# `KrbServer`

`ServerInit` reads the keytab and asks for credentials, `ServerAuth` accepts one client. What
`ServerAuth` asks first, whether there has been a `ServerInit`, is one variable of the process,
`g_initial`, and not of the object: it is a parameter here, and a result of `ServerInit`.

A release with nothing to look at afterwards (`free`) is left out. The two pointers
`ServerAuth` writes through are given by whether they are there, and come back as what was
written.
-/

namespace CdfCrypto.Kerberos

open Lib

/-- `KrbServer::Impl`. The context of Kerberos is asked at its interface. -/
structure KrbServer where
  gssServiceName : Option Handle := none
  gssServerContext : Option Handle := none
  serverCredOut : Option Bytes := none
  clientPrincipName : Bytes := []
  serverCredentials : Option Handle := none
  deriving DecidableEq

/-- The elements `ServerInit` takes for the type of a user name. -/
def userNameElements : Bytes := [0x2a, 0x86, 0x48, 0x86, 0xf7, 0x12, 0x01, 0x02, 0x01, 0x01]

/-- A copy of a name in memory of its own; the caller looks at the result only where it fails. -/
def makeGss (data : Bytes) : Krb (Except KrbResult Bytes) :=
  if 1024 * 1024 < data.length ∨ data = [] then
    .ret (.error ⟨1, ascii "data size exceeds maximum allowed size"⟩)
  else do
    let allocated ← .perform (KrbCall.malloc data.length)
    if ¬ allocated then .ret (.error ⟨1, ascii "malloc failed"⟩)
    else if ¬ memcpyS data.length data.length then .ret (.error ⟨1, ascii "memcpy_s error"⟩)
    else .ret (.ok data)

/-- `MakeGssOIDDescStruct` -/
def makeGssOIDDescStruct (data : Bytes) : Krb (Except KrbResult Bytes) := makeGss data

/-- `MakeGssBufferDesc` -/
def makeGssBufferDesc (data : Bytes) : Krb (Except KrbResult Bytes) := makeGss data

/-- The status an operation passes on: the minor one where there is one. -/
def statusOf (minorStatus majorStatus : UInt32) : UInt32 :=
  if minorStatus ≠ 0 then minorStatus else majorStatus

namespace KrbServer

/-- `ServerInit`, with `g_initial` after it. -/
def serverInit (initial : Bool) (s : KrbServer) (servicePrincipleName keyTable : Bytes) :
    Krb (KrbResult × Bool × KrbServer) :=
  if servicePrincipleName = [] ∨ keyTable = [] ∨
      maxAllowedNameLength < servicePrincipleName.length ∨ maxFileSize < keyTable.length then
    .ret (.ofRc .cdfInvalidParam "ServerInit parameter error", initial, s)
  else do
    let keytab ← .perform (KrbCall.kerberosInitKeytab keyTable servicePrincipleName)
    if keytab ≠ 0 then .ret (.ofRc .cdfError "ServerInit keytab error", initial, s)
    else
      let s := { s with serverCredentials := none, gssServerContext := none }
      do
        let gssUserName ← makeGssOIDDescStruct userNameElements
        match gssUserName with
        | .error _ => .ret (.ofRc .cdfError "make gssOIDDescStruct error", initial, s)
        | .ok oid => do
          let serviceNameBuffer ← makeGssBufferDesc servicePrincipleName
          match serviceNameBuffer with
          | .error _ => .ret (.ofRc .cdfError "make gssBufferDesc error", initial, s)
          | .ok name => do
            let imported ← .perform (KrbCall.gssImportName name oid)
            let s := { s with gssServiceName := imported.2 }
            if imported.1.major ≠ gssSComplete then do
              let _ ← .perform KrbCall.kerberosDestroyKeytab
              .ret (.ofRc .cdfError "gss_import_name Failed", initial, s)
            else do
              let acquired ← .perform (KrbCall.gssAcquireCred s.gssServiceName)
              let s := { s with serverCredentials := acquired.2 }
              if acquired.1.major ≠ gssSComplete then do
                let _ ← .perform (KrbCall.gssReleaseName s.gssServiceName)
                let _ ← .perform KrbCall.kerberosDestroyKeytab
                .ret (.ofRc .cdfError "ServerInit gss_acquire_cred error", initial,
                  { s with gssServiceName := none })
              else .ret (.ofRc .cdfOk "ServerInit success", true, s)

/-! ## A client -/

/-- The release of a name, where there is one, with `minorStatus` after it. -/
def releaseName (minorStatus : UInt32) (name : Option Handle) : Krb UInt32 :=
  if name = none then .ret minorStatus else .perform (KrbCall.gssReleaseName name)

/-- `FreeClientPrincipalRes`, with `minorStatus` after it. -/
def freeClientPrincipalRes (minorStatus : UInt32) (tmpClientName tmpServerName : Option Handle)
    (clientNameToken : GssBuffer) : Krb UInt32 := do
  let minorStatus ← releaseName minorStatus tmpClientName
  let minorStatus ← releaseName minorStatus tmpServerName
  if clientNameToken.value = none then .ret minorStatus
  else .perform (KrbCall.gssReleaseBuffer clientNameToken)

/-- `ServerGetClientPrincipal` -/
def serverGetClientPrincipal (s : KrbServer) : Krb (KrbResult × KrbServer) := do
  let inquired ← .perform (KrbCall.gssInquireContext s.gssServerContext)
  if inquired.major ≠ gssSComplete then
    .ret (⟨statusOf inquired.minor inquired.major,
      ascii "gss_inquire_context failed, majorStatus:" ++ decimal inquired.major.toNat ++
        ascii ", minorStatus:" ++ decimal inquired.minor.toNat⟩, s)
  else do
    let displayed ← .perform (KrbCall.gssDisplayName inquired.clientName)
    let clientNameToken := displayed.2
    let free := freeClientPrincipalRes displayed.1.minor inquired.clientName inquired.serverName
      clientNameToken
    if displayed.1.major ≠ gssSComplete then do
      let minorStatus ← free
      .ret (⟨statusOf minorStatus displayed.1.major, ascii "gss_display_name failed"⟩, s)
    else if clientNameToken.length ≤ 0 then do
      let _ ← free
      .ret (.ofRc .cdfError "clientNameToken.length failed", s)
    else do
      let allocated ← .perform (KrbCall.malloc (clientNameToken.length + 1))
      if ¬ allocated then do
        let _ ← free
        .ret (⟨enomem, ascii "clientPrincipal malloc failed"⟩, s)
      else
        match clientNameToken.copy with
        | none => do
          let _ ← free
          .ret (⟨enomem, ascii "clientPrincipal malloc failed"⟩, s)
        | some clientPrincipal => do
          let _ ← free
          -- the name is taken up to its first NUL
          .ret (.ofRc .cdfOk "ServerGetClientPrincipal succeed",
            { s with clientPrincipName := cstr clientPrincipal })

/-- `HandleServerAuthOutputToken`. Its caller has looked at the two pointers. -/
def handleServerAuthOutputToken (s : KrbServer) (outputToken : GssBuffer) :
    Krb (KrbResult × Option CredOut × KrbServer) :=
  if outputToken.length = 0 ∨ outputToken.value = none then
    .ret (.ofRc .cdfError "outputToken is empty", none, s)
  else do
    let allocated ← .perform (KrbCall.malloc outputToken.length)
    if ¬ allocated then
      .ret (.ofRc .cdfError "malloc failed", none, { s with serverCredOut := none })
    else
      match outputToken.copy with
      | none => .ret (.ofRc .cdfError "memcpy_s failed", none, { s with serverCredOut := none })
      | some cred => do
        let _ ← .perform (KrbCall.gssReleaseBuffer outputToken)
        .ret (.ofRc .cdfOk "OK", some ⟨cred, UInt32.ofNat outputToken.length⟩,
          { s with serverCredOut := some cred })

/-- The end of a context, with `minorStatus` after it. -/
def deleteSecContext (s : KrbServer) : Krb (UInt32 × KrbServer) := do
  let minorStatus ← .perform (KrbCall.gssDeleteSecContext s.gssServerContext)
  .ret (minorStatus, { s with gssServerContext := none })

/-- The end of a context where there is one. -/
def deleteAnyContext (s : KrbServer) : Krb KrbServer :=
  if s.gssServerContext = none then .ret s
  else do
    let deleted ← s.deleteSecContext
    .ret deleted.2

/-- Both refusals of `CheckReturn`. -/
def refuse (s : KrbServer) (majorStatus : UInt32) : Krb (KrbResult × KrbServer) := do
  let deleted ← s.deleteSecContext
  .ret (⟨statusOf deleted.1 majorStatus,
    ascii "ServerAuth Failed, minorStatus[" ++ decimal deleted.1.toNat ++
      ascii "], majorStatus[" ++ decimal majorStatus.toNat ++ ascii "]"⟩, deleted.2)

/-- `CheckReturn` -/
def checkReturn (s : KrbServer) (majorStatus : UInt32) : Krb (KrbResult × KrbServer) :=
  if majorStatus ≠ gssSComplete ∧ majorStatus ≠ gssSContinueNeeded then s.refuse majorStatus
  else if majorStatus = gssSContinueNeeded then s.refuse majorStatus
  else .ret (.ofRc .cdfOk "checkout success", s)

/-- `ServerAuth`, with what it has written. -/
def serverAuth (initial : Bool) (s : KrbServer) (credIn : Bytes) (credOut credLenOut : Bool) :
    Krb (KrbResult × Option CredOut × KrbServer) :=
  if ¬ initial then .ret (.ofRc .cdfUninited "Server is not inited", none, s)
  else if ¬ credOut ∨ ¬ credLenOut then
    .ret (.ofRc .cdfError "Output parameters are null", none, s)
  else if credIn = [] ∨ maxFileSize < credIn.length then
    .ret (.ofRc .cdfInvalidParam "ServerAuth parameter error", none, s)
  else do
    let accepted ← .perform (KrbCall.gssAcceptSecContext s.serverCredentials credIn)
    let s := { s with serverCredOut := none, gssServerContext := accepted.context }
    do
      let (authResult, written, s) ← s.handleServerAuthOutputToken accepted.outputToken
      if authResult.mResult ≠ KrbRc.cdfOk.toUInt32 then do
        let s ← s.deleteAnyContext
        let _ ← .perform (KrbCall.gssReleaseBuffer accepted.outputToken)
        .ret (authResult, written, s)
      else do
        let (checked, s) ← s.checkReturn accepted.major
        if checked.mResult ≠ 0 then .ret (checked, written, s)
        else do
          let (principal, s) ← s.serverGetClientPrincipal
          let deleted ← s.deleteSecContext
          .ret (principal, written, deleted.2)

end KrbServer

end CdfCrypto.Kerberos
