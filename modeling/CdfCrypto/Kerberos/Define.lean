import CdfCrypto.Lib.Prog
import CdfCrypto.Utils.Bytes

/-!
# The Kerberos module

A server object asks its environment for memory, for what GSS-API does, and for what its
Kerberos context does. The last is asked at the interface of the context: the keytab is read
into a memory keytab, and taken away again.

A status of GSS-API is a number, and so is the result of an operation here: `KrbRc` names a
few of its values, and the server also passes on a status where there is one.
-/

namespace CdfCrypto.Kerberos

open Lib

/-! ## Codes and constants -/

inductive KrbRc
  | cdfOk
  | cdfError
  | cdfInvalidParam
  | cdfKeyExpired
  | cdfUninited
  deriving DecidableEq, Repr

/-- `static_cast<uint32_t>(rc)` -/
def KrbRc.toUInt32 : KrbRc → UInt32
  | cdfOk => 0
  | cdfError => 1
  | cdfInvalidParam => 2
  | cdfKeyExpired => 3
  | cdfUninited => 4

structure KrbResult where
  mResult : UInt32 := 0
  mMessage : Bytes := []
  deriving DecidableEq

/-- The constructor from a code. -/
def KrbResult.ofRc (rc : KrbRc) (message : String) : KrbResult := ⟨rc.toUInt32, ascii message⟩

def maxFileSize : Nat := 1024000000
def maxAllowedNameLength : Nat := 1048576

/-- `ENOMEM` -/
def enomem : UInt32 := 12

/-- `GSS_S_COMPLETE` -/
def gssSComplete : UInt32 := 0

/-- `GSS_S_CONTINUE_NEEDED` -/
def gssSContinueNeeded : UInt32 := 1

/-- What `ServerAuth` writes through `credOut` and `credLenOut`. -/
structure CredOut where
  cred : Bytes
  len : UInt32
  deriving DecidableEq

/-! ## Calls -/

/-- A name, a context or a set of credentials of GSS-API; no handle is the null pointer. -/
abbrev Handle := Nat

/-- `gss_buffer_desc` -/
structure GssBuffer where
  length : Nat := 0
  value : Option Bytes := none
  deriving DecidableEq

/-- `memcpy_s` of a buffer of GSS-API to one of its length. -/
def GssBuffer.copy (buffer : GssBuffer) : Option Bytes :=
  match buffer.value with
  | none => none
  | some bytes =>
    if memcpyS buffer.length buffer.length then some (bytes.take buffer.length) else none

/-- `major` and `minor` are what a call returns and leaves in `minorStatus`. -/
structure GssStatus where
  major : UInt32
  minor : UInt32

/-- What `gss_accept_sec_context` leaves in the variables it is given. -/
structure Accepted extends GssStatus where
  context : Option Handle
  outputToken : GssBuffer

/-- What `gss_inquire_context` leaves in the variables it is given. -/
structure Inquired extends GssStatus where
  clientName : Option Handle
  serverName : Option Handle

/-- What a server asks of its environment. -/
inductive KrbCall
  | malloc (size : Nat)
  | kerberosInitKeytab (keytab principal : Bytes)
  | kerberosDestroyKeytab
  | gssImportName (name oid : Bytes)
  | gssAcquireCred (name : Option Handle)
  | gssReleaseName (name : Option Handle)
  | gssReleaseBuffer (buffer : GssBuffer)
  | gssAcceptSecContext (credentials : Option Handle) (inputToken : Bytes)
  | gssDeleteSecContext (context : Option Handle)
  | gssInquireContext (context : Option Handle)
  | gssDisplayName (name : Option Handle)

/-- `malloc` answers whether there was memory, `kerberosInitKeytab` the number in the result. A
release answers the minor status, and leaves no handle behind. -/
abbrev KrbCall.Reply : KrbCall → Type
  | malloc _ => Bool
  | kerberosInitKeytab _ _ => UInt32
  | kerberosDestroyKeytab => Unit
  | gssImportName _ _ => GssStatus × Option Handle
  | gssAcquireCred _ => GssStatus × Option Handle
  | gssReleaseName _ => UInt32
  | gssReleaseBuffer _ => UInt32
  | gssAcceptSecContext _ _ => Accepted
  | gssDeleteSecContext _ => UInt32
  | gssInquireContext _ => Inquired
  | gssDisplayName _ => GssStatus × GssBuffer

/-- A program of a Kerberos server; none has a step without a meaning. -/
abbrev Krb (α : Type) := Prog KrbCall KrbCall.Reply Empty α

/-- One call of a Kerberos server and its answer. -/
abbrev KrbEvent := Event KrbCall KrbCall.Reply

end CdfCrypto.Kerberos
