import CdfCrypto.Kerberos.Define
import CdfCrypto.Lib.BigEndian

/-!
# Reading a keytab

`KrbCtx` reads a keytab from a string and a 32-bit cursor into it. An entry is filled field by
field in memory the reader asks for; where anything fails, what is there of it is given back
(the realm excepted) and the cursor stays where it has come to.

The fields of the format are copied as they are and then turned by `ntohl` or `ntohs`: here
they are read as the big-endian numbers they are.
-/

namespace CdfCrypto.Kerberos

open Lib

/-! ## Memory and calls -/

/-- What the reader asks of its environment. -/
inductive KtCall
  | malloc (size : Nat)
  | free (addr : Nat)
  | errno

/-- `malloc` answers an address, unless there is no memory. -/
abbrev KtCall.Reply : KtCall → Type
  | malloc _ => Option Nat
  | free _ => Unit
  | errno => Int32

/-- The cursor has come back to where it was, so that the loop never ends, or the library looks
into a null pointer. -/
inductive KtFault
  | diverges
  | nullPointer

/-- A program that reads a keytab. -/
abbrev Kt (α : Type) := Prog KtCall KtCall.Reply KtFault α

/-- One call of the reader and its answer. -/
abbrev KtEvent := Event KtCall KtCall.Reply

/-- Memory the reader was given, and what it has put there. -/
structure Buffer where
  addr : Nat
  bytes : Bytes
  deriving DecidableEq

/-- `krb5_principal_data`. `data` is the array of the components, of which those that are
listed have been read. -/
structure Krb5Principal where
  addr : Nat
  type : Int32 := 0
  realm : Option Buffer := none
  length : UInt16 := 0
  dataAddr : Option Nat := none
  data : List Buffer := []
  deriving DecidableEq

/-- `krb5_keytab_entry` -/
structure KeytabEntry where
  principal : Option Krb5Principal := none
  timestamp : Int32 := 0
  vno : UInt32 := 0
  enctype : Int32 := 0
  contents : Option Buffer := none
  deriving DecidableEq

/-- What the readers share: the cursor and the entry so far. -/
structure KtState where
  keypos : UInt32
  retEntry : KeytabEntry := {}
  deriving DecidableEq

/-! ## Bytes -/

/-- The loop of `KerberosRead`: `count` items of `size` bytes, with the cursor after them, or
after those there were. -/
def readItems (buf : Bytes) (size : Nat) : Nat → UInt32 → Option Bytes × UInt32
  | 0, pos => (some [], pos)
  | count + 1, pos =>
    if buf.length < pos.toNat + size then (none, pos)
    else
      let rest := readItems buf size count (pos + UInt32.ofNat size)
      (rest.1.map ((buf.drop pos.toNat).take size ++ ·), rest.2)

/-- `KerberosRead`: no bytes where it returns 0. -/
def kerberosRead (buf : Bytes) (size count : Nat) (pos : UInt32) : Option Bytes × UInt32 :=
  match readItems buf size count pos with
  | (some [], pos) => (none, pos)
  | result => result

/-- `ntohl` of four bytes that were copied. -/
def ntohl (bytes : Bytes) : UInt32 := UInt32.ofNat (BigEndian.ofBytes bytes)

/-- `ntohs` of two bytes that were copied. -/
def ntohs (bytes : Bytes) : UInt16 := UInt16.ofNat (BigEndian.ofBytes bytes)

/-! ## The size of an entry -/

/-- The loop of `KerberosReadEntrySize`, for so many rounds: its result, the size and the
cursor. A hole is as long as its size says, which is negative. -/
def readEntrySizeLoop (buf : Bytes) : Nat → UInt32 → Int32 → Kt (Int32 × Int32 × UInt32)
  | 0, _, _ => .halt .diverges
  | rounds + 1, keypos, size =>
    match kerberosRead buf 4 1 keypos with
    | (none, keypos) => .ret (1, size, keypos)
    | (some bytes, keypos) =>
      let size := (ntohl bytes).toInt32
      if size < 0 then
        if size = Int32.minValue then .ret (1, size, keypos)
        else
          let keypos := keypos + (-size).toUInt32
          if buf.length < keypos.toNat then do
            let error ← .perform KtCall.errno
            .ret (error, size, keypos)
          else readEntrySizeLoop buf rounds keypos size
      else .ret (0, size, keypos)

/-- `KerberosReadEntrySize`. A round reads at the cursor, so after more rounds than the buffer
has bytes it has read at one place twice. -/
def kerberosReadEntrySize (buf : Bytes) (keypos : UInt32) (size : Int32) :
    Kt (Int32 × Int32 × UInt32) := readEntrySizeLoop buf (buf.length + 1) keypos size

/-! ## The fields

A reader of a field returns whether it was read, for the 0 and 1 of the source. -/

/-- A number of two bytes at the cursor, with the state after it. -/
def readShort (buf : Bytes) (st : KtState) : Option UInt16 × KtState :=
  let result := kerberosRead buf 2 1 st.keypos
  (result.1.map ntohs, { st with keypos := result.2 })

/-- A number of four bytes at the cursor, with the state after it. -/
def readLong (buf : Bytes) (st : KtState) : Option UInt32 × KtState :=
  let result := kerberosRead buf 4 1 st.keypos
  (result.1.map ntohl, { st with keypos := result.2 })

/-- A number of one byte at the cursor, with the state after it. -/
def readOctet (buf : Bytes) (st : KtState) : Option UInt8 × KtState :=
  let result := kerberosRead buf 1 1 st.keypos
  (result.1.map fun bytes => bytes.headD 0, { st with keypos := result.2 })

/-- A string with its length before it: memory for it and a terminator, given back where the
string is not there. -/
def readCounted (buf : Bytes) (st : KtState) : Kt (Option Buffer × KtState) :=
  match readShort buf st with
  | (none, st) => .ret (none, st)
  | (some princSize, st) =>
    if princSize.toInt16 ≤ 0 then .ret (none, st)
    else do
      let tmpdata ← .perform (KtCall.malloc (princSize.toNat + 1))
      match tmpdata with
      | none => .ret (none, st)
      | some addr =>
        match kerberosRead buf 1 princSize.toNat st.keypos with
        | (none, keypos) => do
          .perform (KtCall.free addr)
          .ret (none, { st with keypos })
        | (some bytes, keypos) => .ret (some ⟨addr, bytes⟩, { st with keypos })

/-- The principal of the entry, changed. -/
def KtState.setPrincipal (st : KtState) (principal : Krb5Principal) : KtState :=
  { st with retEntry := { st.retEntry with principal := some principal } }

/-- `KerberosReadEntryPrincipalRealm` -/
def kerberosReadEntryPrincipalRealm (buf : Bytes) (principal : Krb5Principal) (st : KtState) :
    Kt (Bool × Krb5Principal × KtState) := do
  let realm ← readCounted buf st
  match realm with
  | (none, st) => .ret (false, principal, st)
  | (some realm, st) => .ret (true, { principal with realm := some realm }, st)

/-- `KerberosReadEntryPrincipalData`, of the component after those there are. -/
def kerberosReadEntryPrincipalData (buf : Bytes) (principal : Krb5Principal) (st : KtState) :
    Kt (Bool × Krb5Principal × KtState) := do
  let data ← readCounted buf st
  match data with
  | (none, st) => .ret (false, principal, st)
  | (some data, st) => .ret (true, { principal with data := principal.data ++ [data] }, st)

/-- The loop over the components. -/
def readComponents (buf : Bytes) : Nat → Krb5Principal → KtState →
    Kt (Bool × Krb5Principal × KtState)
  | 0, principal, st => .ret (true, principal, st)
  | count + 1, principal, st => do
    let component ← kerberosReadEntryPrincipalData buf principal st
    if ¬ component.1 then .ret component
    else readComponents buf count component.2.1 component.2.2

/-- `sizeof(krb5_principal_data)` and `sizeof(krb5_data)`, with 64-bit pointers. -/
def sizeofPrincipal : Nat := 40
def sizeofData : Nat := 16

/-- `KerberosReadEntryPrincipal` -/
def kerberosReadEntryPrincipal (buf : Bytes) (st : KtState) : Kt (Bool × KtState) :=
  match readShort buf st with
  | (none, st) => .ret (false, st)
  | (some count, st) =>
    if count.toInt16 ≤ 0 then .ret (false, st)
    else do
      let allocated ← .perform (KtCall.malloc sizeofPrincipal)
      match allocated with
      | none => .ret (false, st)
      | some addr => do
        let principal : Krb5Principal := { addr, length := count }
        let allocated ← .perform (KtCall.malloc (count.toNat * sizeofData))
        match allocated with
        | none => .ret (false, st.setPrincipal principal)
        | some dataAddr => do
          let realm ← kerberosReadEntryPrincipalRealm buf
            { principal with dataAddr := some dataAddr } st
          if ¬ realm.1 then .ret (false, realm.2.2.setPrincipal realm.2.1)
          else do
            let components ← readComponents buf count.toNat realm.2.1 realm.2.2
            let principal := components.2.1
            if ¬ components.1 then .ret (false, components.2.2.setPrincipal principal)
            else
              match readLong buf components.2.2 with
              | (none, st) => .ret (false, st.setPrincipal principal)
              | (some type, st) =>
                .ret (true, st.setPrincipal { principal with type := type.toInt32 })

/-- `KerberosReadEntryTSVNo` -/
def kerberosReadEntryTSVNo (buf : Bytes) (st : KtState) : Bool × KtState :=
  match readLong buf st with
  | (none, st) => (false, st)
  | (some timestamp, st) =>
    match readOctet buf
      { st with retEntry := { st.retEntry with timestamp := timestamp.toInt32 } } with
    | (none, st) => (false, st)
    | (some vno, st) => (true, { st with retEntry := { st.retEntry with vno := vno.toUInt32 } })

/-- `KerberosReadEntryKey`. Memory for the key stays with the entry, filled or not. -/
def kerberosReadEntryKey (buf : Bytes) (st : KtState) : Kt (Bool × KtState) :=
  match readShort buf st with
  | (none, st) => .ret (false, st)
  | (some enctype, st) =>
    match readShort buf
      { st with retEntry := { st.retEntry with enctype := enctype.toInt16.toInt32 } } with
    | (none, st) => .ret (false, st)
    | (some count, st) =>
      if count.toInt16 ≤ 0 then .ret (false, st)
      else do
        let allocated ← .perform (KtCall.malloc count.toNat)
        match allocated with
        | none => .ret (false, st)
        | some addr =>
          match kerberosRead buf 1 count.toNat st.keypos with
          | (none, keypos) =>
            .ret (false, { keypos, retEntry := { st.retEntry with contents := some ⟨addr, []⟩ } })
          | (some bytes, keypos) =>
            .ret (true, { keypos, retEntry := { st.retEntry with contents := some ⟨addr, bytes⟩ } })

/-- `KerberosReadEntryContent` -/
def kerberosReadEntryContent (buf : Bytes) (st : KtState) : Kt (Bool × KtState) := do
  let principal ← kerberosReadEntryPrincipal buf st
  if ¬ principal.1 then .ret principal
  else
    let tsvno := kerberosReadEntryTSVNo buf principal.2
    if ¬ tsvno.1 then .ret tsvno
    else kerberosReadEntryKey buf tsvno.2

/-! ## An entry -/

/-- `KerberosFreeEntryPrincipalData`, of the components that have been read. -/
def freeBuffers : List Buffer → Kt Unit
  | [] => .ret ()
  | buffer :: rest => do
    .perform (KtCall.free buffer.addr)
    freeBuffers rest

/-- `free` of what is not the null pointer. -/
def freeAny : Option Nat → Kt Unit
  | none => .ret ()
  | some addr => .perform (KtCall.free addr)

/-- `KerberosFreeEntry`, which leaves the realm. -/
def kerberosFreeEntry (entry : KeytabEntry) : Kt KeytabEntry :=
  match entry.principal with
  | none => do
    freeAny (entry.contents.map Buffer.addr)
    .ret { entry with contents := none }
  | some principal => do
    freeBuffers principal.data
    freeAny principal.dataAddr
    .perform (KtCall.free principal.addr)
    freeAny (entry.contents.map Buffer.addr)
    .ret { entry with principal := none, contents := none }

/-- The failure of an entry that has been begun. -/
def failEntry (st : KtState) : Kt (Bool × KtState) := do
  let entry ← kerberosFreeEntry st.retEntry
  .ret (false, { st with retEntry := entry })

/-- The kvno of four bytes, where the entry is long enough for it. -/
def readVno32 (buf : Bytes) (startPos : UInt32) (size : Int32) (st : KtState) : Bool × KtState :=
  if st.keypos.toNat + 4 ≤ (size.toUInt32 + startPos).toNat then
    match readLong buf st with
    | (none, st) => (false, st)
    | (some vno32, st) =>
      if vno32 ≠ 0 then (true, { st with retEntry := { st.retEntry with vno := vno32 } })
      else (true, st)
  else (true, st)

/-- `KerberosReadEntry` -/
def kerberosReadEntry (buf : Bytes) (keypos : UInt32) : Kt (Bool × KtState) := do
  let (error, size, keypos) ← kerberosReadEntrySize buf keypos 0
  if error ≠ 0 ∨ size ≤ 0 then .ret (false, { keypos })
  else do
    let startPos := keypos
    let content ← kerberosReadEntryContent buf { keypos }
    if ¬ content.1 ∨ size = 0 then failEntry content.2
    else
      let vno := readVno32 buf startPos size content.2
      if ¬ vno.1 then failEntry vno.2
      else if startPos + size.toUInt32 < vno.2.keypos then failEntry vno.2
      else .ret (true, { vno.2 with keypos := startPos + size.toUInt32 })

end CdfCrypto.Kerberos
