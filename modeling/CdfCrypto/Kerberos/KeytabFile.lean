import CdfCrypto.Kerberos.Define
import CdfCrypto.Cryption.Define
import CdfCrypto.Utils.FileChecks

/-!
# A keytab from a file

`GetKerberosKeytab` reads a keytab as it is, or reads what the key manager has encrypted and
decrypts it. Before it reads the second kind it asks for read access twice, and goes on only
where the first answer is yes and the second no. So of an encrypted keytab nothing is ever
loaded (`loadsEncrypted_iff`).

What the file system, the allocator and the key manager answer does not change during a call.
-/

namespace CdfCrypto.Kerberos

/-- What one call asks of the process. A path that is handed on is one of C, up to its first NUL.
`fopen` is what is in a file that can be opened. -/
structure KeytabHost where
  fs : FileSystem
  fopen : Bytes → Option Bytes
  malloc : Nat → Bool
  /-- `KmCryptor(OPENBAO).Decrypt` -/
  decrypt : CryptoSymAlg → Bytes → Nat → CryptionRC × Bytes

def maxKeypassLen : Nat := 1048576
def krbDefaultCryptoSymalg : CryptoSymAlg := .aes256Gcm
def krbDefaultDomainId : Nat := 0

namespace KeytabHost

variable (host : KeytabHost)

/-! ## Reading -/

/-- `ReadKeyTabContent` -/
def readKeyTabContent (content : Bytes) (fileSize : Nat) : Option Bytes :=
  if ¬ host.malloc fileSize then none
  else if content.length < fileSize then none
  else some (content.take fileSize)

/-- `GetKeyTabVal` -/
def getKeyTabVal (path : Bytes) : Option Bytes :=
  match host.fs.realpath (cstr path) with
  | none => none
  | some filePath =>
    match host.fopen filePath, host.fs.seekEnd filePath with
    | some content, some fileSize =>
      if fileSize ≤ 0 ∨ maxFileSize < fileSize then none
      else host.readKeyTabContent content fileSize.toNat
    | _, _ => none

/-- `ReadCipherFromFile`. The second question is the first again, with the answers the other way
round. -/
def readCipherFromFile (path : Bytes) : Option Bytes :=
  match FileUtils.canonicalPath host.fs path with
  | none => none
  | some realPath =>
    if ¬ FileUtils.checkUserAccess host.fs realPath FileUtils.readable ∨
        ¬ (FileUtils.isFileValid host.fs realPath []).1 then none
    else if FileUtils.checkUserAccess host.fs realPath FileUtils.readable then none
    else host.fopen (cstr realPath)

/-- What is written through the two pointers of `GetKerberosKeytab`. -/
structure KeytabOut where
  outKeyTab : Bytes
  length : UInt32
  deriving DecidableEq

/-- `GetKerberosKeytab`: its result, and what it has written. The two pointers it is given are told
by whether they are there. The code of the decryption is not looked at; what it gives is copied to
the front of a buffer as long as the ciphertext, and the length of that buffer is told. -/
def getKerberosKeytab (path : Bytes) (outKeyTab length keyTabEncrypted : Bool) :
    Bool × Option KeytabOut :=
  if ¬ outKeyTab ∨ ¬ length then (false, none)
  else if pathMax < path.length then (false, none)
  else if ¬ keyTabEncrypted then
    match host.getKeyTabVal path with
    | none => (false, none)
    | some keytab => (true, some ⟨keytab, UInt32.ofNat keytab.length⟩)
  else
    match host.readCipherFromFile path with
    | none => (false, none)
    | some kerberosKeytab =>
      if maxKeypassLen < kerberosKeytab.length then (false, none)
      else if ¬ host.malloc kerberosKeytab.length then (false, none)
      else
        let plainLength := kerberosKeytab.length
        let plaintext := (host.decrypt krbDefaultCryptoSymalg kerberosKeytab krbDefaultDomainId).2
        -- an empty vector has no data to copy from
        if plaintext = [] ∨ ¬ memcpyS plainLength plaintext.length then (false, none)
        else (true, some ⟨plaintext ++ List.replicate (plainLength - plaintext.length) 0,
          UInt32.ofNat plainLength⟩)

/-! ## What is loaded -/

/-- A file that can be read, and what is in it. -/
structure Readable (path content : Bytes) : Prop where
  realPath : ∃ realPath, FileUtils.canonicalPath host.fs path = some realPath ∧
    FileUtils.checkUserAccess host.fs realPath FileUtils.readable = true ∧
    (FileUtils.isFileValid host.fs realPath []).1 = true ∧
    host.fopen (cstr realPath) = some content

/-- A file that can be read and holds an encrypted keytab, where there is memory for it. -/
def Holds (path plain : Bytes) : Prop :=
  ∃ content, host.Readable path content ∧ content.length ≤ maxKeypassLen ∧
    host.malloc content.length = true ∧
    host.decrypt krbDefaultCryptoSymalg content krbDefaultDomainId = (.ok, plain)

/-- **An encrypted keytab** is loaded as it was before it was encrypted, and what cannot be
decrypted is refused. -/
structure LoadsEncrypted (path : Bytes) : Prop where
  loads : ∀ plain, host.Holds path plain → ∃ out,
    host.getKerberosKeytab path true true true = (true, some out) ∧
      out.length.toNat = plain.length ∧ out.outKeyTab.take plain.length = plain
  refuses : ∀ content, host.Readable path content →
    (host.decrypt krbDefaultCryptoSymalg content krbDefaultDomainId).1 ≠ .ok →
    host.getKerberosKeytab path true true true = (false, none)

/-- The two questions are never answered as it wants them. -/
theorem readCipherFromFile_eq (path : Bytes) : host.readCipherFromFile path = none := by
  unfold readCipherFromFile
  split
  · rfl
  next realPath _ =>
    cases FileUtils.checkUserAccess host.fs realPath FileUtils.readable with
    | false => exact if_pos (.inl Bool.false_ne_true)
    | true =>
      rw [if_pos rfl, ite_self]

theorem getKerberosKeytab_encrypted (path : Bytes) (outKeyTab length : Bool) :
    host.getKerberosKeytab path outKeyTab length true = (false, none) := by
  unfold getKerberosKeytab
  rw [readCipherFromFile_eq, if_neg (not_not.mpr rfl)]
  dsimp only
  rw [ite_self, ite_self]

/-- **Where an encrypted keytab is loaded**: nowhere. Exactly where there is none to load, the
call does what it should. -/
theorem loadsEncrypted_iff (path : Bytes) :
    host.LoadsEncrypted path ↔ ¬ ∃ plain, host.Holds path plain := by
  have hnone := host.getKerberosKeytab_encrypted path true true
  constructor
  · intro h hholds
    obtain ⟨plain, hplain⟩ := hholds
    obtain ⟨out, hout, -, -⟩ := h.loads plain hplain
    rw [hnone] at hout
    cases hout
  · intro h
    exact ⟨fun plain hplain => absurd ⟨plain, hplain⟩ h, fun _ _ _ => hnone⟩

end KeytabHost

/-- A file of two bytes, which stand for one. -/
def sampleHost : KeytabHost where
  fs :=
    { stat := fun _ => some ⟨0o100600, 2, 0⟩
      lstat := fun _ => some ⟨0o100600, 2, 0⟩
      realpath := some
      access := fun _ _ => true
      uid := 0
      seekEnd := fun _ => some 2 }
  fopen _ := some [1, 2]
  malloc _ := true
  decrypt _ _ _ := (.ok, [5])

/-- What can be read and decrypted is refused. -/
theorem encrypted_keytab_refused : ¬ ∀ (host : KeytabHost) (path : Bytes),
    host.LoadsEncrypted path := by
  intro h
  have hholds : sampleHost.Holds (ascii "/k") [5] :=
    ⟨[1, 2], ⟨⟨ascii "/k", by decide, rfl, by decide, rfl⟩⟩, by decide, rfl, rfl⟩
  obtain ⟨out, hout, -, -⟩ := (h sampleHost (ascii "/k")).loads [5] hholds
  have hnone : sampleHost.getKerberosKeytab (ascii "/k") true true true = (false, none) := by
    decide
  rw [hnone] at hout
  cases hout

end CdfCrypto.Kerberos
