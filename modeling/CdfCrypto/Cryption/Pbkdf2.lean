import CdfCrypto.Cryption.Engine
import CdfCrypto.Lib.BigEndian
import CdfCrypto.Utils.Base64RoundTrip

/-!
# PBKDF2 records

`Pbkdf2Hmac` returns a derived key together with all it was derived by, in base64:

    | algorithm 1 | iterations 4 | output length 2 | output | salt |

`GetPbkdf2Config` takes the record apart again. The length of the salt stands nowhere: it is what
is left of the data. What it takes apart is a buffer on the stack, into which the decoded data has
been copied: behind the data is what the stack held before, here `memory`.

OpenSSL's derivation is a function of the digest's name, the key, the salt and the two numbers.
-/

namespace CdfCrypto

open Lib.BigEndian

/-! ## Configurations -/

inductive CcsecCryptMacAlgId
  | hmacSha256
  | hmacSha384
  | hmacSha512
  | hmacSm3
  | other (value : Nat) (named : 3 < value)
  deriving DecidableEq

namespace CcsecCryptMacAlgId

/-- `static_cast<CcsecCryptMacAlgId>(value)`. -/
def ofNat : Nat → CcsecCryptMacAlgId
  | 0 => hmacSha256
  | 1 => hmacSha384
  | 2 => hmacSha512
  | 3 => hmacSm3
  | n + 4 => other (n + 4) (by omega)

/-- `static_cast<int>(algId)` -/
def toNat : CcsecCryptMacAlgId → Nat
  | hmacSha256 => 0
  | hmacSha384 => 1
  | hmacSha512 => 2
  | hmacSm3 => 3
  | other n _ => n

@[simp] theorem ofNat_toNat (algId : CcsecCryptMacAlgId) : ofNat algId.toNat = algId := by
  cases algId with
  | other n h =>
    obtain ⟨m, rfl⟩ : ∃ m, n = m + 4 := ⟨n - 4, by omega⟩
    rfl
  | _ => rfl

end CcsecCryptMacAlgId

structure Pbkdf2ConfigStruct where
  ccsecCryptMacAlgId : CcsecCryptMacAlgId := .hmacSha256
  iterationTimes : UInt32 := 100000
  outLen : UInt32 := 64
  salt : Bytes := []
  deriving DecidableEq

def pbkdf2IterationTimesMin : UInt32 := 1000
def pbkdf2IterationTimesMax : UInt32 := 20000000
def pbkdf2OutLenMin : UInt32 := 32
def pbkdf2OutLenMax : UInt32 := 128
def pbkdf2SaltLenMin : Nat := 16
def pbkdf2SaltLenMax : Nat := 64
def pbkdf2OutOffset : Nat := 7

/-- `ValidPbkdf2Alg` -/
def validPbkdf2Alg : List CcsecCryptMacAlgId := [.hmacSha256, .hmacSha384, .hmacSha512, .hmacSm3]

/-- `ValidatePbkdf2Config` -/
def validatePbkdf2Config (config : Pbkdf2ConfigStruct) : Except CcsecCryptErrorCode Unit := do
  checkRet (config.ccsecCryptMacAlgId ∈ validPbkdf2Alg) .paramInvalid
  checkRet (¬ (config.salt.length < pbkdf2SaltLenMin ∨ pbkdf2SaltLenMax < config.salt.length))
    .paramInvalid
  checkRet (¬ (config.iterationTimes < pbkdf2IterationTimesMin ∨
    pbkdf2IterationTimesMax < config.iterationTimes)) .paramInvalid
  checkRet (¬ (config.outLen < pbkdf2OutLenMin ∨ pbkdf2OutLenMax < config.outLen)) .paramInvalid

/-! ## Derivation -/

/-- `ConvertOpenSSLAlgId`; no name is a null pointer. -/
def convertOpenSSLAlgId : CcsecCryptMacAlgId → Option String
  | .hmacSha256 => some "sha2-256"
  | .hmacSha384 => some "sha2-384"
  | .hmacSha512 => some "sha2-512"
  | .hmacSm3 => some "sm3"
  | .other _ _ => none

/-- OpenSSL's part: whether there is a digest of a name, and `PKCS5_PBKDF2_HMAC` over it, with the
length of the key as the `int` it is given and no output where it does not return 1. -/
structure OpensslPbkdf2 where
  fetchMd : String → Bool
  pbkdf2 : String → (key : Bytes) → (keyLen : Int32) → (salt : Bytes) →
    (iterationTimes outLen : UInt32) → Option Bytes
  length_eq : ∀ md key keyLen salt iterationTimes outLen out,
    pbkdf2 md key keyLen salt iterationTimes outLen = some out → out.length = outLen.toNat

/-- The first seven bytes of `outTmp`. -/
def pbkdf2Header (config : Pbkdf2ConfigStruct) : Bytes :=
  let iterationTimes := config.iterationTimes
  let outLen := config.outLen
  [config.ccsecCryptMacAlgId.toNat.toUInt8,
    (iterationTimes >>> 24 &&& 0xff).toUInt8, (iterationTimes >>> 16 &&& 0xff).toUInt8,
    (iterationTimes >>> 8 &&& 0xff).toUInt8, (iterationTimes &&& 0xff).toUInt8,
    (outLen >>> 8 &&& 0xff).toUInt8, (outLen &&& 0xff).toUInt8]

/-- `CryptoEngine::Pbkdf2Hmac` -/
def pbkdf2Hmac (O : OpensslPbkdf2) (key : Bytes) (config : Pbkdf2ConfigStruct) :
    Except CcsecCryptErrorCode Bytes := do
  checkRet (validatePbkdf2Config config = .ok ()) .paramInvalid
  let outLen := config.outLen.toNat
  let outTmp := List.replicate (pbkdf2OutOffset + outLen + config.salt.length) 0
  let outTmp := writeAt outTmp 0 (pbkdf2Header config)
  match convertOpenSSLAlgId config.ccsecCryptMacAlgId with
  -- a `std::string` of a null pointer; the validation has excluded it
  | none => .error .error
  | some md =>
    checkRet (O.fetchMd md = true) .ealCipherCtxNull
    match O.pbkdf2 md key (Int32.ofNat key.length) config.salt config.iterationTimes
      config.outLen with
    | none => .error .error
    | some out =>
      let outTmp := writeAt outTmp pbkdf2OutOffset out
      checkRet (memcpyS config.salt.length config.salt.length = true) .error
      return base64Encode (writeAt outTmp (pbkdf2OutOffset + outLen) config.salt)

/-! ## The way back -/

/-- `base64_decode_len`, in 32 bits where it is stored. -/
def base64DecodeLen (base64Len : Nat) : Nat := (base64Len / 4 * 3 + 3) % 2 ^ 32

/-- `minSrcLen` -/
def pbkdf2MinSrcLen : Nat :=
  (pbkdf2OutOffset + pbkdf2OutLenMin.toNat + pbkdf2SaltLenMin + 2) / 3 * 4

/-- What a parse does with the decoded data: it reads bytes and takes differences of 32 bits. -/
inductive Pbkdf2Access
  | read (off len : Nat)
  | subtract (minuend subtrahend : UInt32)
  deriving DecidableEq

/-- `decodeBuf[i]`: a byte of the data, or one that was there before. -/
def decodeBuf (memory : Nat → UInt8) (decodedData : Bytes) (i : Nat) : UInt8 :=
  decodedData.getD i (memory i)

/-- `std::vector::resize` -/
def resize (bytes : Bytes) (n : Nat) : Bytes :=
  bytes.take n ++ List.replicate (n - bytes.length) 0

/-- The part of `GetPbkdf2Config` after the decoding: its accesses, its result and the
configuration it leaves. -/
def readPbkdf2Config (memory : Nat → UInt8) (decodedData : Bytes) (config : Pbkdf2ConfigStruct) :
    List Pbkdf2Access × Except CcsecCryptErrorCode Unit × Pbkdf2ConfigStruct :=
  let buf := decodeBuf memory decodedData
  let decodeBufLen := UInt32.ofNat decodedData.length
  let iterationTimes := (buf 1).toUInt32 <<< 24 ||| (buf 2).toUInt32 <<< 16 |||
    (buf 3).toUInt32 <<< 8 ||| (buf 4).toUInt32
  let outLen := (buf 5).toUInt32 <<< 8 ||| (buf 6).toUInt32
  let saltLen := decodeBufLen - outLen - UInt32.ofNat pbkdf2OutOffset
  let saltAt := pbkdf2OutOffset + outLen.toNat
  let accesses := [.read 0 1, .read 1 4, .read 5 2, .subtract decodeBufLen outLen,
    .subtract (decodeBufLen - outLen) (UInt32.ofNat pbkdf2OutOffset)]
  let config := { config with
    ccsecCryptMacAlgId := .ofNat (buf 0).toNat, iterationTimes, outLen }
  if memcpyS saltLen.toNat saltLen.toNat then
    (accesses ++ [.read saltAt saltLen.toNat], .ok (),
      { config with salt := stream (fun i => buf (saltAt + i)) saltLen.toNat })
  else (accesses, .error .error, { config with salt := resize config.salt saltLen.toNat })

/-- `CryptoEngine::GetPbkdf2Config`. The only look at a size is at that of the text. -/
def getPbkdf2Config (memory : Nat → UInt8) (base64Code : Bytes) (config : Pbkdf2ConfigStruct) :
    List Pbkdf2Access × Except CcsecCryptErrorCode Unit × Pbkdf2ConfigStruct :=
  if base64Code.length < pbkdf2MinSrcLen then ([], .error .paramInvalid, config)
  else
    let decodedData := base64Decode base64Code
    if base64DecodeLen base64Code.length < decodedData.length then ([], .error .error, config)
    else readPbkdf2Config memory decodedData config

/-! ## What a record holds -/

/-- What the validation has let through. -/
structure Pbkdf2ConfigStruct.Valid (config : Pbkdf2ConfigStruct) : Prop where
  algId : config.ccsecCryptMacAlgId ∈ validPbkdf2Alg
  salt : 16 ≤ config.salt.length ∧ config.salt.length ≤ 64
  outLen : 32 ≤ config.outLen.toNat ∧ config.outLen.toNat ≤ 128

theorem checkRet_eq_ok {cond : Prop} [Decidable cond] {code : CcsecCryptErrorCode} :
    checkRet cond code = .ok () ↔ cond := by
  unfold checkRet
  split
  next h => exact iff_of_true rfl h
  next h => exact iff_of_false nofun h

theorem valid_of_validate {config : Pbkdf2ConfigStruct} (h : validatePbkdf2Config config = .ok ()) :
    config.Valid := by
  unfold validatePbkdf2Config at h
  rw [checkRet_bind_eq_ok, checkRet_bind_eq_ok, checkRet_bind_eq_ok, checkRet_eq_ok] at h
  obtain ⟨halg, hsalt, -, hout⟩ := h
  simp only [pbkdf2SaltLenMin, pbkdf2SaltLenMax] at hsalt
  simp only [UInt32.lt_iff_toNat_lt] at hout
  have hmin : pbkdf2OutLenMin.toNat = 32 := rfl
  have hmax : pbkdf2OutLenMax.toNat = 128 := rfl
  exact ⟨halg, by omega, by omega⟩

/-- The record of an output under a configuration. -/
def pbkdf2Record (config : Pbkdf2ConfigStruct) (out : Bytes) : Bytes :=
  pbkdf2Header config ++ (out ++ config.salt)

theorem pbkdf2Header_length (config : Pbkdf2ConfigStruct) : (pbkdf2Header config).length = 7 := rfl

/-- **The three writes** fill `outTmp`. -/
theorem writes_record {config : Pbkdf2ConfigStruct} {out : Bytes}
    (hout : out.length = config.outLen.toNat) :
    writeAt (writeAt (writeAt
        (List.replicate (pbkdf2OutOffset + config.outLen.toNat + config.salt.length) 0) 0
        (pbkdf2Header config)) pbkdf2OutOffset out) (pbkdf2OutOffset + config.outLen.toNat)
      config.salt = pbkdf2Record config out := by
  have hbuf : List.replicate (pbkdf2OutOffset + config.outLen.toNat + config.salt.length) (0 : UInt8) =
      List.replicate 7 0 ++
        (List.replicate config.outLen.toNat 0 ++ List.replicate config.salt.length 0) := by
    rw [List.replicate_append_replicate, List.replicate_append_replicate, ← Nat.add_assoc]
    rfl
  have hseven : (List.replicate 7 (0 : UInt8)).length = (pbkdf2Header config).length := rfl
  have hheader : ∀ rest, writeAt (List.replicate 7 0 ++ rest) 0 (pbkdf2Header config) =
      pbkdf2Header config ++ rest := fun rest => @writeAt_append [] _ rest _ 0 rfl hseven
  have hmid : (List.replicate config.outLen.toNat (0 : UInt8)).length = out.length := by
    rw [List.length_replicate, hout]
  have houtput : ∀ rest, writeAt (pbkdf2Header config ++
      (List.replicate config.outLen.toNat 0 ++ rest)) pbkdf2OutOffset out =
        pbkdf2Header config ++ (out ++ rest) := fun rest =>
    writeAt_append (pbkdf2Header_length config) hmid
  have hoff : (pbkdf2Header config ++ out).length = pbkdf2OutOffset + config.outLen.toNat := by
    rw [List.length_append, pbkdf2Header_length, hout]
    rfl
  have hsalt : writeAt (pbkdf2Header config ++ out ++
      (List.replicate config.salt.length 0 ++ [])) (pbkdf2OutOffset + config.outLen.toNat)
        config.salt = pbkdf2Header config ++ out ++ (config.salt ++ []) :=
    writeAt_append hoff List.length_replicate
  rw [List.append_nil, List.append_nil, List.append_assoc, List.append_assoc] at hsalt
  rw [hbuf, hheader, houtput, hsalt, pbkdf2Record]

/-- **What `Pbkdf2Hmac` returns** when it returns OK. -/
theorem pbkdf2Hmac_ok {O : OpensslPbkdf2} {key : Bytes} {config : Pbkdf2ConfigStruct} {r : Bytes}
    (h : pbkdf2Hmac O key config = .ok r) :
    config.Valid ∧ ∃ out, out.length = config.outLen.toNat ∧
      r = base64Encode (pbkdf2Record config out) := by
  unfold pbkdf2Hmac at h
  simp only [checkRet_bind_eq_ok] at h
  obtain ⟨hvalid, h⟩ := h
  refine ⟨valid_of_validate hvalid, ?_⟩
  split at h
  · cases h
  next md hmd =>
    rw [checkRet_bind_eq_ok] at h
    obtain ⟨-, h⟩ := h
    split at h
    · cases h
    next out hout =>
      have hlength := O.length_eq _ _ _ _ _ _ _ hout
      rw [checkRet_bind_eq_ok] at h
      obtain ⟨-, h⟩ := h
      rw [writes_record hlength] at h
      exact ⟨out, hlength, (Except.ok.inj h).symm⟩

/-! ## Round trip -/

/-- Inside the data the buffer is the data. -/
theorem decodeBuf_of_lt {memory : Nat → UInt8} {decodedData : Bytes} {i : Nat}
    (h : i < decodedData.length) (b : UInt8) :
    decodeBuf memory decodedData i = decodedData.getD i b := by
  unfold decodeBuf
  rw [List.getD_eq_getElem?_getD, List.getD_eq_getElem?_getD, List.getElem?_eq_getElem h]
  rfl

/-- A field that ends in the data is the data's. -/
theorem stream_decodeBuf (memory : Nat → UInt8) {decodedData : Bytes} {off len : Nat}
    (h : off + len ≤ decodedData.length) :
    stream (fun i => decodeBuf memory decodedData (off + i)) len = slice decodedData off len := by
  have hrest : len ≤ (decodedData.drop off).length := by
    rw [List.length_drop]
    omega
  rw [slice, ← map_getD_range hrest]
  refine List.map_congr_left fun i hi => ?_
  have hi : i < len := List.mem_range.mp hi
  rw [decodeBuf_of_lt (by omega) 0, List.getD_eq_getElem?_getD, List.getD_eq_getElem?_getD,
    List.getElem?_drop]

/-- The length of the salt, where the data is long enough for what comes before it. -/
theorem saltLen_toNat {n : Nat} (outLen : UInt32) (hn : n < 2 ^ 32) (h : 7 + outLen.toNat ≤ n) :
    (UInt32.ofNat n - outLen - UInt32.ofNat pbkdf2OutOffset).toNat = n - outLen.toNat - 7 := by
  have hnat : (UInt32.ofNat n).toNat = n := UInt32.toNat_ofNat_of_lt' hn
  have hseven : (UInt32.ofNat pbkdf2OutOffset).toNat = 7 := rfl
  rw [UInt32.toNat_sub, UInt32.toNat_sub, hnat, hseven]
  omega

/-- **A record is read back**, whatever the stack holds behind it. -/
theorem readPbkdf2Config_record (memory : Nat → UInt8) {config : Pbkdf2ConfigStruct} {out : Bytes}
    (hvalid : config.Valid) (hout : out.length = config.outLen.toNat)
    (config₀ : Pbkdf2ConfigStruct) :
    (readPbkdf2Config memory (pbkdf2Record config out) config₀).2 = (.ok (), config) := by
  obtain ⟨hsaltMin, hsaltMax⟩ := hvalid.salt
  obtain ⟨houtMin, houtMax⟩ := hvalid.outLen
  have hlength : (pbkdf2Record config out).length = 7 + config.outLen.toNat + config.salt.length := by
    rw [pbkdf2Record, List.length_append, List.length_append, pbkdf2Header_length, hout,
      Nat.add_assoc]
  have halg : CcsecCryptMacAlgId.ofNat config.ccsecCryptMacAlgId.toNat.toUInt8.toNat =
      config.ccsecCryptMacAlgId := by
    have hmem := hvalid.algId
    simp only [validPbkdf2Alg, List.mem_cons, List.not_mem_nil, or_false] at hmem
    obtain h | h | h | h := hmem <;> rw [h] <;> rfl
  -- the seven bytes of the header stand at the front, whatever follows
  have halg : CcsecCryptMacAlgId.ofNat (decodeBuf memory (pbkdf2Record config out) 0).toNat =
      config.ccsecCryptMacAlgId := halg
  have hiteration : (decodeBuf memory (pbkdf2Record config out) 1).toUInt32 <<< 24 |||
      (decodeBuf memory (pbkdf2Record config out) 2).toUInt32 <<< 16 |||
      (decodeBuf memory (pbkdf2Record config out) 3).toUInt32 <<< 8 |||
      (decodeBuf memory (pbkdf2Record config out) 4).toUInt32 = config.iterationTimes :=
    be32_shifts config.iterationTimes
  have houtLen : (decodeBuf memory (pbkdf2Record config out) 5).toUInt32 <<< 8 |||
      (decodeBuf memory (pbkdf2Record config out) 6).toUInt32 = config.outLen :=
    be16_shifts (show config.outLen.toNat < 2 ^ 16 by omega)
  have hsaltLen := saltLen_toNat config.outLen (hlength ▸ (by omega :
    7 + config.outLen.toNat + config.salt.length < 2 ^ 32)) (by omega)
  have hsaltLen' : (pbkdf2Record config out).length - config.outLen.toNat - 7 =
      config.salt.length := by omega
  rw [hsaltLen'] at hsaltLen
  have hcopy : memcpyS config.salt.length config.salt.length = true := by
    simp only [memcpyS, Bool.and_eq_true, decide_eq_true_eq]
    omega
  have hslice : slice (pbkdf2Record config out) (7 + config.outLen.toNat) config.salt.length =
      config.salt := by
    have hoff : (pbkdf2Header config ++ out).length = 7 + config.outLen.toNat := by
      rw [List.length_append, pbkdf2Header_length, hout]
    have hfields : pbkdf2Record config out = pbkdf2Header config ++ out ++ (config.salt ++ []) := by
      rw [List.append_nil, List.append_assoc, pbkdf2Record]
    rw [hfields]
    exact slice_append hoff rfl
  have hsalt := stream_decodeBuf memory (show 7 + config.outLen.toNat + config.salt.length ≤
    (pbkdf2Record config out).length by omega)
  rw [hslice] at hsalt
  unfold readPbkdf2Config
  dsimp only
  rw [houtLen, hsaltLen, if_pos hcopy, hiteration, halg]
  show (Except.ok (), { config with salt := stream _ _ }) = _
  rw [show pbkdf2OutOffset = 7 from rfl, hsalt]

/-- **Round trip.** A record gives the configuration it was made by, and that makes it again. -/
theorem getPbkdf2Config_pbkdf2Hmac {O : OpensslPbkdf2} {key : Bytes} {config : Pbkdf2ConfigStruct}
    {r : Bytes} (h : pbkdf2Hmac O key config = .ok r) (memory : Nat → UInt8)
    (config₀ : Pbkdf2ConfigStruct) :
    (getPbkdf2Config memory r config₀).2 = (.ok (), config) ∧
      pbkdf2Hmac O key (getPbkdf2Config memory r config₀).2.2 = .ok r := by
  obtain ⟨hvalid, out, hout, rfl⟩ := pbkdf2Hmac_ok h
  obtain ⟨hsaltMin, hsaltMax⟩ := hvalid.salt
  obtain ⟨houtMin, houtMax⟩ := hvalid.outLen
  have hrecord : (pbkdf2Record config out).length = 7 + config.outLen.toNat + config.salt.length := by
    rw [pbkdf2Record, List.length_append, List.length_append, pbkdf2Header_length, hout,
      Nat.add_assoc]
  have hlength : (base64Encode (pbkdf2Record config out)).length = _ :=
    base64Encode_length (by omega)
  have hmin : pbkdf2MinSrcLen = 76 := rfl
  have hback : (getPbkdf2Config memory (base64Encode (pbkdf2Record config out)) config₀).2 =
      (.ok (), config) := by
    unfold getPbkdf2Config
    rw [if_neg (by omega), base64Decode_base64Encode (by omega), base64DecodeLen]
    dsimp only
    rw [if_neg (by omega)]
    exact readPbkdf2Config_record memory hvalid hout config₀
  refine ⟨hback, ?_⟩
  rw [hback]
  exact h

/-- A derivation that repeats the salt. -/
def saltPbkdf2 : OpensslPbkdf2 where
  fetchMd _ := true
  pbkdf2 _ _ _ salt _ outLen := some (stream (fun i => salt.getD (i % 16) 0) outLen.toNat)
  length_eq _ _ _ _ _ _ out h := by
    obtain rfl := Option.some.inj h
    exact stream_length _ _

def sampleConfig : Pbkdf2ConfigStruct :=
  { ccsecCryptMacAlgId := .hmacSm3, iterationTimes := 10251, outLen := 33,
    salt := stream (fun i => (200 + i).toUInt8) 16 }

theorem getPbkdf2Config_pbkdf2Hmac_sample :
    ∃ r, (getPbkdf2Config (fun _ => 0xaa) r {}).2 = (.ok (), sampleConfig) ∧
      pbkdf2Hmac saltPbkdf2 (ascii "23134143nsjahed2qu")
        (getPbkdf2Config (fun _ => 0xaa) r {}).2.2 = .ok r := by
  have hok : (pbkdf2Hmac saltPbkdf2 (ascii "23134143nsjahed2qu") sampleConfig).isOk = true := by
    decide +kernel
  cases hr : pbkdf2Hmac saltPbkdf2 (ascii "23134143nsjahed2qu") sampleConfig with
  | ok r => exact ⟨r, getPbkdf2Config_pbkdf2Hmac hr _ _⟩
  | error code =>
    rw [hr] at hok
    cases hok

end CdfCrypto
