import CdfCrypto.Cryption.Define
import CdfCrypto.Utils.Bytes

/-!
# `NativeCryptor`

Symmetric encryption over OpenSSL. A ciphertext is the buffer

    | IV 12 | AAD 16 | TAG 16 | cipher data |

which the caller allocates without initialising it and the engine fills field by
field; `SM4_CTR` reads a 16-byte IV, so it shares four bytes with the AAD field.

OpenSSL is not part of the repository. What its ciphers compute is `Ciphers`;
what each call of one operation returns, the random bytes and the garbage in the
uninitialised buffers are an `OpensslWorld`. The suite the engine singleton still
holds from an earlier call does not appear: every operation sets it first.
-/

namespace CdfCrypto

inductive CcsecCipherSuite
  | aesGcm128
  | aesGcm256
  | aesCcm128
  | chacha20Poly1305
  | sm4Ctr
  | unspecified
  deriving DecidableEq, Repr

/-- The error codes the engine returns. -/
inductive CcsecCryptErrorCode
  | error
  | paramInvalid
  | ealCipherCtxNull
  | ealErrAlgid
  | aesErrKeylen
  deriving DecidableEq, Repr

/-- `PLAINTEXT_MAX_LENGTH` -/
def plaintextMaxLength : Nat := 1024 * 1024

/-- `CIPHERTEXT_MAX_LENGTH` -/
def ciphertextMaxLength : Nat := 2 * 1024 * 1024

def getCipherSuite : CryptoSymAlg → CcsecCipherSuite
  | .aes128Gcm => .aesGcm128
  | .aes256Gcm => .aesGcm256
  | .sm4Ctr => .sm4Ctr
  | .aes128Ccm => .aesCcm128
  | .chacha20Poly1305 => .chacha20Poly1305
  | .unknown => .unspecified
  | .other _ _ => .unspecified

/-! ## The layout -/

namespace CcsecCipherSuite

/-- `GetIVLength` -/
def ivLength (suite : CcsecCipherSuite) : Nat := if suite = sm4Ctr then 16 else 12

/-- `GetAADLength` -/
def aadLength (_ : CcsecCipherSuite) : Nat := 16

/-- `GetAlgLen`, in bits. -/
def algLen : CcsecCipherSuite → Nat
  | aesGcm128 => 128
  | aesCcm128 => 128
  | sm4Ctr => 128
  | aesGcm256 => 256
  | chacha20Poly1305 => 256
  | unspecified => 0

end CcsecCipherSuite

def tagLength : Nat := 16
def ivOffset : Nat := 0
def aadOffset : Nat := 12
def tagOffset : Nat := 28
def cipherOffset : Nat := 44

def estimatedCipherLen (plainTextLen : Nat) : Nat :=
  if plainTextLen + cipherOffset < 2 ^ 32 then plainTextLen + cipherOffset else 0

def estimatedPlainLen (cipherTextLen : Nat) : Nat :=
  if cipherTextLen ≤ cipherOffset then 0 else cipherTextLen - cipherOffset

/-! ## OpenSSL -/

/-- What the ciphers compute. `encrypt` and `decrypt` are the raw transformations
`EVP_*Update` writes, `tag` what `EVP_CTRL_*_GET_TAG` gives after an encryption,
`verify` whether the tag set for a decryption is the right one. -/
structure Ciphers where
  ivLength : CcsecCipherSuite → Nat
  keyLength : CcsecCipherSuite → Nat
  encrypt : CcsecCipherSuite → (key iv aad plainText : Bytes) → Bytes
  tag : CcsecCipherSuite → (key iv aad plainText : Bytes) → Bytes
  decrypt : CcsecCipherSuite → (key iv aad cipherData : Bytes) → Bytes
  verify : CcsecCipherSuite → (key iv aad cipherData tag : Bytes) → Bool

/-- The results of the calls one operation makes, in the order it makes them. A
field stands for the call of its kind; a path that makes no such call does not
read it. `1` is OpenSSL's success, `0` is `GetRand`'s. -/
structure OpensslWorld where
  memory : Nat → UInt8
  randIv : Int
  ivBytes : Nat → UInt8
  randAad : Int
  aadBytes : Nat → UInt8
  ctxNew : Bool
  fetchCipher : Bool
  init : Int
  setIvLength : Int
  setTagLength : Int
  initKey : Int
  setLength : Int
  aadUpdate : Int
  aadOutLength : Nat
  update : Int
  final : Int
  ctrlTag : Int
  tagLength : Nat

/-- A call that must succeed. -/
def checkRet (cond : Prop) [Decidable cond] (code : CcsecCryptErrorCode) :
    Except CcsecCryptErrorCode Unit :=
  if cond then .ok () else .error code

/-! ## Encryption -/

/-- The two `GetRand` calls, which fill the IV and the AAD field. -/
def fillRandom (w : OpensslWorld) (suite : CcsecCipherSuite) (cipherText : Bytes) :
    Except CcsecCryptErrorCode Bytes := do
  checkRet (w.randIv = 0) .error
  let cipherText := writeAt cipherText ivOffset (stream w.ivBytes suite.ivLength)
  checkRet (w.randAad = 0) .error
  return writeAt cipherText aadOffset (stream w.aadBytes suite.aadLength)

/-- `OpensslCcmEncrypt`. The last check returns `false`, which is the success code. -/
def opensslCcmEncrypt (C : Ciphers) (w : OpensslWorld) (suite : CcsecCipherSuite)
    (cryptoKey plainText cipherText : Bytes) : Except CcsecCryptErrorCode Bytes := do
  let cipherText ← fillRandom w suite cipherText
  let iv := slice cipherText ivOffset suite.ivLength
  let aad := slice cipherText aadOffset suite.aadLength
  checkRet (w.ctxNew = true) .ealCipherCtxNull
  checkRet (w.fetchCipher = true) .ealCipherCtxNull
  checkRet (w.init = 1) .error
  checkRet (w.setIvLength = 1) .error
  checkRet (w.setTagLength = 1) .error
  checkRet (w.initKey = 1) .error
  checkRet (w.setLength = 1) .error
  checkRet (w.aadUpdate = 1) .error
  checkRet (w.update = 1) .error
  let cipherText := writeAt cipherText cipherOffset (C.encrypt suite cryptoKey iv aad plainText)
  checkRet (w.final = 1) .error
  checkRet (w.ctrlTag = 1) .error
  let cipherText := writeAt cipherText tagOffset (C.tag suite cryptoKey iv aad plainText)
  if w.tagLength ≠ tagLength then
    -- `return false`: an `int32_t` zero, that is `CCSEC_CRYPT_OK`
    return cipherText
  else return cipherText

/-- `OpensslEncrypt` -/
def opensslEncrypt (C : Ciphers) (w : OpensslWorld) (suite : CcsecCipherSuite)
    (cryptoKey plainText cipherText : Bytes) : Except CcsecCryptErrorCode Bytes := do
  if suite = .aesCcm128 then opensslCcmEncrypt C w suite cryptoKey plainText cipherText
  else
    let cipherText ← fillRandom w suite cipherText
    checkRet (w.ctxNew = true) .ealCipherCtxNull
    checkRet (w.fetchCipher = true) .ealCipherCtxNull
    checkRet (suite.ivLength = C.ivLength suite ∧ cryptoKey.length = C.keyLength suite) .error
    let iv := slice cipherText ivOffset suite.ivLength
    checkRet (w.init = 1) .error
    -- SM4 in counter mode takes no associated data
    let aad := if suite = .sm4Ctr then [] else slice cipherText aadOffset suite.aadLength
    checkRet (suite = .sm4Ctr ∨ w.aadUpdate = 1) .error
    checkRet (w.update = 1) .error
    let cipherText := writeAt cipherText cipherOffset (C.encrypt suite cryptoKey iv aad plainText)
    checkRet (w.final = 1) .error
    checkRet (suite = .sm4Ctr ∨ w.ctrlTag = 1) .error
    return if suite = .sm4Ctr then cipherText
      else writeAt cipherText tagOffset (C.tag suite cryptoKey iv aad plainText)

/-- `CryptoEngine::Encrypt` -/
def engineEncrypt (C : Ciphers) (w : OpensslWorld) (suite : CcsecCipherSuite)
    (cryptoKey plainText cipherText : Bytes) : Except CcsecCryptErrorCode Bytes := do
  checkRet (plainText ≠ [] ∧ cryptoKey ≠ []) .paramInvalid
  checkRet (cryptoKey.length ≤ (2 ^ 32 - 1) / 8) .aesErrKeylen
  checkRet (cryptoKey.length * 8 = suite.algLen) .aesErrKeylen
  checkRet (suite.algLen ≠ 0) .ealErrAlgid
  opensslEncrypt C w suite cryptoKey plainText cipherText

/-! ## Decryption -/

/-- `OpensslCcmDecrypt`: the update itself fails where the tag is wrong. -/
def opensslCcmDecrypt (C : Ciphers) (w : OpensslWorld) (suite : CcsecCipherSuite)
    (cryptoKey cipherText plainText : Bytes) : Except CcsecCryptErrorCode Bytes := do
  let iv := slice cipherText ivOffset suite.ivLength
  let aad := slice cipherText aadOffset suite.aadLength
  let tagBuffer := slice cipherText tagOffset tagLength
  let cipherData := cipherText.drop cipherOffset
  checkRet (w.ctxNew = true) .ealCipherCtxNull
  checkRet (w.fetchCipher = true) .ealCipherCtxNull
  checkRet (w.init = 1) .error
  checkRet (w.setIvLength = 1) .error
  checkRet (w.setTagLength = 1) .error
  checkRet (w.initKey = 1) .error
  checkRet (w.setLength = 1) .error
  checkRet (w.aadOutLength = suite.aadLength) .error
  checkRet (w.aadUpdate = 1) .error
  checkRet (w.update = 1 ∧ C.verify suite cryptoKey iv aad cipherData tagBuffer = true) .error
  return writeAt plainText 0 (C.decrypt suite cryptoKey iv aad cipherData)

/-- `OpensslDecrypt`: the plaintext is written before the tag is looked at. -/
def opensslDecrypt (C : Ciphers) (w : OpensslWorld) (suite : CcsecCipherSuite)
    (cryptoKey cipherText plainText : Bytes) : Except CcsecCryptErrorCode Bytes := do
  if suite = .aesCcm128 then opensslCcmDecrypt C w suite cryptoKey cipherText plainText
  else
    let tagBuffer := slice cipherText tagOffset tagLength
    checkRet (w.ctxNew = true) .ealCipherCtxNull
    checkRet (w.fetchCipher = true) .ealCipherCtxNull
    let iv := slice cipherText ivOffset suite.ivLength
    checkRet (w.init = 1) .error
    let aad := if suite = .sm4Ctr then [] else slice cipherText aadOffset suite.aadLength
    checkRet (suite = .sm4Ctr ∨ w.aadOutLength = suite.aadLength) .error
    checkRet (suite = .sm4Ctr ∨ w.aadUpdate = 1) .error
    let cipherData := cipherText.drop cipherOffset
    checkRet (w.update = 1) .error
    let plainText := writeAt plainText 0 (C.decrypt suite cryptoKey iv aad cipherData)
    checkRet (suite = .sm4Ctr ∨ w.ctrlTag = 1) .error
    -- `EVP_DecryptFinal_ex` compares the tags
    let final := if C.verify suite cryptoKey iv aad cipherData tagBuffer then w.final else 0
    checkRet (suite = .sm4Ctr ∨ 0 < final) .error
    return plainText

/-- `CryptoEngine::Decrypt` -/
def engineDecrypt (C : Ciphers) (w : OpensslWorld) (suite : CcsecCipherSuite)
    (cryptoKey cipherText plainText : Bytes) : Except CcsecCryptErrorCode Bytes := do
  checkRet (cipherText ≠ [] ∧ cryptoKey ≠ []) .paramInvalid
  checkRet (cipherOffset < cipherText.length) .paramInvalid
  checkRet (cryptoKey.length ≤ (2 ^ 32 - 1) / 8) .aesErrKeylen
  checkRet (cryptoKey.length * 8 = suite.algLen) .aesErrKeylen
  checkRet (suite.algLen ≠ 0) .ealErrAlgid
  opensslDecrypt C w suite cryptoKey cipherText plainText

/-! ## The class -/

/-- What an engine call is handed: the length arguments are 32-bit. -/
def uint32Prefix (s : Bytes) : Bytes := s.take (s.length % 2 ^ 32)

/-- `NativeCryptor::Encrypt` -/
def nativeEncrypt (C : Ciphers) (w : OpensslWorld) (alg : CryptoSymAlg) (plaintext key : Bytes) :
    CryptionRC × Bytes :=
  let cipherSuite := getCipherSuite alg
  if cipherSuite = .unspecified then (.invalidParam, [])
  else if plaintext = [] ∨ plaintextMaxLength ≤ plaintext.length then (.invalidParam, [])
  else if key = [] then (.invalidParam, [])
  else
    let cipherTextLen := estimatedCipherLen plaintext.length
    match engineEncrypt C w cipherSuite (uint32Prefix key) plaintext (stream w.memory cipherTextLen) with
    | .error _ => (.error, [])
    | .ok cipherText =>
      if memcpyS cipherTextLen cipherTextLen then (.ok, cipherText.take cipherTextLen)
      else (.error, [])

/-- `NativeCryptor::Decrypt`. The buffer is sized by the function for ciphertexts. -/
def nativeDecrypt (C : Ciphers) (w : OpensslWorld) (alg : CryptoSymAlg) (ciphertext key : Bytes) :
    CryptionRC × Bytes :=
  let cipherSuite := getCipherSuite alg
  if cipherSuite = .unspecified then (.invalidParam, [])
  else if ciphertext = [] ∨ ciphertextMaxLength ≤ ciphertext.length then (.invalidParam, [])
  else if key = [] then (.invalidParam, [])
  else
    let buffer := stream w.memory (estimatedCipherLen ciphertext.length)
    let plainTextLen := estimatedPlainLen ciphertext.length
    match engineDecrypt C w cipherSuite (uint32Prefix key) ciphertext buffer with
    | .error _ => (.error, [])
    | .ok plainText =>
      if memcpyS plainTextLen plainTextLen then (.ok, plainText.take plainTextLen)
      else (.error, [])

/-! ## The round trip -/

/-- What the documentation of an authenticated cipher promises. -/
structure Ciphers.Correct (C : Ciphers) (suite : CcsecCipherSuite) : Prop where
  encrypt_length : ∀ key iv aad p, (C.encrypt suite key iv aad p).length = p.length
  tag_length : ∀ key iv aad p, (C.tag suite key iv aad p).length = tagLength
  decrypt_encrypt : ∀ key iv aad p, C.decrypt suite key iv aad (C.encrypt suite key iv aad p) = p
  verify_tag : ∀ key iv aad p,
    C.verify suite key iv aad (C.encrypt suite key iv aad p) (C.tag suite key iv aad p) = true

/-- No call of a decryption fails on its own. -/
structure OpensslWorld.Decrypts (w : OpensslWorld) : Prop where
  ctxNew : w.ctxNew = true
  fetchCipher : w.fetchCipher = true
  init : w.init = 1
  aadOutLength : w.aadOutLength = 16
  aadUpdate : w.aadUpdate = 1
  update : w.update = 1
  ctrlTag : w.ctrlTag = 1
  final : 0 < w.final

@[simp] theorem checkRet_ok {cond : Prop} [Decidable cond] {code : CcsecCryptErrorCode} (h : cond) :
    checkRet cond code = .ok () := if_pos h

/-- A sequence that starts with a check succeeds exactly when the check passes and the rest does. -/
theorem checkRet_bind_eq_ok {α : Type} {cond : Prop} [Decidable cond] {code : CcsecCryptErrorCode}
    {f : Unit → Except CcsecCryptErrorCode α} {a : α} :
    (checkRet cond code >>= f) = .ok a ↔ cond ∧ f () = .ok a := by
  by_cases h : cond
  · rw [checkRet_ok h]
    exact ⟨fun hf => ⟨h, hf⟩, fun hf => hf.2⟩
  · rw [checkRet, if_neg h]
    exact ⟨fun hf => (nomatch hf), fun hf => absurd hf.1 h⟩

/-- The authenticated suites outside CCM. -/
def CcsecCipherSuite.IsAead (suite : CcsecCipherSuite) : Prop :=
  suite = aesGcm128 ∨ suite = aesGcm256 ∨ suite = chacha20Poly1305

theorem CcsecCipherSuite.IsAead.spec {suite : CcsecCipherSuite} (h : suite.IsAead) :
    suite ≠ sm4Ctr ∧ suite ≠ aesCcm128 ∧ suite.ivLength = 12 ∧ suite.algLen ≠ 0 := by
  rcases h with rfl | rfl | rfl <;> decide

/-- The four fields of a ciphertext. -/
structure CipherFields where
  iv : Bytes
  aad : Bytes
  tag : Bytes
  cipherData : Bytes

/-- The buffer the fields make up. -/
def CipherFields.bytes (f : CipherFields) : Bytes := f.iv ++ (f.aad ++ (f.tag ++ f.cipherData))

/-- The first three fields have the widths of the layout. -/
structure CipherFields.Wide (f : CipherFields) : Prop where
  iv : f.iv.length = 12
  aad : f.aad.length = 16
  tag : f.tag.length = 16

namespace CipherFields.Wide

variable {f : CipherFields} (h : f.Wide)
include h

theorem slice_iv : slice f.bytes ivOffset 12 = f.iv := by
  show slice ([] ++ (f.iv ++ (f.aad ++ (f.tag ++ f.cipherData)))) ivOffset 12 = f.iv
  exact slice_append rfl h.iv

theorem slice_aad : slice f.bytes aadOffset 16 = f.aad :=
  slice_append h.iv h.aad

theorem slice_tag : slice f.bytes tagOffset 16 = f.tag := by
  have hpre : (f.iv ++ f.aad).length = tagOffset := by
    rw [List.length_append, h.iv, h.aad]
    rfl
  have hfields : f.bytes = f.iv ++ f.aad ++ (f.tag ++ f.cipherData) := by
    rw [CipherFields.bytes, List.append_assoc]
  rw [hfields]
  exact slice_append hpre h.tag

theorem drop_cipherData : f.bytes.drop cipherOffset = f.cipherData := by
  have hpre : (f.iv ++ f.aad ++ f.tag).length = cipherOffset := by
    rw [List.length_append, List.length_append, h.iv, h.aad, h.tag]
    rfl
  have hassoc : f.bytes = f.iv ++ f.aad ++ f.tag ++ f.cipherData := by
    simp [CipherFields.bytes]
  rw [hassoc, ← hpre, List.drop_left]

theorem length_bytes : f.bytes.length = f.cipherData.length + cipherOffset := by
  simp only [CipherFields.bytes, List.length_append, h.iv, h.aad, h.tag, cipherOffset]
  omega

theorem write_iv {bs : Bytes} (hbs : bs.length = 12) :
    writeAt f.bytes ivOffset bs = { f with iv := bs }.bytes := by
  show writeAt ([] ++ (f.iv ++ (f.aad ++ (f.tag ++ f.cipherData)))) ivOffset bs = _
  exact writeAt_append rfl (h.iv.trans hbs.symm)

theorem write_aad {bs : Bytes} (hbs : bs.length = 16) :
    writeAt f.bytes aadOffset bs = { f with aad := bs }.bytes :=
  writeAt_append h.iv (h.aad.trans hbs.symm)

theorem write_tag {bs : Bytes} (hbs : bs.length = 16) :
    writeAt f.bytes tagOffset bs = { f with tag := bs }.bytes := by
  have hpre : (f.iv ++ f.aad).length = tagOffset := by
    rw [List.length_append, h.iv, h.aad]
    rfl
  have hwrite : writeAt (f.iv ++ f.aad ++ (f.tag ++ f.cipherData)) tagOffset bs =
      f.iv ++ f.aad ++ (bs ++ f.cipherData) := writeAt_append hpre (h.tag.trans hbs.symm)
  simpa only [CipherFields.bytes, List.append_assoc] using hwrite

theorem write_cipherData {bs : Bytes} (hbs : bs.length = f.cipherData.length) :
    writeAt f.bytes cipherOffset bs = { f with cipherData := bs }.bytes := by
  have hpre : (f.iv ++ f.aad ++ f.tag).length = cipherOffset := by
    rw [List.length_append, List.length_append, h.iv, h.aad, h.tag]
    rfl
  have hwrite : writeAt (f.iv ++ f.aad ++ f.tag ++ (f.cipherData ++ [])) cipherOffset bs =
      f.iv ++ f.aad ++ f.tag ++ (bs ++ []) := writeAt_append hpre hbs.symm
  simpa only [CipherFields.bytes, List.append_assoc, List.append_nil] using hwrite

end CipherFields.Wide

/-- Every buffer long enough is made of four fields. -/
theorem exists_fields {buffer : Bytes} (h : cipherOffset ≤ buffer.length) :
    ∃ f : CipherFields, buffer = f.bytes ∧ f.Wide := by
  simp only [cipherOffset] at h
  obtain ⟨iv, rest, rfl, hiv, hrest⟩ := exists_append_of_le (n := 12) (by omega : 12 ≤ buffer.length)
  obtain ⟨aad, rest, rfl, haad, hrest'⟩ := exists_append_of_le (n := 16) (by omega : 16 ≤ rest.length)
  obtain ⟨tag, data, rfl, htag, -⟩ := exists_append_of_le (n := 16) (by omega : 16 ≤ rest.length)
  exact ⟨⟨iv, aad, tag, data⟩, rfl, ⟨hiv, haad, htag⟩⟩

/-- The fields that an encryption fills in. -/
def sealed (C : Ciphers) (w : OpensslWorld) (suite : CcsecCipherSuite) (key plainText : Bytes) :
    CipherFields :=
  let iv := stream w.ivBytes 12
  let aad := stream w.aadBytes 16
  { iv, aad, tag := C.tag suite key iv aad plainText,
    cipherData := C.encrypt suite key iv aad plainText }

theorem sealed_wide {C : Ciphers} {w : OpensslWorld} {suite : CcsecCipherSuite}
    (hC : C.Correct suite) (key plainText : Bytes) : (sealed C w suite key plainText).Wide :=
  ⟨stream_length _ _, stream_length _ _, hC.tag_length _ _ _ _⟩

/-- **The four writes of an encryption**, in their order, leave no byte of the buffer. -/
theorem writes_sealed {C : Ciphers} {suite : CcsecCipherSuite} (hC : C.Correct suite)
    (w : OpensslWorld) (key : Bytes) {plainText : Bytes} {f : CipherFields} (hf : f.Wide)
    (hlen : f.cipherData.length = plainText.length) :
    let filled := writeAt (writeAt f.bytes ivOffset (stream w.ivBytes 12)) aadOffset
      (stream w.aadBytes 16)
    let iv := slice filled ivOffset 12
    let aad := slice filled aadOffset 16
    writeAt (writeAt filled cipherOffset (C.encrypt suite key iv aad plainText)) tagOffset
      (C.tag suite key iv aad plainText) = (sealed C w suite key plainText).bytes := by
  dsimp only
  -- the two random fields
  rw [hf.write_iv (stream_length _ _)]
  have hf₁ : CipherFields.Wide { f with iv := stream w.ivBytes 12 } :=
    ⟨stream_length _ _, hf.aad, hf.tag⟩
  rw [hf₁.write_aad (stream_length _ _)]
  have hf₂ : CipherFields.Wide { f with iv := stream w.ivBytes 12, aad := stream w.aadBytes 16 } :=
    ⟨stream_length _ _, stream_length _ _, hf.tag⟩
  -- then the data and the tag over them
  rw [hf₂.slice_iv, hf₂.slice_aad,
    hf₂.write_cipherData (by rw [hC.encrypt_length]; exact hlen.symm)]
  have hf₃ : CipherFields.Wide { f with
      iv := stream w.ivBytes 12, aad := stream w.aadBytes 16,
      cipherData := C.encrypt suite key (stream w.ivBytes 12) (stream w.aadBytes 16) plainText } :=
    ⟨stream_length _ _, stream_length _ _, hf.tag⟩
  rw [hf₃.write_tag (hC.tag_length _ _ _ _)]
  rfl

/-- **What an encryption that succeeds has written**: every byte of the buffer. -/
theorem opensslEncrypt_eq {C : Ciphers} {w : OpensslWorld} {suite : CcsecCipherSuite}
    (hsm4 : suite ≠ .sm4Ctr) (hC : C.Correct suite) {key plainText buffer cipherText : Bytes}
    (hbuffer : buffer.length = plainText.length + cipherOffset)
    (h : opensslEncrypt C w suite key plainText buffer = .ok cipherText) :
    cipherText = (sealed C w suite key plainText).bytes := by
  have hroom : cipherOffset ≤ buffer.length := by omega
  obtain ⟨f, rfl, hf⟩ := exists_fields hroom
  have hlen : f.cipherData.length = plainText.length := by
    have := hf.length_bytes
    omega
  have hiv : suite.ivLength = 12 := if_neg hsm4
  have hwrites := writes_sealed hC w key hf hlen
  unfold opensslEncrypt at h
  by_cases hccm : suite = .aesCcm128
  · -- the separate code of CCM makes the same writes
    rw [if_pos hccm] at h
    unfold opensslCcmEncrypt fillRandom at h
    simp only [hiv, bind_assoc, checkRet_bind_eq_ok, CcsecCipherSuite.aadLength, pure_bind,
      ite_self] at h
    obtain ⟨-, -, -, -, -, -, -, -, -, -, -, -, -, h⟩ := h
    exact (Except.ok.inj h).symm.trans hwrites
  · unfold fillRandom at h
    simp only [if_neg hccm, hsm4, if_false, false_or, hiv, bind_assoc, checkRet_bind_eq_ok,
      CcsecCipherSuite.aadLength, pure_bind] at h
    obtain ⟨-, -, -, -, -, -, -, -, -, -, h⟩ := h
    exact (Except.ok.inj h).symm.trans hwrites

/-- **Opening what was sealed**, when no call fails. -/
theorem opensslDecrypt_sealed {C : Ciphers} {w w' : OpensslWorld} {suite : CcsecCipherSuite}
    (hsuite : suite.IsAead) (hC : C.Correct suite) (hw' : w'.Decrypts) (key plainText buffer : Bytes) :
    opensslDecrypt C w' suite key (sealed C w suite key plainText).bytes buffer =
      .ok (writeAt buffer 0 plainText) := by
  obtain ⟨hsm4, hccm, hiv, -⟩ := hsuite.spec
  have hf := sealed_wide (w := w) hC key plainText
  have hverify : C.verify suite key (sealed C w suite key plainText).iv
      (sealed C w suite key plainText).aad (sealed C w suite key plainText).cipherData
      (sealed C w suite key plainText).tag = true := hC.verify_tag _ _ _ _
  have hopen : C.decrypt suite key (sealed C w suite key plainText).iv
      (sealed C w suite key plainText).aad (sealed C w suite key plainText).cipherData = plainText :=
    hC.decrypt_encrypt _ _ _ _
  unfold opensslDecrypt
  simp only [if_neg hccm, hsm4, if_false, false_or, hiv, checkRet_bind_eq_ok,
    CcsecCipherSuite.aadLength]
  rw [hf.slice_iv, hf.slice_aad, hf.drop_cipherData, tagLength, hf.slice_tag, if_pos hverify, hopen]
  exact ⟨hw'.ctxNew, hw'.fetchCipher, hw'.init, hw'.aadOutLength, hw'.aadUpdate, hw'.update,
    hw'.ctrlTag, hw'.final, rfl⟩

/-- **The way to a ciphertext**: the guards an encryption that succeeds has passed, and
what it returns of the buffer. -/
theorem nativeEncrypt_inv {C : Ciphers} {w : OpensslWorld} {alg : CryptoSymAlg}
    {plaintext key c : Bytes} (h : nativeEncrypt C w alg plaintext key = (.ok, c)) :
    getCipherSuite alg ≠ .unspecified ∧ plaintext ≠ [] ∧ plaintext.length < plaintextMaxLength ∧
      key ≠ [] ∧ (uint32Prefix key).length * 8 = (getCipherSuite alg).algLen ∧
      ∃ cipherText, opensslEncrypt C w (getCipherSuite alg) (uint32Prefix key) plaintext
          (stream w.memory (plaintext.length + cipherOffset)) = .ok cipherText ∧
        c = cipherText.take (plaintext.length + cipherOffset) := by
  unfold nativeEncrypt at h
  dsimp only at h
  by_cases hspec : getCipherSuite alg = .unspecified
  · rw [if_pos hspec] at h
    cases h
  rw [if_neg hspec] at h
  by_cases htext : plaintext = [] ∨ plaintextMaxLength ≤ plaintext.length
  · rw [if_pos htext] at h
    cases h
  rw [if_neg htext] at h
  by_cases hkey : key = []
  · rw [if_pos hkey] at h
    cases h
  rw [if_neg hkey] at h
  obtain ⟨htext₀, htext₁⟩ := not_or.mp htext
  have hlen : estimatedCipherLen plaintext.length = plaintext.length + cipherOffset := by
    refine if_pos ?_
    simp only [plaintextMaxLength, cipherOffset] at htext₁ ⊢
    omega
  rw [hlen] at h
  cases hengine : engineEncrypt C w (getCipherSuite alg) (uint32Prefix key) plaintext
      (stream w.memory (plaintext.length + cipherOffset)) with
  | error code => simp [hengine] at h
  | ok cipherText =>
    simp only [hengine] at h
    split at h
    · unfold engineEncrypt at hengine
      simp only [checkRet_bind_eq_ok] at hengine
      obtain ⟨-, -, halg, -, hopenssl⟩ := hengine
      exact ⟨hspec, htext₀, by omega, hkey, halg, cipherText, hopenssl, (Prod.mk.inj h).2.symm⟩
    · cases h

/-- What the guards of an encryption that succeeds have let through. -/
theorem nativeEncrypt_ok {C : Ciphers} {w : OpensslWorld} {alg : CryptoSymAlg}
    {plaintext key c : Bytes} (hsm4 : getCipherSuite alg ≠ .sm4Ctr)
    (hC : C.Correct (getCipherSuite alg)) (h : nativeEncrypt C w alg plaintext key = (.ok, c)) :
    plaintext ≠ [] ∧ plaintext.length < plaintextMaxLength ∧ key ≠ [] ∧
      (uint32Prefix key).length * 8 = (getCipherSuite alg).algLen ∧
      c = (sealed C w (getCipherSuite alg) (uint32Prefix key) plaintext).bytes := by
  obtain ⟨-, htext, hmax, hkey, halg, cipherText, hopenssl, rfl⟩ := nativeEncrypt_inv h
  have heq := opensslEncrypt_eq hsm4 hC (stream_length _ _) hopenssl
  refine ⟨htext, hmax, hkey, halg, ?_⟩
  rw [heq, List.take_of_length_le]
  rw [(sealed_wide hC _ _).length_bytes]
  exact Nat.le_of_eq (congrArg (· + cipherOffset) (hC.encrypt_length _ _ _ _))

/-- No encryption succeeds without a key. -/
theorem nativeEncrypt_key_ne_nil {C : Ciphers} {w : OpensslWorld} {alg : CryptoSymAlg}
    {plaintext key c : Bytes} (h : nativeEncrypt C w alg plaintext key = (.ok, c)) : key ≠ [] :=
  (nativeEncrypt_inv h).2.2.2.1

/-- The length of a ciphertext. -/
theorem sealed_length {C : Ciphers} {suite : CcsecCipherSuite} (hC : C.Correct suite)
    (w : OpensslWorld) (key plainText : Bytes) :
    (sealed C w suite key plainText).bytes.length = plainText.length + cipherOffset := by
  rw [(sealed_wide hC key plainText).length_bytes]
  exact congrArg (· + cipherOffset) (hC.encrypt_length _ _ _ _)

/-- No suite has a longer key than 256 bits. -/
theorem CcsecCipherSuite.algLen_le (suite : CcsecCipherSuite) : suite.algLen ≤ 256 := by
  cases suite <;> decide

/-- Every suite but the unspecified one has a key. -/
theorem CcsecCipherSuite.algLen_ne_zero {suite : CcsecCipherSuite} (h : suite ≠ unspecified) :
    suite.algLen ≠ 0 := by
  intro hzero
  cases suite with
  | unspecified => exact h rfl
  | _ => exact absurd hzero (by decide)

/-- **The way to a plaintext**: a decryption whose OpenSSL part writes `plaintext` passes
every guard on the way and returns it. -/
theorem nativeDecrypt_of_openssl {C : Ciphers} {w : OpensslWorld} {alg : CryptoSymAlg}
    {plaintext key c : Bytes} (hspec : getCipherSuite alg ≠ .unspecified) (htext : plaintext ≠ [])
    (hmax : plaintext.length < plaintextMaxLength) (hkey : key ≠ [])
    (halg : (uint32Prefix key).length * 8 = (getCipherSuite alg).algLen)
    (hlen : c.length = plaintext.length + cipherOffset)
    (hopen : ∀ buffer, opensslDecrypt C w (getCipherSuite alg) (uint32Prefix key) c buffer =
      .ok (writeAt buffer 0 plaintext)) :
    nativeDecrypt C w alg c key = (.ok, plaintext) := by
  have hpos : 0 < plaintext.length := List.length_pos_iff.mpr htext
  have hne : c ≠ [] := List.ne_nil_of_length_pos (by omega)
  have hkey' : uint32Prefix key ≠ [] := by
    intro hnil
    rw [hnil] at halg
    exact CcsecCipherSuite.algLen_ne_zero hspec halg.symm
  have hkeyLen : (uint32Prefix key).length ≤ (2 ^ 32 - 1) / 8 := by
    have := (getCipherSuite alg).algLen_le
    omega
  simp only [plaintextMaxLength] at hmax
  have hplain : estimatedPlainLen c.length = plaintext.length := by
    rw [estimatedPlainLen, hlen, if_neg (by omega)]
    omega
  have hguard : ¬(c = [] ∨ ciphertextMaxLength ≤ c.length) := by
    simp only [ciphertextMaxLength, not_or]
    exact ⟨hne, by rw [hlen, cipherOffset]; omega⟩
  unfold nativeDecrypt
  simp only [hplain]
  rw [if_neg hspec, if_neg hguard, if_neg hkey]
  have hengine : engineDecrypt C w (getCipherSuite alg) (uint32Prefix key) c
      (stream w.memory (estimatedCipherLen c.length)) =
      .ok (writeAt (stream w.memory (estimatedCipherLen c.length)) 0 plaintext) := by
    unfold engineDecrypt
    simp only [checkRet_bind_eq_ok]
    exact ⟨⟨hne, hkey'⟩, by omega, hkeyLen, halg, CcsecCipherSuite.algLen_ne_zero hspec, hopen _⟩
  rw [hengine]
  have hcopy : memcpyS plaintext.length plaintext.length = true := by
    simp only [memcpyS, Nat.le_refl, decide_true, Bool.and_true, Bool.and_eq_true,
      decide_eq_true_eq]
    omega
  show (if memcpyS plaintext.length plaintext.length = true then _ else _) = _
  rw [if_pos hcopy, writeAt, List.take_zero, List.nil_append, List.take_left]

/-- **Native round trip.** What an encryption returned, a decryption under the same
key opens, when none of its calls fails. -/
theorem nativeDecrypt_nativeEncrypt {C : Ciphers} {w w' : OpensslWorld} {alg : CryptoSymAlg}
    {plaintext key c : Bytes} (hsuite : (getCipherSuite alg).IsAead)
    (hC : C.Correct (getCipherSuite alg)) (hw' : w'.Decrypts)
    (h : nativeEncrypt C w alg plaintext key = (.ok, c)) :
    nativeDecrypt C w' alg c key = (.ok, plaintext) := by
  obtain ⟨htext, hmax, hkey, halg, rfl⟩ := nativeEncrypt_ok hsuite.spec.1 hC h
  exact nativeDecrypt_of_openssl (nativeEncrypt_inv h).1 htext hmax hkey halg
    (sealed_length hC w _ _) (opensslDecrypt_sealed hsuite hC hw' _ _)

end CdfCrypto
