import CdfCrypto.Cryption.NativeCryptor

/-!
# The engine singleton

One `CryptoEngine` serves every cryptor and every suite, and its only state is
the suite it was last set to. `NativeCryptor` sets that suite at the start of
each call, so what an earlier call left there never shows: a call computes what
`nativeEncrypt` and `nativeDecrypt` compute without the state.

The round trip of all five suites follows from one fact, `Sealed`: whatever the
two random writes left in the first 28 bytes, an encryption reads the IV and the
AAD that the ciphertext then holds, which is where a decryption looks for them.
For `SM4_CTR`, whose 16-byte IV the AAD field overwrites from byte 12 on, that
is because the IV is only read after both writes.
-/

namespace CdfCrypto

/-- `CryptoEngine`: what its `CryptoConfig` can change. -/
structure CryptoEngine where
  cipherSuite : CcsecCipherSuite := .unspecified

namespace CryptoEngine

/-- `SetMCipherSuite` -/
def setMCipherSuite (_ : CryptoEngine) (suite : CcsecCipherSuite) : CryptoEngine :=
  { cipherSuite := suite }

/-- `InitCrypto`: a suite that is set stays. -/
def initCrypto (engine : CryptoEngine) (suite : CcsecCipherSuite) :
    CryptoEngine × Except CcsecCryptErrorCode Unit :=
  if engine.cipherSuite ≠ .unspecified then (engine, .ok ())
  else if suite ≠ .unspecified then (engine.setMCipherSuite suite, .ok ())
  else (engine, .error .paramInvalid)

/-- The default suite of `KeyEncrypt` and `KeyDecrypt`. -/
def initDefault (engine : CryptoEngine) : CryptoEngine × Except CcsecCryptErrorCode Unit :=
  if engine.cipherSuite = .unspecified then engine.initCrypto .aesGcm256 else (engine, .ok ())

end CryptoEngine

/-- `KeyEncrypt` -/
def keyEncrypt (C : Ciphers) (w : OpensslWorld) (engine : CryptoEngine)
    (cryptoKey plainText cipherText : Bytes) :
    CryptoEngine × Except CcsecCryptErrorCode Bytes :=
  match engine.initDefault with
  | (engine, .error ret) => (engine, .error ret)
  | (engine, .ok ()) => (engine, engineEncrypt C w engine.cipherSuite cryptoKey plainText cipherText)

/-- `KeyDecrypt` -/
def keyDecrypt (C : Ciphers) (w : OpensslWorld) (engine : CryptoEngine)
    (cryptoKey cipherText plainText : Bytes) :
    CryptoEngine × Except CcsecCryptErrorCode Bytes :=
  match engine.initDefault with
  | (engine, .error ret) => (engine, .error ret)
  | (engine, .ok ()) => (engine, engineDecrypt C w engine.cipherSuite cryptoKey cipherText plainText)

namespace NativeCryptor

/-- `NativeCryptor::Encrypt` on the shared engine. -/
def encrypt (C : Ciphers) (w : OpensslWorld) (engine : CryptoEngine) (alg : CryptoSymAlg)
    (plaintext key : Bytes) : CryptoEngine × (CryptionRC × Bytes) :=
  let cipherSuite := getCipherSuite alg
  if cipherSuite = .unspecified then (engine, (.invalidParam, []))
  else
    let engine := engine.setMCipherSuite cipherSuite
    if plaintext = [] ∨ plaintextMaxLength ≤ plaintext.length then (engine, (.invalidParam, []))
    else if key = [] then (engine, (.invalidParam, []))
    else
      let cipherTextLen := estimatedCipherLen plaintext.length
      match keyEncrypt C w engine (uint32Prefix key) plaintext (stream w.memory cipherTextLen) with
      | (engine, .error _) => (engine, (.error, []))
      | (engine, .ok cipherText) =>
        if memcpyS cipherTextLen cipherTextLen then (engine, (.ok, cipherText.take cipherTextLen))
        else (engine, (.error, []))

/-- `NativeCryptor::Decrypt` on the shared engine. -/
def decrypt (C : Ciphers) (w : OpensslWorld) (engine : CryptoEngine) (alg : CryptoSymAlg)
    (ciphertext key : Bytes) : CryptoEngine × (CryptionRC × Bytes) :=
  let cipherSuite := getCipherSuite alg
  if cipherSuite = .unspecified then (engine, (.invalidParam, []))
  else
    let engine := engine.setMCipherSuite cipherSuite
    if ciphertext = [] ∨ ciphertextMaxLength ≤ ciphertext.length then (engine, (.invalidParam, []))
    else if key = [] then (engine, (.invalidParam, []))
    else
      let buffer := stream w.memory (estimatedCipherLen ciphertext.length)
      let plainTextLen := estimatedPlainLen ciphertext.length
      match keyDecrypt C w engine (uint32Prefix key) ciphertext buffer with
      | (engine, .error _) => (engine, (.error, []))
      | (engine, .ok plainText) =>
        if memcpyS plainTextLen plainTextLen then (engine, (.ok, plainText.take plainTextLen))
        else (engine, (.error, []))

end NativeCryptor

/-! ## The state never shows -/

/-- A suite that is set needs no default. -/
theorem CryptoEngine.initDefault_of_set {engine : CryptoEngine}
    (h : engine.cipherSuite ≠ .unspecified) : engine.initDefault = (engine, .ok ()) :=
  if_neg h

theorem keyEncrypt_of_set {C : Ciphers} {w : OpensslWorld} {engine : CryptoEngine}
    (h : engine.cipherSuite ≠ .unspecified) (cryptoKey plainText cipherText : Bytes) :
    keyEncrypt C w engine cryptoKey plainText cipherText =
      (engine, engineEncrypt C w engine.cipherSuite cryptoKey plainText cipherText) := by
  rw [keyEncrypt, CryptoEngine.initDefault_of_set h]

theorem keyDecrypt_of_set {C : Ciphers} {w : OpensslWorld} {engine : CryptoEngine}
    (h : engine.cipherSuite ≠ .unspecified) (cryptoKey cipherText plainText : Bytes) :
    keyDecrypt C w engine cryptoKey cipherText plainText =
      (engine, engineDecrypt C w engine.cipherSuite cryptoKey cipherText plainText) := by
  rw [keyDecrypt, CryptoEngine.initDefault_of_set h]

/-- **The engine's suite does not matter** to an encryption. -/
theorem NativeCryptor.encrypt_eq (C : Ciphers) (w : OpensslWorld) (engine : CryptoEngine)
    (alg : CryptoSymAlg) (plaintext key : Bytes) :
    (NativeCryptor.encrypt C w engine alg plaintext key).2 =
      nativeEncrypt C w alg plaintext key := by
  unfold NativeCryptor.encrypt nativeEncrypt
  dsimp only
  by_cases hspec : getCipherSuite alg = .unspecified
  · rw [if_pos hspec, if_pos hspec]
  rw [if_neg hspec, if_neg hspec]
  by_cases htext : plaintext = [] ∨ plaintextMaxLength ≤ plaintext.length
  · rw [if_pos htext, if_pos htext]
  rw [if_neg htext, if_neg htext]
  by_cases hkey : key = []
  · rw [if_pos hkey, if_pos hkey]
  have hset : (engine.setMCipherSuite (getCipherSuite alg)).cipherSuite ≠ .unspecified := hspec
  rw [if_neg hkey, if_neg hkey, keyEncrypt_of_set hset]
  dsimp only [CryptoEngine.setMCipherSuite]
  cases engineEncrypt C w (getCipherSuite alg) (uint32Prefix key) plaintext
      (stream w.memory (estimatedCipherLen plaintext.length)) with
  | error code => rfl
  | ok cipherText => dsimp only; split <;> rfl

/-- **The engine's suite does not matter** to a decryption. -/
theorem NativeCryptor.decrypt_eq (C : Ciphers) (w : OpensslWorld) (engine : CryptoEngine)
    (alg : CryptoSymAlg) (ciphertext key : Bytes) :
    (NativeCryptor.decrypt C w engine alg ciphertext key).2 =
      nativeDecrypt C w alg ciphertext key := by
  unfold NativeCryptor.decrypt nativeDecrypt
  dsimp only
  by_cases hspec : getCipherSuite alg = .unspecified
  · rw [if_pos hspec, if_pos hspec]
  rw [if_neg hspec, if_neg hspec]
  by_cases htext : ciphertext = [] ∨ ciphertextMaxLength ≤ ciphertext.length
  · rw [if_pos htext, if_pos htext]
  rw [if_neg htext, if_neg htext]
  by_cases hkey : key = []
  · rw [if_pos hkey, if_pos hkey]
  have hset : (engine.setMCipherSuite (getCipherSuite alg)).cipherSuite ≠ .unspecified := hspec
  rw [if_neg hkey, if_neg hkey, keyDecrypt_of_set hset]
  dsimp only [CryptoEngine.setMCipherSuite]
  cases engineDecrypt C w (getCipherSuite alg) (uint32Prefix key) ciphertext
      (stream w.memory (estimatedCipherLen ciphertext.length)) with
  | error code => rfl
  | ok plainText => dsimp only; split <;> rfl

/-! ## What a ciphertext says about itself -/

/-- The cipher as its documentation has it: an authenticated cipher whose opening
inverts the sealing under equal key, IV, AAD and tag, and a counter mode, without
a tag, for `SM4_CTR`. -/
structure Ciphers.Inverts (C : Ciphers) (suite : CcsecCipherSuite) : Prop where
  encrypt_length : ∀ key iv aad p, (C.encrypt suite key iv aad p).length = p.length
  decrypt_encrypt : ∀ key iv aad p, C.decrypt suite key iv aad (C.encrypt suite key iv aad p) = p
  tag_length : suite ≠ .sm4Ctr → ∀ key iv aad p, (C.tag suite key iv aad p).length = tagLength
  verify_tag : suite ≠ .sm4Ctr → ∀ key iv aad p,
    C.verify suite key iv aad (C.encrypt suite key iv aad p) (C.tag suite key iv aad p) = true

/-- No call of a decryption fails on its own, those that only `AES128_CCM` makes included. -/
structure OpensslWorld.DecryptsAll (w : OpensslWorld) : Prop extends w.Decrypts where
  setIvLength : w.setIvLength = 1
  setTagLength : w.setTagLength = 1
  initKey : w.initKey = 1
  setLength : w.setLength = 1

/-- The IV a suite reads from a buffer. -/
def ivOf (suite : CcsecCipherSuite) (c : Bytes) : Bytes := slice c ivOffset suite.ivLength

/-- The associated data a suite reads from a buffer. -/
def aadOf (suite : CcsecCipherSuite) (c : Bytes) : Bytes :=
  if suite = .sm4Ctr then [] else slice c aadOffset suite.aadLength

/-- `c` is what `plainText` encrypts to under the IV and the AAD that `c` itself holds. -/
structure Sealed (C : Ciphers) (suite : CcsecCipherSuite) (key plainText c : Bytes) : Prop where
  length : c.length = plainText.length + cipherOffset
  data : c.drop cipherOffset = C.encrypt suite key (ivOf suite c) (aadOf suite c) plainText
  tag : suite ≠ .sm4Ctr →
    slice c tagOffset tagLength = C.tag suite key (ivOf suite c) (aadOf suite c) plainText

/-- Where the IV and the AAD end, the tag begins. -/
theorem CcsecCipherSuite.header_le (suite : CcsecCipherSuite) :
    ivOffset + suite.ivLength ≤ tagOffset ∧ aadOffset + suite.aadLength ≤ tagOffset := by
  cases suite <;> decide

/-- A write from the tag on leaves the IV and the AAD. -/
theorem header_writeAt {buf : Bytes} {off : Nat} (suite : CcsecCipherSuite) (bs : Bytes)
    (htag : tagOffset ≤ off) (hoff : off ≤ buf.length) :
    ivOf suite (writeAt buf off bs) = ivOf suite buf ∧
      aadOf suite (writeAt buf off bs) = aadOf suite buf := by
  obtain ⟨hiv, haad⟩ := suite.header_le
  constructor
  · exact slice_writeAt_before (hiv.trans htag) hoff
  · unfold aadOf
    rw [slice_writeAt_before (haad.trans htag) hoff]

/-- **The two writes of an encryption** over whatever the random writes left. -/
theorem Sealed.of_writes {C : Ciphers} {suite : CcsecCipherSuite} (hC : C.Inverts suite)
    (key : Bytes) {plainText buf : Bytes} (hlen : buf.length = plainText.length + cipherOffset) :
    let data := writeAt buf cipherOffset
      (C.encrypt suite key (ivOf suite buf) (aadOf suite buf) plainText)
    Sealed C suite key plainText (if suite = .sm4Ctr then data
      else writeAt data tagOffset (C.tag suite key (ivOf suite buf) (aadOf suite buf) plainText)) := by
  intro data
  have hdataLen := hC.encrypt_length key (ivOf suite buf) (aadOf suite buf) plainText
  have hcipher : cipherOffset ≤ buf.length := by omega
  obtain ⟨hiv, haad⟩ := header_writeAt suite (C.encrypt suite key (ivOf suite buf)
    (aadOf suite buf) plainText) (show tagOffset ≤ cipherOffset by decide) hcipher
  have hlen' : data.length = plainText.length + cipherOffset := by
    rw [← hlen]
    exact length_writeAt (by omega)
  have hdrop : data.drop cipherOffset =
      C.encrypt suite key (ivOf suite buf) (aadOf suite buf) plainText :=
    drop_writeAt_self (by omega)
  by_cases hsm4 : suite = .sm4Ctr
  · rw [if_pos hsm4]
    exact ⟨hlen', by rw [hiv, haad]; exact hdrop, fun h => absurd hsm4 h⟩
  · rw [if_neg hsm4]
    have htagLen := hC.tag_length hsm4 key (ivOf suite buf) (aadOf suite buf) plainText
    have hroom : tagOffset + tagLength ≤ cipherOffset := by decide
    have htag : tagOffset ≤ data.length := by omega
    -- the tag is written behind the header and before the data
    obtain ⟨hiv', haad'⟩ := header_writeAt suite (C.tag suite key (ivOf suite buf)
      (aadOf suite buf) plainText) (Nat.le_refl tagOffset) htag
    constructor
    · rw [← hlen']
      exact length_writeAt (by omega)
    · rw [hiv', haad', hiv, haad, drop_writeAt_after (by omega) htag]
      exact hdrop
    · intro _
      rw [hiv', haad', hiv, haad, ← htagLen]
      exact slice_writeAt_self htag

/-! ## Sealing and opening -/

/-- The random writes stay inside the header. -/
theorem fillRandom_length {w : OpensslWorld} {suite : CcsecCipherSuite} {buf c : Bytes}
    (hlen : tagOffset ≤ buf.length) (h : fillRandom w suite buf = .ok c) :
    c.length = buf.length := by
  obtain ⟨hiv, haad⟩ := suite.header_le
  simp only [fillRandom, checkRet_bind_eq_ok] at h
  obtain ⟨-, -, h⟩ := h
  rw [← Except.ok.inj h]
  have hivLen : (stream w.ivBytes suite.ivLength).length = suite.ivLength := stream_length _ _
  have haadLen : (stream w.aadBytes suite.aadLength).length = suite.aadLength := stream_length _ _
  have hfirst : (writeAt buf ivOffset (stream w.ivBytes suite.ivLength)).length = buf.length :=
    length_writeAt (by omega)
  rw [length_writeAt (by omega), hfirst]

/-- A sequence that succeeds starts with a success. -/
theorem bind_eq_ok {α β : Type} {x : Except CcsecCryptErrorCode α}
    {f : α → Except CcsecCryptErrorCode β} {b : β} (h : (x >>= f) = .ok b) :
    ∃ a, x = .ok a ∧ f a = .ok b := by
  cases x with
  | error code => cases h
  | ok a => exact ⟨a, rfl, h⟩

/-- **An encryption that succeeds has sealed**, in every suite. -/
theorem opensslEncrypt_sealed {C : Ciphers} {w : OpensslWorld} {suite : CcsecCipherSuite}
    (hC : C.Inverts suite) {key plainText buf c : Bytes}
    (hlen : buf.length = plainText.length + cipherOffset)
    (h : opensslEncrypt C w suite key plainText buf = .ok c) :
    Sealed C suite key plainText c := by
  have hroom : tagOffset ≤ buf.length := by
    rw [hlen]
    exact Nat.le_add_left_of_le (by decide)
  unfold opensslEncrypt at h
  by_cases hccm : suite = .aesCcm128
  · -- the separate code of CCM writes the same two fields
    subst hccm
    rw [if_pos rfl] at h
    obtain ⟨filled, hfill, h⟩ := bind_eq_ok h
    simp only [checkRet_bind_eq_ok] at h
    obtain ⟨-, -, -, -, -, -, -, -, -, -, -, h⟩ := h
    have hsealed := Sealed.of_writes hC key ((fillRandom_length hroom hfill).trans hlen)
    split at h <;> exact Except.ok.inj h ▸ hsealed
  · rw [if_neg hccm] at h
    obtain ⟨filled, hfill, h⟩ := bind_eq_ok h
    simp only [checkRet_bind_eq_ok] at h
    obtain ⟨-, -, -, -, -, -, -, -, h⟩ := h
    exact Except.ok.inj h ▸
      Sealed.of_writes hC key ((fillRandom_length hroom hfill).trans hlen)

/-- **A decryption opens what was sealed**, in every suite, when none of its calls fails. -/
theorem opensslDecrypt_of_sealed {C : Ciphers} {w : OpensslWorld} {suite : CcsecCipherSuite}
    (hC : C.Inverts suite) (hw : w.DecryptsAll) {key plainText c : Bytes}
    (hc : Sealed C suite key plainText c) (buffer : Bytes) :
    opensslDecrypt C w suite key c buffer = .ok (writeAt buffer 0 plainText) := by
  have hopen : C.decrypt suite key (ivOf suite c) (aadOf suite c) (c.drop cipherOffset) =
      plainText := by
    rw [hc.data]
    exact hC.decrypt_encrypt _ _ _ _
  have hverify : suite ≠ .sm4Ctr → C.verify suite key (ivOf suite c) (aadOf suite c)
      (c.drop cipherOffset) (slice c tagOffset tagLength) = true := by
    intro hsm4
    rw [hc.data, hc.tag hsm4]
    exact hC.verify_tag hsm4 _ _ _ _
  unfold opensslDecrypt
  by_cases hccm : suite = .aesCcm128
  · subst hccm
    rw [if_pos rfl]
    unfold opensslCcmDecrypt
    simp only [checkRet_bind_eq_ok]
    exact ⟨hw.ctxNew, hw.fetchCipher, hw.init, hw.setIvLength, hw.setTagLength, hw.initKey,
      hw.setLength, hw.aadOutLength, hw.aadUpdate, ⟨hw.update, hverify (by decide)⟩,
      congrArg (fun p => Except.ok (writeAt buffer 0 p)) hopen⟩
  · rw [if_neg hccm]
    simp only [checkRet_bind_eq_ok]
    refine ⟨hw.ctxNew, hw.fetchCipher, hw.init, Or.inr hw.aadOutLength, Or.inr hw.aadUpdate,
      hw.update, Or.inr hw.ctrlTag, ?_, congrArg (fun p => Except.ok (writeAt buffer 0 p)) hopen⟩
    by_cases hsm4 : suite = .sm4Ctr
    · exact Or.inl hsm4
    · refine Or.inr ?_
      have hfinal : C.verify suite key (slice c ivOffset suite.ivLength)
          (if suite = .sm4Ctr then [] else slice c aadOffset suite.aadLength)
          (c.drop cipherOffset) (slice c tagOffset tagLength) = true := hverify hsm4
      rw [if_pos hfinal]
      exact hw.final

/-- **Native round trip, every suite.** The ciphertext is 44 bytes longer than the
plaintext, and a decryption under the same key, when none of its calls fails, returns the
plaintext. -/
theorem nativeDecrypt_nativeEncrypt_all {C : Ciphers} {w w' : OpensslWorld} {alg : CryptoSymAlg}
    {plaintext key c : Bytes} (hC : C.Inverts (getCipherSuite alg)) (hw' : w'.DecryptsAll)
    (h : nativeEncrypt C w alg plaintext key = (.ok, c)) :
    c.length = plaintext.length + cipherOffset ∧
      nativeDecrypt C w' alg c key = (.ok, plaintext) := by
  obtain ⟨hspec, htext, hmax, hkey, halg, cipherText, hopenssl, rfl⟩ := nativeEncrypt_inv h
  have hc := opensslEncrypt_sealed hC (stream_length _ _) hopenssl
  rw [List.take_of_length_le (Nat.le_of_eq hc.length)]
  exact ⟨hc.length, nativeDecrypt_of_openssl hspec htext hmax hkey halg hc.length
    (opensslDecrypt_of_sealed hC hw' hc)⟩

/-! ## Any order of calls -/

/-- A call on the shared engine, with what OpenSSL does during it. -/
inductive NativeCall
  | initCrypto (suite : CcsecCipherSuite)
  | keyEncrypt (w : OpensslWorld) (cryptoKey plainText cipherText : Bytes)
  | keyDecrypt (w : OpensslWorld) (cryptoKey cipherText plainText : Bytes)
  | encrypt (w : OpensslWorld) (alg : CryptoSymAlg) (plaintext key : Bytes)
  | decrypt (w : OpensslWorld) (alg : CryptoSymAlg) (ciphertext key : Bytes)

/-- The engine a call leaves. -/
def CryptoEngine.exec (C : Ciphers) (engine : CryptoEngine) : NativeCall → CryptoEngine
  | .initCrypto suite => (engine.initCrypto suite).1
  | .keyEncrypt w cryptoKey plainText cipherText =>
    (CdfCrypto.keyEncrypt C w engine cryptoKey plainText cipherText).1
  | .keyDecrypt w cryptoKey cipherText plainText =>
    (CdfCrypto.keyDecrypt C w engine cryptoKey cipherText plainText).1
  | .encrypt w alg plaintext key => (NativeCryptor.encrypt C w engine alg plaintext key).1
  | .decrypt w alg ciphertext key => (NativeCryptor.decrypt C w engine alg ciphertext key).1

/-- **Round trip among any other calls.** Whatever calls came before the encryption, and
whatever calls came between it and the decryption, a ciphertext opens to its plaintext. -/
theorem decrypt_encrypt_of_calls {C : Ciphers} {w w' : OpensslWorld} {alg : CryptoSymAlg}
    {plaintext key c : Bytes} (before between : List NativeCall)
    (hC : C.Inverts (getCipherSuite alg)) (hw' : w'.DecryptsAll)
    (h : (NativeCryptor.encrypt C w (before.foldl (CryptoEngine.exec C) {}) alg plaintext key).2 =
      (.ok, c)) :
    c.length = plaintext.length + 44 ∧ c.length < ciphertextMaxLength ∧
      (NativeCryptor.decrypt C w' (between.foldl (CryptoEngine.exec C)
        (NativeCryptor.encrypt C w (before.foldl (CryptoEngine.exec C) {}) alg plaintext key).1)
        alg c key).2 = (.ok, plaintext) := by
  rw [NativeCryptor.encrypt_eq] at h
  obtain ⟨hlen, hopen⟩ := nativeDecrypt_nativeEncrypt_all hC hw' h
  obtain ⟨-, -, hmax, -⟩ := nativeEncrypt_inv h
  refine ⟨hlen, ?_, ?_⟩
  · simp only [plaintextMaxLength, ciphertextMaxLength, cipherOffset] at *
    omega
  · rw [NativeCryptor.decrypt_eq]
    exact hopen

/-- Ciphers that mask the text with the last byte of the IV and tag it with the first of
the AAD. -/
def maskCiphers : Ciphers where
  ivLength suite := suite.ivLength
  keyLength suite := suite.algLen / 8
  encrypt _ _ iv _ p := p.map (· ^^^ iv.getLastD 0)
  tag _ _ _ aad _ := List.replicate tagLength (aad.headD 0)
  decrypt _ _ iv _ data := data.map (· ^^^ iv.getLastD 0)
  verify _ _ _ aad _ tag := tag = List.replicate tagLength (aad.headD 0)

theorem maskCiphers_inverts (suite : CcsecCipherSuite) : maskCiphers.Inverts suite where
  encrypt_length _ _ _ _ := List.length_map _
  decrypt_encrypt key iv aad p := by
    have hmask : ∀ b m : UInt8, b ^^^ m ^^^ m = b := fun b m => by
      rw [UInt8.xor_assoc, UInt8.xor_self, UInt8.xor_zero]
    show (p.map _).map _ = p
    rw [List.map_map]
    exact (List.map_congr_left fun b _ => hmask b _).trans (List.map_id' p)
  tag_length _ _ _ _ _ := List.length_replicate
  verify_tag _ _ _ _ _ := decide_eq_true rfl

/-- A world without failures, whose random bytes count up. -/
def calmWorld : OpensslWorld where
  memory _ := 0xaa
  randIv := 0
  ivBytes n := n.toUInt8
  randAad := 0
  aadBytes n := (100 + n).toUInt8
  ctxNew := true
  fetchCipher := true
  init := 1
  setIvLength := 1
  setTagLength := 1
  initKey := 1
  setLength := 1
  aadUpdate := 1
  aadOutLength := 16
  update := 1
  final := 1
  ctrlTag := 1
  tagLength := 16

theorem calmWorld_decryptsAll : calmWorld.DecryptsAll := by
  constructor <;> first | rfl | (constructor <;> first | rfl | decide)

/-- `SM4_CTR` after a call in another suite: the mask is byte 15 of the buffer, which the
AAD wrote. -/
theorem decrypt_encrypt_of_calls_sm4 :
    let before := [NativeCall.encrypt calmWorld .aes256Gcm [1] (List.replicate 32 7)]
    let c := NativeCryptor.encrypt maskCiphers calmWorld
      (before.foldl (CryptoEngine.exec maskCiphers) {}) .sm4Ctr [1, 2, 3] (List.replicate 16 7)
    c.2.2.length = 47 ∧ (NativeCryptor.decrypt maskCiphers calmWorld c.1 .sm4Ctr c.2.2
      (List.replicate 16 7)).2 = (.ok, [1, 2, 3]) := by
  intro before c
  have hc : c.2 = (.ok, c.2.2) := by decide +kernel
  have h := decrypt_encrypt_of_calls before [] (maskCiphers_inverts _) calmWorld_decryptsAll hc
  exact ⟨h.1, h.2.2⟩

end CdfCrypto
