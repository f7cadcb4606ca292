import CdfCrypto.Cryption.Engine
import Mathlib.Data.Set.Defs

/-!
# What a ciphertext covers

Two questions about the 44 bytes in front of the cipher data. On the way in: is
every byte of an accepted ciphertext one the tag vouches for? On the way out: is
every byte of a returned ciphertext one the encryption wrote?

The four fields tile the buffer, so the authenticated suites answer yes to both.
`SM4_CTR` has no tag and leaves the tag field as the stack had it
(`sm4_tag_unwritten`). The key is looked at by its 32-bit length only: a key
whose length is right modulo `2 ^ 32` is taken for the prefix it wraps to.
-/

namespace CdfCrypto

/-- A field behind a write. -/
theorem slice_writeAt_after {buf bs : Bytes} {off o len : Nat} (h : off + bs.length ≤ o)
    (hoff : off ≤ buf.length) : slice (writeAt buf off bs) o len = slice buf o len := by
  rw [slice, slice, drop_writeAt_after h hoff]

/-! ## What an accepted ciphertext is -/

/-- `c` holds IV, AAD, tag and data, and opens under the whole `key` to `p`. -/
structure Opened (C : Ciphers) (suite : CcsecCipherSuite) (key c p : Bytes) : Prop where
  length : 44 < c.length
  key_length : key.length * 8 = suite.algLen
  verified :
    C.verify suite key (slice c 0 12) (slice c 12 16) (c.drop 44) (slice c 28 16) = true
  plain : p = C.decrypt suite key (slice c 0 12) (slice c 12 16) (c.drop 44)

/-- The ciphertexts made of every combination of fields that the cipher accepts under `key`
are among the `issued` ones: the cipher is ideal. -/
def IdealFor (C : Ciphers) (suite : CcsecCipherSuite) (key : Bytes) (issued : Set Bytes) : Prop :=
  ∀ iv aad data tag : Bytes, iv.length = 12 → aad.length = 16 → tag.length = 16 →
    C.verify suite key iv aad data tag = true → iv ++ (aad ++ (tag ++ data)) ∈ issued

/-- Every decryption that succeeds has opened its ciphertext, and, over an ideal cipher, a
ciphertext that was issued as it is. -/
def OpensAuthentic (C : Ciphers) (alg : CryptoSymAlg) (key : Bytes) : Prop :=
  ∀ (engine : CryptoEngine) (w : OpensslWorld) (c p : Bytes),
    (NativeCryptor.decrypt C w engine alg c key).2 = (.ok, p) →
      Opened C (getCipherSuite alg) key c p ∧
        ∀ issued, IdealFor C (getCipherSuite alg) key issued → c ∈ issued

/-- The fields of a ciphertext tile it. -/
theorem fields_tile {c : Bytes} (h : 44 ≤ c.length) :
    slice c 0 12 ++ (slice c 12 16 ++ (slice c 28 16 ++ c.drop 44)) = c := by
  obtain ⟨f, rfl, hf⟩ := exists_fields h
  have hiv : slice f.bytes 0 12 = f.iv := hf.slice_iv
  have haad : slice f.bytes 12 16 = f.aad := hf.slice_aad
  have htag : slice f.bytes 28 16 = f.tag := hf.slice_tag
  have hdata : f.bytes.drop 44 = f.cipherData := hf.drop_cipherData
  rw [hiv, haad, htag, hdata]
  rfl

/-- What opens is what was issued, when the cipher is ideal: no byte is outside the fields. -/
theorem Opened.mem_issued {C : Ciphers} {suite : CcsecCipherSuite} {key c p : Bytes}
    (h : Opened C suite key c p) {issued : Set Bytes} (hideal : IdealFor C suite key issued) :
    c ∈ issued := by
  have hlen := h.length
  have hslice : ∀ off len, off + len ≤ 44 → (slice c off len).length = len := by
    intro off len hfits
    rw [slice, List.length_take, List.length_drop]
    omega
  have hmem := hideal _ _ _ _ (hslice 0 12 (by decide)) (hslice 12 16 (by decide))
    (hslice 28 16 (by decide)) h.verified
  rwa [fields_tile (Nat.le_of_lt hlen)] at hmem

/-- **The way to a plaintext, backwards**: the guards a decryption that succeeds has passed,
and what it returns of the buffer. -/
theorem nativeDecrypt_inv {C : Ciphers} {w : OpensslWorld} {alg : CryptoSymAlg}
    {c key p : Bytes} (h : nativeDecrypt C w alg c key = (.ok, p)) :
    cipherOffset < c.length ∧ (uint32Prefix key).length * 8 = (getCipherSuite alg).algLen ∧
      ∃ plainText, opensslDecrypt C w (getCipherSuite alg) (uint32Prefix key) c
          (stream w.memory (estimatedCipherLen c.length)) = .ok plainText ∧
        p = plainText.take (c.length - cipherOffset) := by
  unfold nativeDecrypt at h
  dsimp only at h
  by_cases hspec : getCipherSuite alg = .unspecified
  · rw [if_pos hspec] at h
    cases h
  rw [if_neg hspec] at h
  by_cases htext : c = [] ∨ ciphertextMaxLength ≤ c.length
  · rw [if_pos htext] at h
    cases h
  rw [if_neg htext] at h
  by_cases hkey : key = []
  · rw [if_pos hkey] at h
    cases h
  rw [if_neg hkey] at h
  cases hengine : engineDecrypt C w (getCipherSuite alg) (uint32Prefix key) c
      (stream w.memory (estimatedCipherLen c.length)) with
  | error code =>
    rw [hengine] at h
    cases h
  | ok plainText =>
    rw [hengine] at h
    unfold engineDecrypt at hengine
    simp only [checkRet_bind_eq_ok] at hengine
    obtain ⟨-, hlen, -, halg, -, hopenssl⟩ := hengine
    have hplain : estimatedPlainLen c.length = c.length - cipherOffset := if_neg (by omega)
    dsimp only at h
    split at h
    · refine ⟨hlen, halg, plainText, hopenssl, ?_⟩
      rw [← hplain]
      exact (Prod.mk.inj h).2.symm
    · cases h

/-- **Where the tag is checked**: in the update for CCM, in the final call for the others. -/
theorem opensslDecrypt_verified {C : Ciphers} {w : OpensslWorld} {suite : CcsecCipherSuite}
    (hsm4 : suite ≠ .sm4Ctr) {key c buffer plainText : Bytes}
    (h : opensslDecrypt C w suite key c buffer = .ok plainText) :
    C.verify suite key (slice c 0 12) (slice c 12 16) (c.drop 44) (slice c 28 16) = true ∧
      plainText = writeAt buffer 0
        (C.decrypt suite key (slice c 0 12) (slice c 12 16) (c.drop 44)) := by
  have hiv : suite.ivLength = 12 := if_neg hsm4
  unfold opensslDecrypt at h
  by_cases hccm : suite = .aesCcm128
  · rw [if_pos hccm] at h
    unfold opensslCcmDecrypt at h
    simp only [hiv, checkRet_bind_eq_ok] at h
    obtain ⟨-, -, -, -, -, -, -, -, -, ⟨-, hverify⟩, h⟩ := h
    exact ⟨hverify, (Except.ok.inj h).symm⟩
  · simp only [if_neg hccm, hsm4, if_false, false_or, hiv, checkRet_bind_eq_ok] at h
    obtain ⟨-, -, -, -, -, -, -, hfinal, h⟩ := h
    refine ⟨?_, (Except.ok.inj h).symm⟩
    split at hfinal
    next hverify => exact hverify
    next => exact absurd hfinal (by decide)  -- a wrong tag makes the final call return zero

/-- A key that is short enough for its length to be passed on is passed on whole. -/
theorem uint32Prefix_of_lt {key : Bytes} (h : key.length < 2 ^ 32) : uint32Prefix key = key := by
  rw [uint32Prefix, Nat.mod_eq_of_lt h, List.take_length]

theorem length_uint32Prefix (key : Bytes) : (uint32Prefix key).length = key.length % 2 ^ 32 := by
  rw [uint32Prefix, List.length_take, Nat.min_eq_left (Nat.mod_le _ _)]

/-- What was sealed under the prefix of a key that the engine sees opens under the key. -/
theorem decrypts_of_sealed {C : Ciphers} {alg : CryptoSymAlg} (hC : C.Inverts (getCipherSuite alg))
    (hspec : getCipherSuite alg ≠ .unspecified) {key c : Bytes} {b : UInt8}
    (hkey : key.length % 2 ^ 32 * 8 = (getCipherSuite alg).algLen)
    (hc : Sealed C (getCipherSuite alg) (uint32Prefix key) [b] c) :
    (NativeCryptor.decrypt C calmWorld {} alg c key).2 = (.ok, [b]) := by
  have hne : key ≠ [] := by
    intro heq
    subst heq
    exact CcsecCipherSuite.algLen_ne_zero hspec hkey.symm
  rw [← length_uint32Prefix] at hkey
  rw [NativeCryptor.decrypt_eq]
  exact nativeDecrypt_of_openssl hspec (List.cons_ne_nil _ _) (by decide : 1 < 1024 * 1024) hne
    hkey hc.length (opensslDecrypt_of_sealed hC calmWorld_decryptsAll hc)

/-- **Authenticated decryption.** With any authenticated suite, what decryptions accept under
a key is authentic, whatever the calls return, exactly when the key has the suite's length or
does not have it modulo `2 ^ 32` either. -/
theorem opensAuthentic_iff {C : Ciphers} {alg : CryptoSymAlg}
    (hspec : getCipherSuite alg ≠ .unspecified) (hsm4 : getCipherSuite alg ≠ .sm4Ctr)
    (hC : C.Inverts (getCipherSuite alg))
    (hdecrypt : ∀ key iv aad data,
      (C.decrypt (getCipherSuite alg) key iv aad data).length = data.length) (key : Bytes) :
    OpensAuthentic C alg key ↔ (key.length % 2 ^ 32 * 8 = (getCipherSuite alg).algLen →
      key.length * 8 = (getCipherSuite alg).algLen) := by
  constructor
  · intro hall hkey
    -- a sealed buffer is accepted, and so the key must have the length
    have hc := Sealed.of_writes hC (uint32Prefix key) (show (List.replicate 45 (0 : UInt8)).length =
      [(0 : UInt8)].length + cipherOffset from rfl)
    exact (hall _ _ _ _ (decrypts_of_sealed hC hspec hkey hc)).1.key_length
  · intro hkey engine w c p h
    rw [NativeCryptor.decrypt_eq] at h
    obtain ⟨hlen, halg, plainText, hopenssl, rfl⟩ := nativeDecrypt_inv h
    rw [length_uint32Prefix] at halg
    have hshort : key.length < 2 ^ 32 := by
      have hle := (getCipherSuite alg).algLen_le
      have hlength := hkey halg
      omega
    rw [uint32Prefix_of_lt hshort] at hopenssl
    obtain ⟨hverify, rfl⟩ := opensslDecrypt_verified hsm4 hopenssl
    have hdata : (C.decrypt (getCipherSuite alg) key (slice c 0 12) (slice c 12 16)
        (c.drop 44)).length = c.length - cipherOffset :=
      (hdecrypt _ _ _ _).trans List.length_drop
    have hopened : Opened C (getCipherSuite alg) key c _ :=
      ⟨hlen, hkey halg, hverify, rfl⟩
    refine ⟨?_, fun issued hideal => hopened.mem_issued hideal⟩
    rw [writeAt, List.take_zero, List.nil_append, ← hdata, List.take_left]
    exact hopened

/-- The hypotheses hold of the masking ciphers, with a key of the right length. -/
theorem opensAuthentic_iff_mask : OpensAuthentic maskCiphers .aes128Gcm (List.replicate 16 7) :=
  (opensAuthentic_iff (by decide) (by decide) (maskCiphers_inverts _)
    (fun _ _ _ _ => List.length_map _) _).mpr fun _ => rfl

/-- A key of `2 ^ 32 + 16` bytes opens what its first 16 bytes sealed. -/
theorem decrypt_key_wraps :
    (NativeCryptor.decrypt maskCiphers calmWorld {} .aes128Gcm (List.replicate 44 0 ++ [1])
        (List.replicate (2 ^ 32 + 16) 7)).2 = (.ok, [1]) ∧
      ¬OpensAuthentic maskCiphers .aes128Gcm (List.replicate (2 ^ 32 + 16) 7) := by
  have hrun : (NativeCryptor.decrypt maskCiphers calmWorld {} .aes128Gcm
      (List.replicate 44 0 ++ [1]) (List.replicate (2 ^ 32 + 16) 7)).2 = (.ok, [1]) := by
    refine decrypts_of_sealed (maskCiphers_inverts _) (by decide) ?_ ⟨rfl, rfl, fun _ => rfl⟩
    rw [List.length_replicate]
    rfl
  refine ⟨hrun, fun hall => ?_⟩
  have hlength := (hall _ _ _ _ hrun).1.key_length
  rw [List.length_replicate] at hlength
  exact absurd hlength (by decide)

/-! ## What an encryption leaves unwritten -/

/-- Two encryptions of one text under one key that drew the same random bytes return the same
ciphertext, whatever their buffers held before and whatever their other calls returned. -/
def WritesAll (C : Ciphers) (alg : CryptoSymAlg) : Prop :=
  ∀ (engine engine' : CryptoEngine) (w w' : OpensslWorld) (plaintext key c c' : Bytes),
    w.ivBytes = w'.ivBytes → w.aadBytes = w'.aadBytes →
    (NativeCryptor.encrypt C w engine alg plaintext key).2 = (.ok, c) →
    (NativeCryptor.encrypt C w' engine' alg plaintext key).2 = (.ok, c') → c = c'

/-- The documented lengths, for an authenticated suite. -/
theorem Ciphers.Inverts.correct {C : Ciphers} {suite : CcsecCipherSuite} (hC : C.Inverts suite)
    (hsm4 : suite ≠ .sm4Ctr) : C.Correct suite :=
  ⟨hC.encrypt_length, hC.tag_length hsm4, hC.decrypt_encrypt, hC.verify_tag hsm4⟩

/-- **The authenticated suites write all**: the four fields come from the random bytes, the
key and the text alone. -/
theorem writesAll_of_ne {C : Ciphers} {alg : CryptoSymAlg} (hsm4 : getCipherSuite alg ≠ .sm4Ctr)
    (hC : C.Inverts (getCipherSuite alg)) : WritesAll C alg := by
  intro engine engine' w w' plaintext key c c' hiv haad h h'
  rw [NativeCryptor.encrypt_eq] at h h'
  obtain ⟨-, -, -, -, hc⟩ := nativeEncrypt_ok hsm4 (hC.correct hsm4) h
  obtain ⟨-, -, -, -, hc'⟩ := nativeEncrypt_ok hsm4 (hC.correct hsm4) h'
  rw [hc, hc', sealed, sealed, hiv, haad]

/-- The random writes end before the tag. -/
theorem fillRandom_slice_tag {w : OpensslWorld} {suite : CcsecCipherSuite} {buf c : Bytes}
    (hlen : tagOffset ≤ buf.length) (h : fillRandom w suite buf = .ok c) :
    slice c tagOffset tagLength = slice buf tagOffset tagLength := by
  obtain ⟨hiv, haad⟩ := suite.header_le
  simp only [fillRandom, checkRet_bind_eq_ok] at h
  obtain ⟨-, -, h⟩ := h
  have hivLen : (stream w.ivBytes suite.ivLength).length = suite.ivLength := stream_length _ _
  have haadLen : (stream w.aadBytes suite.aadLength).length = suite.aadLength := stream_length _ _
  have hfirst : (writeAt buf ivOffset (stream w.ivBytes suite.ivLength)).length = buf.length :=
    length_writeAt (by omega)
  rw [← Except.ok.inj h, slice_writeAt_after (by omega) (by omega),
    slice_writeAt_after (by omega) (by omega)]

/-- **Nothing in the counter mode writes the tag field.** -/
theorem sm4_tag_unwritten {C : Ciphers} {w : OpensslWorld} {key plainText buf c : Bytes}
    (hlen : cipherOffset ≤ buf.length)
    (h : opensslEncrypt C w .sm4Ctr key plainText buf = .ok c) :
    slice c tagOffset tagLength = slice buf tagOffset tagLength := by
  unfold opensslEncrypt at h
  rw [if_neg (by decide)] at h
  obtain ⟨filled, hfill, h⟩ := bind_eq_ok h
  have hroom : tagOffset ≤ buf.length := (by decide : tagOffset ≤ cipherOffset).trans hlen
  have hfilled := fillRandom_length hroom hfill
  simp only [checkRet_bind_eq_ok, if_true] at h
  obtain ⟨-, -, -, -, -, -, -, -, h⟩ := h
  -- the data is behind the field, the two random writes before it
  rw [← Except.ok.inj h, slice_writeAt_before (by decide) (by omega)]
  exact fillRandom_slice_tag hroom hfill

/-- **The way to a ciphertext, forwards**: an encryption whose OpenSSL part succeeds passes every
guard on the way and returns what that has written. -/
theorem nativeEncrypt_of_ok {C : Ciphers} {w : OpensslWorld} {alg : CryptoSymAlg}
    {plaintext key cipherText : Bytes} (hspec : getCipherSuite alg ≠ .unspecified)
    (htext : plaintext ≠ []) (hmax : plaintext.length < plaintextMaxLength)
    (halg : (uint32Prefix key).length * 8 = (getCipherSuite alg).algLen)
    (hseal : opensslEncrypt C w (getCipherSuite alg) (uint32Prefix key) plaintext
      (stream w.memory (plaintext.length + cipherOffset)) = .ok cipherText) :
    nativeEncrypt C w alg plaintext key =
      (.ok, cipherText.take (plaintext.length + cipherOffset)) := by
  have hne := CcsecCipherSuite.algLen_ne_zero hspec
  have hkey' : uint32Prefix key ≠ [] := by
    intro hnil
    rw [hnil] at halg
    exact hne halg.symm
  have hkey : key ≠ [] := by
    intro hnil
    exact hkey' (by rw [hnil]; rfl)
  have hkeyLen : (uint32Prefix key).length ≤ (2 ^ 32 - 1) / 8 := by
    have := (getCipherSuite alg).algLen_le
    omega
  have hguard : ¬(plaintext = [] ∨ plaintextMaxLength ≤ plaintext.length) :=
    not_or.mpr ⟨htext, Nat.not_le.mpr hmax⟩
  simp only [plaintextMaxLength] at hmax
  have hcipher : estimatedCipherLen plaintext.length = plaintext.length + cipherOffset :=
    if_pos (by rw [cipherOffset]; omega)
  have hengine : engineEncrypt C w (getCipherSuite alg) (uint32Prefix key) plaintext
      (stream w.memory (plaintext.length + cipherOffset)) = .ok cipherText := by
    unfold engineEncrypt
    simp only [checkRet_bind_eq_ok]
    exact ⟨⟨htext, hkey'⟩, hkeyLen, halg, hne, hseal⟩
  have hcopy : memcpyS (plaintext.length + cipherOffset) (plaintext.length + cipherOffset) = true := by
    have hoffset : cipherOffset = 44 := rfl
    simp only [memcpyS, Bool.and_eq_true, decide_eq_true_eq]
    omega
  unfold nativeEncrypt
  simp only [hcipher]
  rw [if_neg hspec, if_neg hguard, if_neg hkey, hengine]
  exact if_pos hcopy

/-- The same, where the buffer has been filled. -/
theorem nativeEncrypt_of_openssl {C : Ciphers} {w : OpensslWorld} {alg : CryptoSymAlg}
    {plaintext key c : Bytes} (hspec : getCipherSuite alg ≠ .unspecified) (htext : plaintext ≠ [])
    (hmax : plaintext.length < plaintextMaxLength)
    (halg : (uint32Prefix key).length * 8 = (getCipherSuite alg).algLen)
    (hlen : c.length = plaintext.length + cipherOffset)
    (hseal : opensslEncrypt C w (getCipherSuite alg) (uint32Prefix key) plaintext
      (stream w.memory (plaintext.length + cipherOffset)) = .ok c) :
    nativeEncrypt C w alg plaintext key = (.ok, c) := by
  rw [nativeEncrypt_of_ok hspec htext hmax halg hseal, ← hlen, List.take_length]

/-- The counter mode over OpenSSL's own lengths for it. -/
structure Ciphers.HasSm4 (C : Ciphers) : Prop extends C.Inverts .sm4Ctr where
  ivLength : C.ivLength .sm4Ctr = 16
  keyLength : C.keyLength .sm4Ctr = 16

/-- An encryption in the counter mode that no call fails returns 16 bytes of what was in the
buffer before. -/
theorem sm4_encrypts {C : Ciphers} (hC : C.HasSm4) {key : Bytes} (hkey : key.length = 16)
    (memory : Nat → UInt8) :
    ∃ c, nativeEncrypt C { calmWorld with memory := memory } .sm4Ctr [0] key = (.ok, c) ∧
      slice c tagOffset tagLength = slice (stream memory 45) tagOffset tagLength := by
  have hkey32 : uint32Prefix key = key := uint32Prefix_of_lt (by omega)
  obtain ⟨c, hc⟩ : ∃ c, opensslEncrypt C { calmWorld with memory := memory } .sm4Ctr key [0]
      (stream memory 45) = .ok c := by
    unfold opensslEncrypt fillRandom
    simp only [if_neg (by decide : ¬CcsecCipherSuite.sm4Ctr = .aesCcm128), bind_assoc,
      checkRet_bind_eq_ok, pure_bind, hC.ivLength, hC.keyLength, hkey]
    exact ⟨_, rfl, rfl, rfl, rfl, ⟨rfl, trivial⟩, rfl, Or.inl trivial, rfl, rfl, Or.inl trivial, rfl⟩
  have hlen := (opensslEncrypt_sealed hC.toInverts (stream_length _ _) hc).length
  refine ⟨c, ?_, sm4_tag_unwritten (by rw [stream_length]; decide) hc⟩
  rw [← hkey32] at hc
  exact nativeEncrypt_of_openssl (by decide) (List.cons_ne_nil _ _) (by decide : 1 < 1024 * 1024)
    (by rw [hkey32, hkey]; rfl) hlen hc

/-- **No prior memory in ciphertexts**, exactly with the suites that have a tag. -/
theorem writesAll_iff {C : Ciphers} (hC : ∀ suite, C.Inverts suite) (hsm4 : C.HasSm4)
    (alg : CryptoSymAlg) : WritesAll C alg ↔ alg ≠ .sm4Ctr := by
  constructor
  · intro hall heq
    subst heq
    have hlen : (List.replicate 16 (0 : UInt8)).length = 16 := rfl
    obtain ⟨c, hc, htag⟩ := sm4_encrypts hsm4 hlen (fun _ => 0)
    obtain ⟨c', hc', htag'⟩ := sm4_encrypts hsm4 hlen (fun _ => 1)
    rw [← NativeCryptor.encrypt_eq C _ {}] at hc hc'
    have hsame := hall _ _ _ _ _ _ _ _ (by rfl) (by rfl) hc hc'
    rw [hsame, htag'] at htag
    exact absurd htag (by decide)
  · intro hne
    refine writesAll_of_ne ?_ (hC _)
    cases alg with
    | sm4Ctr => exact absurd rfl hne
    | _ => nofun

theorem maskCiphers_hasSm4 : maskCiphers.HasSm4 where
  toInverts := maskCiphers_inverts _
  ivLength := rfl
  keyLength := rfl

/-- The hypotheses hold of the masking ciphers. -/
theorem writesAll_iff_mask : WritesAll maskCiphers .aes128Ccm :=
  (writesAll_iff maskCiphers_inverts maskCiphers_hasSm4 _).mpr nofun

/-- Two runs of the counter mode that differ in the memory their buffers were given. -/
theorem encrypt_returns_memory :
    (NativeCryptor.encrypt maskCiphers calmWorld {} .sm4Ctr [1] (List.replicate 16 7)).2.1 = .ok ∧
      slice (NativeCryptor.encrypt maskCiphers calmWorld {} .sm4Ctr [1]
        (List.replicate 16 7)).2.2 28 16 = List.replicate 16 0xaa ∧
      ¬WritesAll maskCiphers .sm4Ctr := by
  refine ⟨by decide +kernel, by decide +kernel, fun hall => ?_⟩
  have hsame := hall {} {} calmWorld { calmWorld with memory := fun _ => 0xbb } [1]
    (List.replicate 16 7) _ _ rfl rfl (Prod.ext (by decide +kernel) rfl)
    (Prod.ext (by decide +kernel) rfl)
  revert hsame
  decide +kernel

end CdfCrypto
