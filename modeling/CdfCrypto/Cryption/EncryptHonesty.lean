import CdfCrypto.Cryption.Coverage

/-!
# What an OK of `Encrypt` vouches for

An encryption is a row of calls that may fail, and an OK should mean that none of them has. The
calls have three ways to say that they succeeded (`GetRand` returns 0, OpenSSL 1, a constructor
something that is not null), and the engine returns a code whose success is 0.

One check returns `false`, as if success were a boolean: the last of CCM, of the length of the tag.
Every other failure of every suite is reported (`encryptsHonestly_iff`).
-/

namespace CdfCrypto

/-! ## The calls of a suite -/

/-- What every encryption begins with. -/
structure OpensslWorld.Begins (w : OpensslWorld) : Prop where
  randIv : w.randIv = 0
  randAad : w.randAad = 0
  ctxNew : w.ctxNew = true
  fetchCipher : w.fetchCipher = true

/-- The calls of CCM, without the look at the length of its tag. -/
structure OpensslWorld.CcmCalls (w : OpensslWorld) : Prop extends w.Begins where
  init : w.init = 1
  setIvLength : w.setIvLength = 1
  setTagLength : w.setTagLength = 1
  initKey : w.initKey = 1
  setLength : w.setLength = 1
  aadUpdate : w.aadUpdate = 1
  update : w.update = 1
  final : w.final = 1
  ctrlTag : w.ctrlTag = 1

/-- The calls of the other suites, of which `SM4_CTR` makes two fewer. -/
structure OpensslWorld.AeadCalls (w : OpensslWorld) (C : Ciphers) (suite : CcsecCipherSuite)
    (key : Bytes) : Prop extends w.Begins where
  lengths : suite.ivLength = C.ivLength suite ∧ key.length = C.keyLength suite
  init : w.init = 1
  aadUpdate : suite = .sm4Ctr ∨ w.aadUpdate = 1
  update : w.update = 1
  final : w.final = 1
  ctrlTag : suite = .sm4Ctr ∨ w.ctrlTag = 1

/-- Every step on the path of a suite has succeeded, the check of the tag's length included. -/
def OpensslWorld.StepsSucceed (w : OpensslWorld) (C : Ciphers) (suite : CcsecCipherSuite)
    (key : Bytes) : Prop :=
  if suite = .aesCcm128 then w.CcmCalls ∧ w.tagLength = CdfCrypto.tagLength else w.AeadCalls C suite key

variable {C : Ciphers} {w : OpensslWorld} {suite : CcsecCipherSuite}
variable {key plainText buf : Bytes}

/-- **CCM succeeds** exactly when its calls do: the look at the tag's length decides nothing. -/
theorem opensslCcmEncrypt_ok_iff (C : Ciphers) (w : OpensslWorld) (suite : CcsecCipherSuite)
    (key plainText buf : Bytes) :
    (∃ c, opensslCcmEncrypt C w suite key plainText buf = .ok c) ↔ w.CcmCalls := by
  unfold opensslCcmEncrypt fillRandom
  simp only [bind_assoc, checkRet_bind_eq_ok, pure_bind, ite_self]
  constructor
  · intro h
    obtain ⟨c, hiv, haad, hctx, hcipher, hinit, hivLen, htagLen, hkey, hlen, haadUpdate, hupdate,
      hfinal, htag, -⟩ := h
    exact ⟨⟨hiv, haad, hctx, hcipher⟩, hinit, hivLen, htagLen, hkey, hlen, haadUpdate, hupdate,
      hfinal, htag⟩
  · intro h
    exact ⟨_, h.randIv, h.randAad, h.ctxNew, h.fetchCipher, h.init, h.setIvLength, h.setTagLength,
      h.initKey, h.setLength, h.aadUpdate, h.update, h.final, h.ctrlTag, rfl⟩

/-- **The other suites succeed** exactly when their calls do. -/
theorem opensslEncrypt_ok_iff (hccm : suite ≠ .aesCcm128) :
    (∃ c, opensslEncrypt C w suite key plainText buf = .ok c) ↔ w.AeadCalls C suite key := by
  unfold opensslEncrypt fillRandom
  rw [if_neg hccm]
  simp only [bind_assoc, checkRet_bind_eq_ok, pure_bind]
  constructor
  · intro h
    obtain ⟨c, hiv, haad, hctx, hcipher, hlengths, hinit, haadUpdate, hupdate, hfinal, htag, -⟩ := h
    exact ⟨⟨hiv, haad, hctx, hcipher⟩, hlengths, hinit, haadUpdate, hupdate, hfinal, htag⟩
  · intro h
    exact ⟨_, h.randIv, h.randAad, h.ctxNew, h.fetchCipher, h.lengths, h.init, h.aadUpdate,
      h.update, h.final, h.ctrlTag, rfl⟩

/-! ## The promise -/

/-- An OK of this call means that every step has succeeded. -/
def EncryptsHonestly (C : Ciphers) (w : OpensslWorld) (engine : CryptoEngine) (alg : CryptoSymAlg)
    (plaintext key : Bytes) : Prop :=
  (NativeCryptor.encrypt C w engine alg plaintext key).2.1 = .ok →
    w.StepsSucceed C (getCipherSuite alg) (uint32Prefix key)

/-- The arguments that get as far as OpenSSL with CCM. -/
def CcmArguments (plaintext key : Bytes) : Prop :=
  plaintext ≠ [] ∧ plaintext.length < plaintextMaxLength ∧ key.length % 2 ^ 32 = 16

theorem alg_of_ccm {alg : CryptoSymAlg} (h : getCipherSuite alg = .aesCcm128) : alg = .aes128Ccm := by
  cases alg with
  | aes128Ccm => rfl
  | _ => cases h

/-- **Where an OK is honest**: everywhere but where CCM comes to its last check and fails it. -/
theorem encryptsHonestly_iff (C : Ciphers) (w : OpensslWorld) (engine : CryptoEngine)
    (alg : CryptoSymAlg) (plaintext key : Bytes) : EncryptsHonestly C w engine alg plaintext key ↔
      ¬ (alg = .aes128Ccm ∧ CcmArguments plaintext key ∧ w.CcmCalls ∧ w.tagLength ≠ tagLength) := by
  unfold EncryptsHonestly OpensslWorld.StepsSucceed
  rw [NativeCryptor.encrypt_eq]
  constructor
  · intro hhonest hboth
    obtain ⟨rfl, harguments, hcalls, htag⟩ := hboth
    obtain ⟨htext, hmax, hkeyLen⟩ := harguments
    have hwrapped : (uint32Prefix key).length * 8 = (getCipherSuite .aes128Ccm).algLen := by
      rw [length_uint32Prefix, hkeyLen]
      rfl
    -- the calls succeed, and so does the encryption
    obtain ⟨c, hc⟩ := (opensslCcmEncrypt_ok_iff C w .aesCcm128 (uint32Prefix key) plaintext
      (stream w.memory (plaintext.length + cipherOffset))).mpr hcalls
    have hspec : getCipherSuite .aes128Ccm ≠ .unspecified := by decide
    have hok := nativeEncrypt_of_ok hspec htext hmax hwrapped hc
    exact htag (hhonest (congrArg Prod.fst hok)).2
  · intro hnot hok
    obtain ⟨-, htext, hmax, -, halg, cipherText, hopenssl, -⟩ :=
      nativeEncrypt_inv (Prod.ext hok rfl)
    split
    next hccm =>
      unfold opensslEncrypt at hopenssl
      rw [if_pos hccm] at hopenssl
      have hcalls := (opensslCcmEncrypt_ok_iff _ _ _ _ _ _).mp ⟨_, hopenssl⟩
      refine ⟨hcalls, ?_⟩
      by_contra htag
      have hkeyLen : key.length % 2 ^ 32 * 8 = 128 := by
        rw [length_uint32Prefix, hccm] at halg
        exact halg
      exact hnot ⟨alg_of_ccm hccm, ⟨htext, hmax, by omega⟩, hcalls, htag⟩
    next hccm => exact (opensslEncrypt_ok_iff hccm).mp ⟨_, hopenssl⟩

/-- Everything succeeds but the look at the length of the tag, and the encryption returns OK. -/
theorem ccm_tag_unchecked :
    (NativeCryptor.encrypt maskCiphers { calmWorld with tagLength := 12 } {} .aes128Ccm [1]
      (List.replicate 16 7)).2.1 = .ok ∧
    ¬ EncryptsHonestly maskCiphers { calmWorld with tagLength := 12 } {} .aes128Ccm [1]
      (List.replicate 16 7) := by
  have hok : (NativeCryptor.encrypt maskCiphers { calmWorld with tagLength := 12 } {} .aes128Ccm [1]
      (List.replicate 16 7)).2.1 = .ok := by decide +kernel
  refine ⟨hok, fun hhonest => ?_⟩
  have htag : (12 : Nat) = 16 := (hhonest hok).2
  exact absurd htag (by decide)

end CdfCrypto
