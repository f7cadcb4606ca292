import CdfCrypto.KeyManagement.Inversion

/-!
# What was encrypted is decrypted

A ciphertext of the key manager is the base64 of a six-byte header and the text
of the native layer. The header is read back as it was written for every domain
below `domainCount` and every key id of sixteen bits
(`readCipherHeader_constructCipherHeader`); none of the length limits on the way
back is reached (`bas64DecodeCipherText_base64Encode`); and the native layer
opens what it sealed.

`decrypt_of_encrypt` puts them together, for a vault that gives the same key to both
operations, and adds the converse for ciphertexts from anywhere: what is accepted
is well formed and names a key that the manager holds.
-/

namespace CdfCrypto.KeyManagement

open Lib OpenbaoKeyManager

/-! ## The header -/

/-- The parameter checks, passed. -/
theorem checkEncryptAndDecryptParams_eq_ok {m : OpenbaoKeyManager} {d : Nat}
    {symAlg : CryptoSymAlg} :
    m.checkEncryptAndDecryptParams d symAlg = .ok ↔
      m.inited = true ∧ d ∈ m.domainKeyMap ∧ d < m.domainCount.1 ∧
        (symAlg = .aes256Gcm ∨ symAlg = .chacha20Poly1305) := by
  have hempty : d ∈ m.domainKeyMap → m.domainKeyMap.isEmpty = false := by
    intro hmem
    cases h : m.domainKeyMap.isEmpty with
    | false => rfl
    | true =>
      rw [Std.ExtTreeMap.isEmpty_iff.mp h] at hmem
      simp at hmem
  unfold checkEncryptAndDecryptParams openBaoCheckSymAlg
  constructor
  · intro h
    by_cases h₁ : m.inited = true
    · by_cases h₂ : d ∈ m.domainKeyMap
      · by_cases h₃ : m.domainCount.1 ≤ d
        · simp [h₁, hempty h₂, h₃] at h
        · simp only [h₁, hempty h₂, h₃, h₂, not_true_eq_false, if_false, Bool.false_eq_true] at h
          split at h
          · cases h
          next halg =>
            refine ⟨h₁, h₂, by omega, Decidable.or_iff_not_imp_left.mpr ?_⟩
            simpa using halg
      · simp only [h₁, h₂, not_true_eq_false, not_false_eq_true, if_false, if_true] at h
        split at h
        · cases h
        split at h <;> cases h
    · simp [h₁] at h
  · intro hboth
    obtain ⟨h₁, h₂, h₃, h₄⟩ := hboth
    have h₄' : (decide (symAlg = .aes256Gcm) || decide (symAlg = .chacha20Poly1305)) = true := by
      simpa using h₄
    simp [h₁, h₂, hempty h₂, h₄', Nat.not_le.mpr h₃]

/-- The two suites of the key manager, as the native layer names them. -/
theorem isAead_getCipherSuite {symAlg : CryptoSymAlg}
    (h : symAlg = .aes256Gcm ∨ symAlg = .chacha20Poly1305) : (getCipherSuite symAlg).IsAead := by
  rcases h with rfl | rfl
  · exact .inr (.inl rfl)
  · exact .inr (.inr rfl)

theorem toNat_toUInt8_and (n : Nat) : (n &&& 0xff).toUInt8.toNat = n % 256 := by
  rw [show (0xff : Nat) = 2 ^ 8 - 1 from rfl, Nat.and_two_pow_sub_one_eq_mod]
  simp

/-- Two bytes, big end first, give back a number of sixteen bits. -/
theorem bigEndian_eq {n : Nat} (hn : n < 65536) :
    (n >>> 8 &&& 0xff).toUInt8.toNat <<< 8 ||| (n &&& 0xff).toUInt8.toNat = n := by
  rw [toNat_toUInt8_and, toNat_toUInt8_and, Nat.shiftRight_eq_div_pow,
    ← Nat.shiftLeft_add_eq_or_of_lt (by omega : n % 256 < 2 ^ 8), Nat.shiftLeft_eq]
  omega

theorem readCipherHeader_constructCipherHeader {symAlg : CryptoSymAlg} {d k : Nat}
    (halg : symAlg.toNat < 256) (hd : d < 65536) (hk : k < 65536) {rest : Bytes} (hrest : rest ≠ []) :
    readCipherHeader (constructCipherHeader symAlg d k ++ rest) = some ⟨symAlg, d, k⟩ := by
  obtain ⟨b, bs, rfl⟩ := List.exists_cons_of_ne_nil hrest
  show some (CipherHeader.mk (.ofNat symAlg.toNat.toUInt8.toNat) _ _) = _
  rw [bigEndian_eq hd, bigEndian_eq hk]
  have hbyte : symAlg.toNat.toUInt8.toNat = symAlg.toNat := by
    rw [Nat.toUInt8, UInt8.toNat_ofNat']
    omega
  rw [hbyte, CryptoSymAlg.ofNat_toNat]

/-- No ciphertext of a permitted plaintext is too long for the way back. -/
theorem bas64DecodeCipherText_base64Encode {raw : Bytes} (hne : raw ≠ [])
    (hlen : raw.length ≤ plaintextMaxLength + cipherOffset + maxIndex) :
    bas64DecodeCipherText (base64Encode raw) = raw := by
  simp only [plaintextMaxLength, cipherOffset, maxIndex] at hlen
  have hpos : 0 < raw.length := List.length_pos_iff.mpr hne
  have hencoded : (base64Encode raw).length = 4 * ((raw.length + 2) / 3) :=
    base64Encode_length (by omega)
  unfold bas64DecodeCipherText
  rw [if_neg, base64Decode_base64Encode (by omega)]
  rw [not_or, ciphertextMaxLength]
  constructor
  · intro hnil
    rw [hnil, List.length_nil] at hencoded
    omega
  · omega

/-- What `Encrypt` has sealed under a key of the map, `Decrypt` accepts. -/
theorem accepts_sealed {m : OpenbaoKeyManager} {symAlg : CryptoSymAlg} {d k : Nat} {ct : Bytes}
    (hparams : m.checkEncryptAndDecryptParams d symAlg = .ok) (hholds : m.domainKeyMap.Holds d k)
    (hk : k ≤ 65535) (hct : ct ≠ []) (hlen : ct.length ≤ plaintextMaxLength + cipherOffset) :
    bas64DecodeCipherText (base64Encode (constructCipherHeader symAlg d k ++ ct)) =
        constructCipherHeader symAlg d k ++ ct ∧
      Accepts m symAlg d (base64Encode (constructCipherHeader symAlg d k ++ ct))
        ⟨symAlg, d, k⟩ := by
  obtain ⟨-, -, hcount, halg⟩ := checkEncryptAndDecryptParams_eq_ok.mp hparams
  have hd : d < 65536 := by
    have := m.domainCount.2.2
    simp only [domainIdMax] at this
    omega
  have hraw : bas64DecodeCipherText (base64Encode (constructCipherHeader symAlg d k ++ ct)) =
      constructCipherHeader symAlg d k ++ ct := by
    refine bas64DecodeCipherText_base64Encode (by simp [constructCipherHeader]) ?_
    rw [List.length_append]
    show 6 + ct.length ≤ plaintextMaxLength + cipherOffset + 6
    omega
  refine ⟨hraw, hparams, ?_, rfl, rfl, hholds⟩
  rw [hraw]
  refine readCipherHeader_constructCipherHeader ?_ hd (by omega) hct
  rcases halg with rfl | rfl <;> decide

/-! ## The round trip -/

/-- Where an event is an export, it gives this key. -/
def ExportsKey (H : KmHost) (key : Bytes) : KmEvent → Prop
  | ⟨.run _ _ (.exportKey _ _), reply⟩ => exportedKey H (commandResult reply) = .ok key
  | _ => True

/-- Where an event is a native operation, none of its calls fails on its own. -/
def NativeDecrypts : KmEvent → Prop
  | ⟨.crypt, w⟩ => w.Decrypts
  | _ => True

/-- A sealed answer that is a ciphertext comes from a native encryption under a key. -/
theorem sealedAnswer_ok {H : KmHost} {w : OpensslWorld} {symAlg : CryptoSymAlg} {d k : Nat}
    {plaintext key c : Bytes} (h : sealedAnswer H w symAlg d k plaintext key = (.ok, c)) :
    ∃ ct, nativeEncrypt H.ciphers w symAlg plaintext key = (.ok, ct) ∧
      c = base64Encode (constructCipherHeader symAlg d k ++ ct) := by
  unfold sealedAnswer at h
  dsimp only at h
  split at h
  · cases h
  next hrc =>
    refine ⟨(nativeEncrypt H.ciphers w symAlg plaintext key).2, ?_, (Prod.mk.inj h).2.symm⟩
    exact Prod.ext (not_not.mp hrc) rfl

/-- **Opening a sealed text.** `Decrypt`, in any manager that holds the key, of what
`sealedAnswer` gave. -/
theorem openedAnswer_sealed {H : KmHost} {w w' : OpensslWorld} {symAlg : CryptoSymAlg} {d k : Nat}
    {plaintext key ct : Bytes} (halg : symAlg = .aes256Gcm ∨ symAlg = .chacha20Poly1305)
    (hC : H.ciphers.Correct (getCipherSuite symAlg)) (hw' : w'.Decrypts)
    (hct : nativeEncrypt H.ciphers w symAlg plaintext key = (.ok, ct))
    (hraw : bas64DecodeCipherText (base64Encode (constructCipherHeader symAlg d k ++ ct)) =
      constructCipherHeader symAlg d k ++ ct) :
    openedAnswer H w' symAlg (base64Encode (constructCipherHeader symAlg d k ++ ct)) key =
      (.ok, plaintext) := by
  have hsuite := isAead_getCipherSuite halg
  have hdrop : (constructCipherHeader symAlg d k ++ ct).drop maxIndex = ct := rfl
  unfold openedAnswer
  rw [hraw, hdrop, nativeDecrypt_nativeEncrypt hsuite hC hw' hct]
  exact if_neg (not_or.mpr ⟨not_not.mpr rfl, (nativeEncrypt_ok hsuite.spec.1 hC hct).1⟩)

/-- The ciphertext part is not empty and not too long. -/
theorem nativeEncrypt_length {C : Ciphers} {w : OpensslWorld} {alg : CryptoSymAlg}
    {plaintext key ct : Bytes} (hsuite : (getCipherSuite alg).IsAead)
    (hC : C.Correct (getCipherSuite alg)) (h : nativeEncrypt C w alg plaintext key = (.ok, ct)) :
    ct ≠ [] ∧ ct.length ≤ plaintextMaxLength + cipherOffset := by
  obtain ⟨-, hmax, -, -, rfl⟩ := nativeEncrypt_ok hsuite.spec.1 hC h
  have hlen := sealed_length hC w (uint32Prefix key) plaintext
  constructor
  · refine List.ne_nil_of_length_pos ?_
    rw [hlen, cipherOffset]
    omega
  · omega

/-- Under a vault that exports one key, an encryption that succeeds took the direct way. -/
theorem encrypt_direct {H : KmHost} {m m' : OpenbaoKeyManager} {symAlg : CryptoSymAlg} {d : Nat}
    {plaintext key c : Bytes} {tr : List KmEvent} (hholds : ∃ k, m.domainKeyMap.Holds d k)
    (hkey : key ≠ [])
    (h : EncryptTrace H m symAlg d plaintext tr (.ret ((.ok, c), m')))
    (hexports : ∀ ev ∈ tr, ExportsKey H key ev) :
    m' = m ∧ m.checkEncryptAndDecryptParams d symAlg = .ok ∧ m.accessToken ≠ [] ∧
      ∃ k w, m.domainKeyMap.Holds d k ∧ sealedAnswer H w symAlg d k plaintext key = (.ok, c) := by
  generalize ho : (Outcome.ret ((KeyManagerRC.ok, c), m') : Outcome Fault _) = o at h
  cases h with
  | refused hrc _ =>
    obtain ⟨⟨rfl, -⟩, -⟩ := Prod.mk.inj (Outcome.ret.inj ho) |>.imp_left Prod.mk.inj
    exact absurd rfl hrc
  | faulted _ _ _ => cases ho
  | direct hparams htoken hmax hexport hne =>
    obtain ⟨hc, rfl⟩ := Prod.mk.inj (Outcome.ret.inj ho)
    -- the one export of the trace gave the vault's key
    have hsame := hexports _ (List.mem_cons_of_mem _ List.mem_cons_self)
    obtain rfl := Except.ok.inj (hexport.symm.trans hsame)
    have hmem := (checkEncryptAndDecryptParams_eq_ok.mp hparams).2.1
    refine ⟨?_, hparams, htoken, _, _, DomainKeyMap.holds_lastKey? hmax, hc.symm⟩
    rw [touched, DomainKeyMap.touch_of_mem hmem]
  | createFaulted _ _ _ _ => cases ho
  | createFailed _ _ _ _ => cases ho
  | secondFaulted _ _ _ _ _ => cases ho
  | recreated hparams htext hfirst hcreate hsecond =>
    obtain ⟨hc, -⟩ := Prod.mk.inj (Outcome.ret.inj ho)
    cases hfirst with
    | refused hrefused =>
      obtain ⟨hinited, hmem, hcount, -⟩ := checkEncryptAndDecryptParams_eq_ok.mp hparams
      rcases hrefused with hvalid | hempty
      · refine absurd ?_ hvalid
        unfold validateDomain
        rw [if_neg (by simp [hinited]), if_neg (by omega)]
      · rw [Std.ExtTreeMap.isEmpty_iff.mp hempty] at hmem
        simp at hmem
    | noKey hmax =>
      obtain ⟨k, hk⟩ := hholds
      rw [lastKey?_eq_none] at hmax
      rw [DomainKeyMap.Holds, hmax] at hk
      simp at hk
    | noToken htoken =>
      -- without a token the second look finds no key either
      have htoken₂ := hcreate.accessToken.trans htoken
      obtain ⟨ct, hct, -⟩ := sealedAnswer_ok hc.symm
      have hne := nativeEncrypt_key_ne_nil hct
      cases hsecond with
      | exported hsome _ _ => exact absurd htoken₂ hsome
      | _ => exact absurd rfl hne
    | exported _ _ hexport =>
      have hsame := hexports _ (List.mem_cons_of_mem _ List.mem_cons_self)
      exact absurd (Except.ok.inj (hsame.symm.trans hexport)) hkey

/-- What `Decrypt` accepts has a header of version 1, and a body. -/
theorem Accepts.header {m : OpenbaoKeyManager} {symAlg : CryptoSymAlg} {d : Nat} {c : Bytes}
    {header : CipherHeader} (haccepts : Accepts m symAlg d c header) :
    ∃ a d₁ d₀ k₁ k₀ rest, base64Decode c = 1 :: a :: d₁ :: d₀ :: k₁ :: k₀ :: rest ∧ rest ≠ [] ∧
      .ofNat a.toNat = symAlg ∧ d₁.toNat <<< 8 ||| d₀.toNat = d ∧
      m.domainKeyMap.Holds d (k₁.toNat <<< 8 ||| k₀.toNat) := by
  have hparsed := haccepts.parsed
  unfold bas64DecodeCipherText at hparsed
  split at hparsed
  · cases hparsed
  unfold readCipherHeader at hparsed
  split at hparsed
  next version a d₁ d₀ k₁ k₀ b bs hraw =>
    split at hparsed
    · cases hparsed
    next hversion =>
    obtain rfl := Option.some.inj hparsed
    obtain rfl : version = 1 := not_not.mp hversion
    exact ⟨a, d₁, d₀, k₁, k₀, b :: bs, hraw, by simp, haccepts.symAlg, haccepts.domainId,
      haccepts.holds⟩
  · cases hparsed

/-- **Round trip and acceptance.** While the vault exports one 32-byte key, what `Encrypt`
returns, `Decrypt` opens in the same state, whatever the plaintext; and `Decrypt` succeeds on no
text but one with a header of version 1 for its own algorithm and domain and a key id that the
manager holds. -/
theorem decrypt_of_encrypt (H : KmHost) (m : OpenbaoKeyManager) (symAlg : CryptoSymAlg) (d : Nat) :
    (∀ (key plaintext c : Bytes) (tr : List KmEvent) (m' : OpenbaoKeyManager),
      H.ciphers.Correct (getCipherSuite symAlg) → key.length = 32 →
      (∃ k, m.domainKeyMap.Holds d k) → (∀ k, m.domainKeyMap.Holds d k → k ≤ 65535) →
      Traces (m.encrypt H symAlg d plaintext) tr (.ret ((.ok, c), m')) →
      (∀ ev ∈ tr, ExportsKey H key ev) →
      m' = m ∧ ∀ tr' o, Traces (m.decrypt H symAlg d c) tr' o →
        (∀ ev ∈ tr', ExportsKey H key ev ∧ NativeDecrypts ev) → o = .ret (.ok, plaintext)) ∧
    ∀ (c vec : Bytes) (tr : List KmEvent), Traces (m.decrypt H symAlg d c) tr (.ret (.ok, vec)) →
      ∃ a d₁ d₀ k₁ k₀ rest, base64Decode c = 1 :: a :: d₁ :: d₀ :: k₁ :: k₀ :: rest ∧ rest ≠ [] ∧
        .ofNat a.toNat = symAlg ∧ d₁.toNat <<< 8 ||| d₀.toNat = d ∧
        m.domainKeyMap.Holds d (k₁.toNat <<< 8 ||| k₀.toNat) := by
  constructor
  · intro key plaintext c tr m' hC hkey hholds hids henc hexports
    have hne : key ≠ [] := by
      intro heq
      subst heq
      cases hkey
    have htrace := wp_iff.mp (encrypt_traces H m symAlg d plaintext) _ _ henc
    obtain ⟨hsame, hparams, htoken, k, w, hk, hsealed⟩ := encrypt_direct hholds hne htrace hexports
    refine ⟨hsame, fun tr' o hdec hreplies => ?_⟩
    obtain ⟨ct, hct, rfl⟩ := sealedAnswer_ok hsealed
    have halg := (checkEncryptAndDecryptParams_eq_ok.mp hparams).2.2.2
    obtain ⟨hct₀, hct₁⟩ := nativeEncrypt_length (isAead_getCipherSuite halg) hC hct
    obtain ⟨hraw, haccepts⟩ := accepts_sealed hparams hk (hids k hk) hct₀ hct₁
    cases wp_iff.mp (decrypt_traces H m symAlg d _) _ _ hdec with
    | refused _ hnot => exact absurd haccepts (hnot _)
    | noToken hnone => exact absurd hnone htoken
    | faulted hfault =>
      have hgives := (hreplies _ (List.mem_cons_of_mem _ List.mem_cons_self)).1
      cases hfault.symm.trans hgives
    | noKey _ hnone =>
      have hgives := (hreplies _ (List.mem_cons_of_mem _ List.mem_cons_self)).1
      exact absurd (Except.ok.inj (hgives.symm.trans hnone)) hne
    | opened _ hgiven _ =>
      have hgives := (hreplies _ (List.mem_cons_of_mem _ List.mem_cons_self)).1
      obtain rfl := Except.ok.inj (hgiven.symm.trans hgives)
      have hw' := (hreplies _ (List.mem_cons_of_mem _ (List.mem_cons_of_mem _ List.mem_cons_self))).2
      rw [openedAnswer_sealed halg hC hw' hct hraw]
  · intro c vec tr hdec
    generalize ho : (Outcome.ret (KeyManagerRC.ok, vec) : Outcome Fault _) = o at hdec
    cases wp_iff.mp (decrypt_traces H m symAlg d c) _ _ hdec with
    | refused hrc _ =>
      obtain ⟨rfl, -⟩ := Prod.mk.inj (Outcome.ret.inj ho)
      exact absurd rfl hrc
    | noToken _ => cases ho
    | faulted _ => cases ho
    | noKey _ _ => cases ho
    | opened haccepts _ _ => exact haccepts.header

/-! ## A vault with one key -/

/-- The reply to a `read` and the reply to an `export`, under the last version, and a listing. -/
def sampleParse (text : Bytes) : Option JsonValue :=
  let reply (value : JsonValue) : JsonValue :=
    .object [(ascii "data", .object [(ascii "keys", .object [(ascii "1", value)])])]
  if text = ascii "time" then some (reply (.int 1700000000))
  else if text = ascii "key" then some (reply (.string (base64Encode (List.replicate 32 7))))
  else if text = ascii "names" then some (.array [.string (keyName 0 0)])
  else none

/-- Ciphers that leave the text as it is. -/
def sampleCiphers : Ciphers where
  ivLength suite := suite.ivLength
  keyLength suite := suite.algLen / 8
  encrypt _ _ _ _ plainText := plainText
  tag _ _ _ _ _ := List.replicate tagLength 0
  decrypt _ _ _ _ cipherData := cipherData
  verify _ _ _ _ _ _ := true

theorem sampleCiphers_correct (suite : CcsecCipherSuite) : sampleCiphers.Correct suite :=
  ⟨fun _ _ _ _ => rfl, fun _ _ _ _ => List.length_replicate, fun _ _ _ _ => rfl,
    fun _ _ _ _ => rfl⟩

def sampleHost : KmHost where
  json := { parse := sampleParse, write := fun _ => [] }
  ciphers := sampleCiphers

/-- Domain 0 with the key 3. -/
def sampleManager : OpenbaoKeyManager where
  inited := true
  domainKeyMap := DomainKeyMap.addKey ∅ 0 3 1700000000
  accessToken := ascii "token"
  exePath := ascii "/bao"

/-- Every call of OpenSSL succeeds. -/
def sampleWorld : OpensslWorld where
  memory _ := 0
  randIv := 0
  ivBytes _ := 1
  randAad := 0
  aadBytes _ := 2
  ctxNew := true
  fetchCipher := true
  init := 1
  setIvLength := 1
  setTagLength := 1
  initKey := 1
  setLength := 1
  aadUpdate := 1
  aadOutLength := 16
  update := 1
  final := 1
  ctrlTag := 1
  tagLength := 16

/-- A vault on which every command succeeds. -/
def sampleAnswer : (c : Call) → c.Reply
  | .acquire _ => ()
  | .release _ => ()
  | .run _ _ (.read _ _) => (0, ascii "time")
  | .run _ _ (.exportKey _ _) => (0, ascii "key")
  | .run _ _ _ => (0, [])
  | .time => 1800000000
  | .canonicalPath path => some path
  | .crypt => sampleWorld

/-- The same vault, with a listing of its keys. -/
def listedAnswer (listing : Bytes) : (c : Call) → c.Reply
  | .run _ _ .list => (0, listing)
  | c => sampleAnswer c

/-- A vault without keys. -/
def emptyAnswer : (c : Call) → c.Reply := listedAnswer (ascii "{}\n")

/-- The bytes of an answer that is OK. -/
def okBytes {α : Type} : Outcome Fault ((KeyManagerRC × Bytes) × α) → Option (Bytes × α)
  | .ret ((.ok, c), a) => some (c, a)
  | _ => none

theorem okBytes_eq_some {α : Type} {o : Outcome Fault ((KeyManagerRC × Bytes) × α)} {c : Bytes}
    {a : α} (h : okBytes o = some (c, a)) : o = .ret ((.ok, c), a) := by
  unfold okBytes at h
  split at h
  · obtain ⟨rfl, rfl⟩ := Prod.mk.inj (Option.some.inj h)
    rfl
  · cases h

theorem sampleAnswer_exportsKey (c : Call) :
    ExportsKey sampleHost (List.replicate 32 7) ⟨c, sampleAnswer c⟩ := by
  have hkey : exportedKey sampleHost (commandResult (0, ascii "key")) =
      .ok (List.replicate 32 7) := by decide +kernel
  unfold ExportsKey
  split
  next heq =>
    obtain ⟨rfl, heq⟩ := Sigma.mk.inj heq
    rw [← eq_of_heq heq]
    exact hkey
  next => trivial

/-- The sample seals a text. -/
theorem sample_encrypts : ∃ c m',
    Traces (sampleManager.encrypt sampleHost .aes256Gcm 0 (ascii "secret"))
      ((sampleManager.encrypt sampleHost .aes256Gcm 0 (ascii "secret")).runWith sampleAnswer).1
      (.ret ((.ok, c), m')) := by
  have hrun := traces_runWith sampleAnswer
    (sampleManager.encrypt sampleHost .aes256Gcm 0 (ascii "secret"))
  generalize htr : ((sampleManager.encrypt sampleHost .aes256Gcm 0 (ascii "secret")).runWith
    sampleAnswer) = t at hrun ⊢
  have hsome : (okBytes t.2).isSome = true := by
    rw [← htr]
    decide +kernel
  obtain ⟨⟨c, m'⟩, hok⟩ := Option.isSome_iff_exists.mp hsome
  rw [okBytes_eq_some hok] at hrun
  exact ⟨c, m', hrun⟩

theorem sampleManager_holds {d k : Nat} :
    sampleManager.domainKeyMap.Holds d k ↔ 0 = d ∧ 3 = k := by
  refine DomainKeyMap.holds_addKey.trans (or_iff_left ?_)
  simp [DomainKeyMap.Holds, DomainKeyMap.at']

theorem decrypt_of_encrypt_sample : ∃ c m' tr,
    Traces (sampleManager.encrypt sampleHost .aes256Gcm 0 (ascii "secret")) tr (.ret ((.ok, c), m')) ∧
      ∀ tr' o, Traces (sampleManager.decrypt sampleHost .aes256Gcm 0 c) tr' o →
        (∀ ev ∈ tr', ExportsKey sampleHost (List.replicate 32 7) ev ∧ NativeDecrypts ev) →
        o = .ret (.ok, ascii "secret") := by
  obtain ⟨c, m', hrun⟩ := sample_encrypts
  refine ⟨c, m', _, hrun, ?_⟩
  refine ((decrypt_of_encrypt sampleHost sampleManager .aes256Gcm 0).1 (List.replicate 32 7)
    (ascii "secret") c _ m' (sampleCiphers_correct _) List.length_replicate ?_ ?_ hrun ?_).2
  · exact ⟨3, sampleManager_holds.mpr ⟨rfl, rfl⟩⟩
  · intro k hk
    obtain ⟨-, rfl⟩ := sampleManager_holds.mp hk
    decide
  · intro ev hev
    rw [mem_runWith hev]
    exact sampleAnswer_exportsKey ev.1

end CdfCrypto.KeyManagement
