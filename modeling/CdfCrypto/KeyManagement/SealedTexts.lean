import CdfCrypto.Cryption.Coverage
import CdfCrypto.KeyManagement.KeyChoice
import CdfCrypto.Utils.Base64Strict

/-!
# Texts that stay sealed

A ciphertext is the header of its key and what the native layer made of a plaintext under the
material of that key. `SealedIn` says this of a store that still gives the material out, so it
speaks of no manager: any number of managers may come and go, and while nobody deletes the key, the
text stays sealed (`SealedIn.of_run`). Whoever has it decrypted with success gets the plaintext
(`SealedIn.opens`).

`shape_of_encrypt` is what a ciphertext looks like: its length follows from that of the plaintext,
and it has no character that ends a line. So it can be typed.
-/

namespace CdfCrypto.KeyManagement

open Lib OpenbaoKeyManager

variable {H : KmHost} {J : RapidJson} {store store' : TransitStore} {d k : Nat}
variable {c p material : Bytes} {tr evs : List KmEvent}

/-! ## The key -/

/-- The store gives this out for the key. -/
def Provides (store : TransitStore) (d k : Nat) (material : Bytes) : Prop :=
  ∃ key, store.key? d k = some key ∧ key.exportable = true ∧ key.exported = material

theorem Provides.of_run (h : Provides store d k material) (hrun : Run (TransitStep J) store tr store')
    (hnot : ∀ ev ∈ tr, ¬ Deletes d k ev) : Provides store' d k material := by
  obtain ⟨key, hkey, hexportable, rfl⟩ := h
  obtain ⟨key', hkey', hgrows⟩ := grows_of_run hrun hkey hnot
  exact ⟨key', hkey', hgrows.exportable hexportable, hgrows.exported⟩

theorem Provides.unique {material' : Bytes} (h : Provides store d k material)
    (h' : Provides store d k material') : material' = material := by
  obtain ⟨key, hkey, -, rfl⟩ := h
  obtain ⟨key', hkey', -, rfl⟩ := h'
  obtain rfl := Option.some.inj (hkey.symm.trans hkey')
  rfl

/-- The key and what was given out for it, where an export has succeeded. -/
theorem provides_of_export {exePath token key : Bytes} {reply : Int × Bytes}
    (hstep : TransitStep H.json store ⟨.run exePath token (.exportKey d k), reply⟩ store')
    (hkey : exportedKey H (commandResult reply) = .ok key) (hne : key ≠ []) :
    Provides store d k key := by
  have hs : Succeeded reply := by
    by_contra hfailed
    exact hne (Except.ok.inj (hkey.symm.trans (exportedKey_of_not_succeeded hfailed)))
  obtain ⟨stored, hstored, hexportable, hexported⟩ := TransitStep.exported hstep hs
  exact ⟨stored, hstored, hexportable, Except.ok.inj (hexported.symm.trans hkey)⟩

/-! ## The text -/

/-- `c` is `p`, sealed under the key `k` of the domain `d`, and the store has that key. -/
structure SealedIn (H : KmHost) (store : TransitStore) (d k : Nat) (c p : Bytes) : Prop where
  domain : d < 65536
  id : k < 65536
  sealed : ∃ symAlg w material, Provides store d k material ∧
    (symAlg = .aes256Gcm ∨ symAlg = .chacha20Poly1305) ∧
    sealedAnswer H w symAlg d k p material = (.ok, c)

/-- **It stays sealed**, whatever happens to the store, while the key is there. -/
theorem SealedIn.of_run (h : SealedIn H store d k c p) (hrun : Run (TransitStep J) store tr store')
    (hnot : ∀ ev ∈ tr, ¬ Deletes d k ev) : SealedIn H store' d k c p := by
  obtain ⟨symAlg, w, material, hprovides, halg, hsealed⟩ := h.sealed
  exact ⟨h.domain, h.id, symAlg, w, material, hprovides.of_run hrun hnot, halg, hsealed⟩

/-- What a sealed text is made of. -/
theorem SealedIn.parts (hC : ∀ symAlg, H.ciphers.Correct (getCipherSuite symAlg))
    (h : SealedIn H store d k c p) :
    ∃ symAlg w material ct, Provides store d k material ∧
      (symAlg = .aes256Gcm ∨ symAlg = .chacha20Poly1305) ∧
      nativeEncrypt H.ciphers w symAlg p material = (.ok, ct) ∧
      ct.length = p.length + cipherOffset ∧ p.length < plaintextMaxLength ∧
      c = base64Encode (constructCipherHeader symAlg d k ++ ct) := by
  obtain ⟨symAlg, w, material, hprovides, halg, hsealed⟩ := h.sealed
  obtain ⟨ct, hct, rfl⟩ := sealedAnswer_ok hsealed
  have hspec := (isAead_getCipherSuite halg).spec.1
  obtain ⟨-, hmax, -, -, rfl⟩ := nativeEncrypt_ok hspec (hC symAlg) hct
  exact ⟨symAlg, w, material, _, hprovides, halg, hct, sealed_length (hC symAlg) w _ p, hmax, rfl⟩

/-- A sealed text, read back. -/
theorem SealedIn.read (hC : ∀ symAlg, H.ciphers.Correct (getCipherSuite symAlg))
    (h : SealedIn H store d k c p) :
    ∃ symAlg w material ct, Provides store d k material ∧
      (symAlg = .aes256Gcm ∨ symAlg = .chacha20Poly1305) ∧
      nativeEncrypt H.ciphers w symAlg p material = (.ok, ct) ∧
      (bas64DecodeCipherText c).drop maxIndex = ct ∧
      readCipherHeader (bas64DecodeCipherText c) = some ⟨symAlg, d, k⟩ := by
  obtain ⟨symAlg, w, material, ct, hprovides, halg, hct, hlen, hmax, rfl⟩ := h.parts hC
  have hraw : (constructCipherHeader symAlg d k ++ ct).length ≤
      plaintextMaxLength + cipherOffset + maxIndex := by
    rw [List.length_append]
    show 6 + ct.length ≤ plaintextMaxLength + cipherOffset + 6
    omega
  refine ⟨symAlg, w, material, ct, hprovides, halg, hct, ?_⟩
  rw [bas64DecodeCipherText_base64Encode (by simp [constructCipherHeader]) hraw]
  refine ⟨rfl, readCipherHeader_constructCipherHeader ?_ h.domain h.id ?_⟩
  · rcases halg with rfl | rfl <;> decide
  · refine List.ne_nil_of_length_pos ?_
    rw [hlen, cipherOffset]
    omega

/-- The ciphertext names the key. -/
def Names (c : Bytes) (d k : Nat) : Prop :=
  ∃ symAlg, readCipherHeader (bas64DecodeCipherText c) = some ⟨symAlg, d, k⟩

theorem SealedIn.names (hC : ∀ symAlg, H.ciphers.Correct (getCipherSuite symAlg))
    (h : SealedIn H store d k c p) : Names c d k := by
  obtain ⟨symAlg, -, -, -, -, -, -, -, hheader⟩ := h.read hC
  exact ⟨symAlg, hheader⟩

/-! ## Opening it -/

/-- A native decryption that succeeds on what an encryption returned gives the plaintext back,
whatever else failed. -/
theorem nativeDecrypt_eq_of_ok {C : Ciphers} {w w' : OpensslWorld} {alg : CryptoSymAlg}
    {plaintext key ct vec : Bytes} (hsuite : (getCipherSuite alg).IsAead)
    (hC : C.Correct (getCipherSuite alg)) (h : nativeEncrypt C w alg plaintext key = (.ok, ct))
    (h' : nativeDecrypt C w' alg ct key = (.ok, vec)) : vec = plaintext := by
  obtain ⟨-, -, -, -, rfl⟩ := nativeEncrypt_ok hsuite.spec.1 hC h
  obtain ⟨-, -, written, hwritten, rfl⟩ := nativeDecrypt_inv h'
  obtain ⟨-, rfl⟩ := opensslDecrypt_verified hsuite.spec.1 hwritten
  have hf := sealed_wide (w := w) hC (uint32Prefix key) plaintext
  have hiv : slice (sealed C w (getCipherSuite alg) (uint32Prefix key) plaintext).bytes 0 12 = _ :=
    hf.slice_iv
  have haad : slice (sealed C w (getCipherSuite alg) (uint32Prefix key) plaintext).bytes 12 16 = _ :=
    hf.slice_aad
  have hdata : (sealed C w (getCipherSuite alg) (uint32Prefix key) plaintext).bytes.drop 44 = _ :=
    hf.drop_cipherData
  have hopen : C.decrypt (getCipherSuite alg) (uint32Prefix key)
      (sealed C w (getCipherSuite alg) (uint32Prefix key) plaintext).iv
      (sealed C w (getCipherSuite alg) (uint32Prefix key) plaintext).aad
      (sealed C w (getCipherSuite alg) (uint32Prefix key) plaintext).cipherData = plaintext :=
    hC.decrypt_encrypt _ _ _ _
  rw [hiv, haad, hdata, hopen, sealed_length hC, Nat.add_sub_cancel, writeAt, List.take_zero,
    List.nil_append, List.take_left]

/-- **Only the plaintext.** Whoever decrypts a sealed text with success gets what was sealed, and
has asked for it in its own domain. The decryption may be one among other events, before or after
the text was sealed, as long as none deletes the key. -/
theorem SealedIn.opens (hC : ∀ symAlg, H.ciphers.Correct (getCipherSuite symAlg))
    (h : SealedIn H store' d k c p) (hrun : Run (TransitStep H.json) store evs store')
    (hnot : ∀ ev ∈ evs, ¬ Deletes d k ev) {m : OpenbaoKeyManager} {symAlg : CryptoSymAlg} {d' : Nat}
    {vec : Bytes} (hdec : Traces (m.decrypt H symAlg d' c) tr (.ret (.ok, vec)))
    (hmem : ∀ ev ∈ tr, ev ∈ evs) : vec = p ∧ d' = d := by
  obtain ⟨symAlg', w, material, ct, hprovides, halg, hct, hdrop, hheader⟩ := h.read hC
  generalize ho : (Outcome.ret (KeyManagerRC.ok, vec) : Outcome Fault _) = o at hdec
  cases wp_iff.mp (decrypt_traces H m symAlg d' c) _ _ hdec with
  | refused hrc _ =>
    obtain ⟨rfl, -⟩ := Prod.mk.inj (Outcome.ret.inj ho)
    exact absurd rfl hrc
  | noToken _ => cases ho
  | faulted _ => cases ho
  | noKey _ _ => cases ho
  | @opened header reply key w' haccepts hkey hne =>
    obtain rfl := Option.some.inj (haccepts.parsed.symm.trans hheader)
    obtain rfl := haccepts.symAlg
    obtain rfl := haccepts.domainId
    have hopened := openedAnswer_ok (Outcome.ret.inj ho).symm
    rw [hdrop] at hopened
    -- the key given out then is the one that is there in the end
    have hexport := hmem (ran m (.exportKey d k) reply) (by simp)
    obtain ⟨pre, post, u, v, rfl, -, hstep, hpost⟩ := hrun.of_mem hexport
    have hgiven := (provides_of_export hstep hkey hne).of_run (.cons hstep hpost) fun ev hev =>
      hnot ev (List.mem_append_right _ hev)
    obtain rfl := hprovides.unique hgiven
    exact ⟨nativeDecrypt_eq_of_ok (isAead_getCipherSuite halg) (hC _) hct hopened, rfl⟩

/-! ## Sealing it -/

/-- Every key has an id of sixteen bits, as the header has them. -/
def SmallIds (store : TransitStore) : Prop := ∀ d k key, store.key? d k = some key → k < 65536

/-- No key with a larger id is made. -/
def CreatesSmall : Call → Prop
  | .run _ _ (.create _ k) => k < 65536
  | _ => True

theorem SmallIds.step {ev : KmEvent} (h : SmallIds store) (hev : CreatesSmall ev.1)
    (hstep : TransitStep J store ev store') : SmallIds store' := by
  intro d k key hkey
  cases hstep.change with
  | same _ => exact h d k key hkey
  | @created _ _ d' k' _ version =>
    rw [key?_insertIfNew] at hkey
    split at hkey
    next heq =>
      obtain ⟨⟨-, rfl⟩, -⟩ := heq
      exact hev
    · exact h d k key hkey
  | @configured _ _ d' k' _ _ old hold =>
    rw [key?_insert] at hkey
    split at hkey
    next heq =>
      obtain ⟨rfl, rfl⟩ := heq
      exact h d' k' old hold
    · exact h d k key hkey
  | deleted _ =>
    rw [key?_erase] at hkey
    split at hkey
    · cases hkey
    · exact h d k key hkey

/-- **An encryption that returns OK has sealed its plaintext**, by the time of its export, in a
store that others may use beside it. -/
theorem sealedIn_of_encrypt {m m' : OpenbaoKeyManager} {symAlg : CryptoSymAlg}
    (henc : Traces (m.encrypt H symAlg d p) tr (.ret ((.ok, c), m')))
    (hrun : Run (TransitStep H.json) store evs store') (hmem : ∀ ev ∈ tr, ev ∈ evs)
    (hsmall : SmallIds store) (hcreates : ∀ ev ∈ evs, CreatesSmall ev.1) :
    ∃ k u post, SealedIn H u d k c p ∧ Run (TransitStep H.json) u post store' ∧
      ∀ ev ∈ post, ev ∈ evs := by
  have htrace := wp_iff.mp (encrypt_traces H m symAlg d p) _ _ henc
  obtain ⟨pre, m₂, k, reply, key, w, rfl, hkey, hne, hsealed, -, hparams, -⟩ := htrace.ends
  obtain ⟨-, -, hdomain, halg⟩ := checkEncryptAndDecryptParams_eq_ok.mp hparams
  have hexport := hmem (ran m₂ (.exportKey d k) reply) (by simp)
  obtain ⟨before, post, u, v, rfl, hbefore, hstep, hpost⟩ := hrun.of_mem hexport
  have hprovides := provides_of_export hstep hkey hne
  have hsmall' : SmallIds u := by
    refine hbefore.labelled.invariant (I := SmallIds) (fun s ev s' h hl => ?_) hsmall
    exact h.step (hcreates ev (List.mem_append_left _ hl.1)) hl.2
  obtain ⟨stored, hstored, -, -⟩ := id hprovides
  refine ⟨k, u, ran m₂ (.exportKey d k) reply :: post, ⟨?_, hsmall' d k stored hstored, symAlg, w,
    key, hprovides, halg, hsealed⟩, .cons hstep hpost, fun ev hev => List.mem_append_right _ hev⟩
  have hcount := m.domainCount.2.2
  simp only [domainIdMax] at hcount
  omega

/-! ### Operations that only ask -/

/-- No command that changes a store. -/
def AsksOnly : Call → Prop
  | .run _ _ (.create _ _) => False
  | .run _ _ (.config _ _ _) => False
  | .run _ _ (.delete _ _) => False
  | _ => True

theorem calls_getLatestKey {A : Call → Prop} (m : OpenbaoKeyManager)
    (hexport : ∀ exePath token k, A (.run exePath token (.exportKey d k))) (id : Nat) :
    Calls A (m.getLatestKey H d id) := by
  unfold OpenbaoKeyManager.getLatestKey
  split
  · trivial
  split
  · trivial
  dsimp only
  split
  · trivial
  · refine (calls_runCommandAndGetResult _ _ _ (hexport _ _ _)).bind fun result => ?_
    exact (calls_ofExcept _).bind fun _ => trivial

theorem asksOnly_vaultDecrypt (H : KmHost) (m : OpenbaoKeyManager) (symAlg : CryptoSymAlg)
    (d k : Nat) (text : Bytes) : Calls AsksOnly (m.vaultDecrypt H symAlg d k text) := by
  refine (calls_runCommandAndGetResult _ _ _ trivial).bind fun result => ?_
  refine (calls_ofExcept _).bind fun key => ?_
  split
  · trivial
  · exact (calls_perform trivial).bind fun _ => trivial

theorem asksOnly_decrypt (H : KmHost) (m : OpenbaoKeyManager) (symAlg : CryptoSymAlg) (d : Nat)
    (c : Bytes) : Calls AsksOnly (m.decrypt H symAlg d c) := by
  refine calls_locked trivial trivial ?_
  split
  · trivial
  dsimp only
  split
  · trivial
  generalize m.parseCipherHeader (bas64DecodeCipherText c) = parsed
  obtain ⟨rc, header⟩ := parsed
  cases header with
  | none => trivial
  | some header =>
    dsimp only
    split
    · trivial
    split
    · trivial
    split
    · trivial
    split
    · trivial
    refine (asksOnly_vaultDecrypt H m _ _ _ _).bind fun vec => ?_
    split <;> trivial

theorem asksOnly_displayKey (m : OpenbaoKeyManager) (d : Nat) :
    Calls AsksOnly (m.displayKey d) := by
  refine calls_locked trivial trivial ?_
  split
  · trivial
  split
  · trivial
  split
  · trivial
  · exact (calls_ofExcept _).bind fun _ => trivial

/-! ### The ids that are made -/

theorem AsksOnly.createsSmall : ∀ c : Call, AsksOnly c → CreatesSmall c
  | .run _ _ (.create _ _), h => h.elim
  | .run _ _ (.config _ _ _), _ => trivial
  | .run _ _ (.delete _ _), _ => trivial
  | .run _ _ .list, _ => trivial
  | .run _ _ (.read _ _), _ => trivial
  | .run _ _ (.exportKey _ _), _ => trivial
  | .acquire _, _ => trivial
  | .release _, _ => trivial
  | .time, _ => trivial
  | .canonicalPath _, _ => trivial
  | .crypt, _ => trivial

theorem createsSmall_removeKey (m : OpenbaoKeyManager) (d k : Nat) :
    Calls CreatesSmall (m.removeKey d k) := by
  refine calls_locked trivial trivial ?_
  split
  · trivial
  split
  · trivial
  split
  · trivial
  split
  · trivial
  split
  · trivial
  split
  · trivial
  refine (calls_runCommandAndCheck _ _ _ trivial).bind fun ret => ?_
  split
  · trivial
  · trivial

theorem createsSmall_createKey (H : KmHost) (m : OpenbaoKeyManager) (d : Nat) :
    Calls CreatesSmall (m.createKey H d) := by
  refine calls_locked trivial trivial ?_
  split
  · trivial
  dsimp only
  split
  · trivial
  next hid =>
  have hle := (generateKeyId_spec (not_not.mp hid)).2
  refine (calls_runCommandAndCheck _ _ _ (Nat.lt_succ_of_le hle)).bind fun ret => ?_
  split
  · trivial
  refine (calls_runCommandAndCheck _ _ _ trivial).bind fun ret => ?_
  split
  · trivial
  refine (calls_runCommandAndGetResult _ _ _ trivial).bind fun result => ?_
  split
  · trivial
  refine (calls_ofExcept _).bind fun time => ?_
  split
  · exact (createsSmall_removeKey _ _ _).bind fun _ => trivial
  · trivial

theorem createsSmall_sealText (H : KmHost) (m : OpenbaoKeyManager) (symAlg : CryptoSymAlg)
    (d k : Nat) (p key : Bytes) : Calls CreatesSmall (m.sealText H symAlg d k p key) := by
  refine ⟨trivial, fun w => ?_⟩
  show Calls _ (if _ then _ else _)
  split
  · trivial
  · trivial

theorem createsSmall_encrypt (H : KmHost) (m : OpenbaoKeyManager) (symAlg : CryptoSymAlg) (d : Nat)
    (p : Bytes) : Calls CreatesSmall (m.encrypt H symAlg d p) := by
  refine calls_locked trivial trivial ?_
  split
  · trivial
  split
  · trivial
  have hlatest : ∀ (m : OpenbaoKeyManager) (id : Nat), Calls CreatesSmall (m.getLatestKey H d id) :=
    fun m => calls_getLatestKey m fun _ _ _ => trivial
  refine (hlatest m 0).bind fun latest => ?_
  split
  · refine (createsSmall_createKey H latest.2 d).bind fun created => ?_
    split
    · trivial
    · refine (hlatest created.2 latest.1.2).bind fun latest => ?_
      exact createsSmall_sealText H _ _ _ _ _ _
  · exact createsSmall_sealText H _ _ _ _ _ _

/-! ## What it looks like -/

/-- A character that no encoding has. -/
def EndsLine (b : UInt8) : Prop := b = 10 ∨ b = 13 ∨ b = 0

instance (b : UInt8) : Decidable (EndsLine b) := by
  unfold EndsLine
  infer_instance

/-- The length of a ciphertext, and its characters. -/
theorem shape_of_encrypt {m m' : OpenbaoKeyManager} {symAlg : CryptoSymAlg}
    (hC : ∀ symAlg, H.ciphers.Correct (getCipherSuite symAlg))
    (henc : Traces (m.encrypt H symAlg d p) tr (.ret ((.ok, c), m'))) :
    p ≠ [] ∧ c.length = 4 * ((p.length + 52) / 3) ∧ ∀ b ∈ c, ¬ EndsLine b := by
  have htrace := wp_iff.mp (encrypt_traces H m symAlg d p) _ _ henc
  obtain ⟨pre, m₂, k, reply, key, w, -, -, -, hsealed, -, hparams, -⟩ := htrace.ends
  obtain ⟨ct, hct, rfl⟩ := sealedAnswer_ok hsealed
  have halg := (checkEncryptAndDecryptParams_eq_ok.mp hparams).2.2.2
  have hspec := (isAead_getCipherSuite halg).spec.1
  obtain ⟨hne, hmax, -, -, rfl⟩ := nativeEncrypt_ok hspec (hC symAlg) hct
  have hlen := sealed_length (hC symAlg) w (uint32Prefix key) p
  refine ⟨hne, ?_, fun b hb hends => ?_⟩
  · simp only [plaintextMaxLength, cipherOffset] at hmax hlen
    have hraw : (constructCipherHeader symAlg d k ++
        (sealed H.ciphers w (getCipherSuite symAlg) (uint32Prefix key) p).bytes).length =
        p.length + 50 := by
      rw [List.length_append, hlen, constructCipherHeader]
      simp only [List.length_cons, List.length_nil]
      omega
    rw [base64Encode_length (by omega), hraw]
  · rcases hends with rfl | rfl | rfl
    · exact not_mem_base64Encode (by decide) (by decide) _ hb
    · exact not_mem_base64Encode (by decide) (by decide) _ hb
    · exact not_mem_base64Encode (by decide) (by decide) _ hb

/-- What is decrypted of a text is that much shorter. -/
theorem length_of_decrypt {m : OpenbaoKeyManager} {symAlg : CryptoSymAlg} {vec : Bytes}
    (hdec : Traces (m.decrypt H symAlg d c) tr (.ret (.ok, vec))) :
    4 * (vec.length + 50) ≤ 3 * c.length := by
  generalize ho : (Outcome.ret (KeyManagerRC.ok, vec) : Outcome Fault _) = o at hdec
  cases wp_iff.mp (decrypt_traces H m symAlg d c) _ _ hdec with
  | refused hrc _ =>
    obtain ⟨rfl, -⟩ := Prod.mk.inj (Outcome.ret.inj ho)
    exact absurd rfl hrc
  | noToken _ => cases ho
  | faulted _ => cases ho
  | noKey _ _ => cases ho
  | @opened header reply key w haccepts hkey hne =>
    obtain ⟨hlong, -, written, -, hvec⟩ := nativeDecrypt_inv (openedAnswer_ok (Outcome.ret.inj ho).symm)
    have hle := List.length_take_le
      (((bas64DecodeCipherText c).drop maxIndex).length - cipherOffset) written
    rw [← hvec, List.length_drop] at hle
    rw [List.length_drop] at hlong
    simp only [cipherOffset, maxIndex] at hlong hle
    have hdecoded : 4 * (bas64DecodeCipherText c).length ≤ 3 * c.length := by
      unfold bas64DecodeCipherText
      split
      · exact Nat.zero_le _
      · have hgroups := decodeGroups_length (accepted (cursorBytes c))
        have haccepted := accepted_length_le (cursorBytes c)
        rw [cursorBytes_length] at haccepted
        rw [base64Decode, hgroups]
        omega
    omega

end CdfCrypto.KeyManagement
