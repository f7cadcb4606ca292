import CdfCrypto.KeyManagement.Durability
import CdfCrypto.KeyManagement.KeyIds

/-!
# Which key is used

`Encrypt` seals under the key with the largest id of its domain (`EncryptTrace.latest`), and a new
key has a larger id than all (`createKey_made`). So while no key of a domain is deleted, its ids
only move forward: no encryption goes back behind a key that has been used or made before
(`forward_of_run`), and a key made takes over at once.

A ciphertext leads to the key that sealed it and to no other. Whoever decrypts it, under any
algorithm and domain and with any manager, has the vault asked for that key alone, and gets a text
only as the native layer opens the sealed bytes (`decrypt_routed`).
-/

namespace CdfCrypto.KeyManagement

open Lib OpenbaoKeyManager

variable {H : KmHost} {m m' : OpenbaoKeyManager} {d k : Nat} {symAlg : CryptoSymAlg}
variable {plaintext c : Bytes} {tr : List KmEvent}

/-! ## The key of an encryption -/

/-- What an encryption that returns OK has used, in the manager that it leaves. -/
structure SealedUnder (H : KmHost) (d k : Nat) (symAlg : CryptoSymAlg) (plaintext c : Bytes)
    (tr : List KmEvent) (m' : OpenbaoKeyManager) : Prop where
  used : usedKey tr = some (d, k)
  latest : lastKey? (m'.domainKeyMap.at' d) = some k
  sealed : ∃ w key, sealedAnswer H w symAlg d k plaintext key = (.ok, c)

/-- **The latest key.** -/
theorem EncryptTrace.latest (h : EncryptTrace H m symAlg d plaintext tr (.ret ((.ok, c), m'))) :
    ∃ k, SealedUnder H d k symAlg plaintext c tr m' := by
  generalize ho : (Outcome.ret ((KeyManagerRC.ok, c), m') : Outcome Fault _) = o at h
  cases h with
  | refused hrc _ =>
    obtain ⟨⟨rfl, -⟩, -⟩ := Prod.mk.inj (Outcome.ret.inj ho) |>.imp_left Prod.mk.inj
    exact absurd rfl hrc
  | faulted _ _ _ => cases ho
  | @direct k reply key w _ _ hmax _ _ =>
    obtain ⟨hc, rfl⟩ := Prod.mk.inj (Outcome.ret.inj ho)
    refine ⟨k, usedKey_append [acquired .shared] d k reply w .shared, ?_, w, key, hc.symm⟩
    show lastKey? ((m.domainKeyMap.touch d).at' d) = some k
    rw [DomainKeyMap.at'_touch, hmax]
  | createFaulted _ _ _ _ => cases ho
  | createFailed _ _ _ _ => cases ho
  | secondFaulted _ _ _ _ _ => cases ho
  | @recreated id k rc m₁ m₂ m₃ tr₀ tr₁ tr₂ key w _ _ _ _ hsecond =>
    obtain ⟨hc, rfl⟩ := Prod.mk.inj (Outcome.ret.inj ho)
    obtain ⟨ct, hct, -⟩ := sealedAnswer_ok hc.symm
    -- nothing is sealed under no key, so the second look has found one
    have hne := nativeEncrypt_key_ne_nil hct
    cases hsecond with
    | @exported k reply key _ hmax _ =>
      refine ⟨k, ?_, ?_, w, key, hc.symm⟩
      · have hused := usedKey_append (m := m₂) (acquired .shared :: (tr₀ ++ tr₁)) d k reply w .shared
        simpa using hused
      · show lastKey? ((m₂.domainKeyMap.touch d).at' d) = some k
        rw [DomainKeyMap.at'_touch, hmax]
    | _ => exact absurd rfl hne

/-- The same of a call. -/
theorem sealedUnder_of_traces
    (htr : Traces (Op.prog H m (.encrypt symAlg d plaintext)) tr (.ret (.bytes .ok c, m'))) :
    ∃ k, SealedUnder H d k symAlg plaintext c tr m' := by
  have hprog : wp (Op.prog H m (.encrypt symAlg d plaintext)) fun tr o =>
      ∀ m', o = .ret (.bytes .ok c, m') → ∃ k, SealedUnder H d k symAlg plaintext c tr m' := by
    refine (wp_bind_ret fun _ => rfl).mpr (wp_mono (encrypt_traces H m symAlg d plaintext) ?_)
    intro tr o h m' ho
    cases o with
    | ret a =>
      obtain ⟨⟨rc, vec⟩, m₁⟩ := a
      obtain ⟨hanswer, rfl⟩ := Prod.mk.inj (Outcome.ret.inj ho)
      obtain ⟨rfl, rfl⟩ := Answer.bytes.inj hanswer
      exact h.latest
    | halt x => cases ho
  exact wp_iff.mp hprog _ _ htr m' rfl

/-- What a `CreateKey` that returns OK has made: a key in the map, with an id past all of its
domain. -/
theorem createKey_made
    (htr : Traces (Op.prog H m (.createKey d)) tr (.ret (.keyId .ok k, m'))) :
    m'.domainKeyMap.Holds d k ∧ ∀ k', m.domainKeyMap.Holds d k' → k' < k := by
  have hprog : wp (Op.prog H m (.createKey d)) fun _ o => ∀ m', o = .ret (.keyId .ok k, m') →
      m'.domainKeyMap.Holds d k ∧ ∀ k', m.domainKeyMap.Holds d k' → k' < k := by
    refine (wp_bind_ret fun _ => rfl).mpr (wp_mono (createKey_ends H m d) fun tr o h m' ho => ?_)
    cases h with
    | refused _ hrc _ =>
      obtain ⟨hanswer, -⟩ := Prod.mk.inj (Outcome.ret.inj ho)
      exact absurd (Answer.keyId.inj hanswer).1 hrc
    | failed _ hrc _ =>
      obtain ⟨hanswer, -⟩ := Prod.mk.inj (Outcome.ret.inj ho)
      exact absurd (Answer.keyId.inj hanswer).1 hrc
    | created _ hid _ =>
      obtain ⟨hanswer, rfl⟩ := Prod.mk.inj (Outcome.ret.inj ho)
      obtain ⟨-, rfl⟩ := Answer.keyId.inj hanswer
      exact ⟨DomainKeyMap.holds_addKey.mpr (.inl ⟨rfl, rfl⟩), generateKeyId_lt hid⟩
    | halted => cases ho
  exact wp_iff.mp hprog _ _ htr m' rfl

/-! ## Keys over a run -/

/-- The id of the key that a call has made in the domain. -/
def KmCall.made? (d : Nat) (call : KmCall) : Option Nat :=
  match call.op, call.answer with
  | .createKey d', some (.keyId .ok k) => if d' = d then some k else none
  | _, _ => none

/-- The id of the key that a call has sealed a text under. -/
def KmCall.sealed? (d : Nat) (call : KmCall) : Option Nat :=
  match call.op, call.answer with
  | .encrypt _ d' _, some (.bytes .ok _) => if d' = d then (usedKey call.tr).map Prod.snd else none
  | _, _ => none

/-- The call has brought the key up. -/
def KmCall.Brings (d k : Nat) (call : KmCall) : Prop :=
  call.made? d = some k ∨ call.sealed? d = some k

/-- The later call goes on from the earlier: it makes a key that is newer, and seals under none
that is older. -/
def Forward (d : Nat) (earlier later : KmCall) : Prop :=
  ∀ k k', earlier.Brings d k →
    (later.made? d = some k' → k < k') ∧ (later.sealed? d = some k' → k ≤ k')

theorem made?_eq_some {call : KmCall} (h : call.made? d = some k) :
    call.op = .createKey d ∧ call.answer = some (.keyId .ok k) := by
  unfold KmCall.made? at h
  split at h
  next hop hanswer =>
    split at h
    next heq =>
      obtain rfl := heq
      obtain rfl := Option.some.inj h
      exact ⟨hop, hanswer⟩
    · cases h
  · cases h

theorem sealed?_eq_some {call : KmCall} (h : call.sealed? d = some k) :
    ∃ symAlg plaintext c, call.op = .encrypt symAlg d plaintext ∧
      call.answer = some (.bytes .ok c) ∧ (usedKey call.tr).map Prod.snd = some k := by
  unfold KmCall.sealed? at h
  split at h
  next hop hanswer =>
    split at h
    next heq =>
      obtain rfl := heq
      exact ⟨_, _, _, hop, hanswer, h⟩
    · cases h
  · cases h

/-- A step with an answer. -/
theorem traces_of_answered {s s' : KmSystem} {call : KmCall} {answer : Answer}
    (hstep : KmStep H s call s') (hanswer : call.answer = some answer) :
    Traces (call.op.prog H s.manager) call.tr (.ret (answer, s'.manager)) := by
  cases hstep with
  | returned htr _ =>
    obtain rfl := Option.some.inj hanswer
    exact htr
  | undefined _ _ => cases hanswer

/-- What one call has to do with the keys of the domain. -/
theorem brings_step {s s' : KmSystem} {call : KmCall} (hstep : KmStep H s call s') :
    (∀ k, call.made? d = some k → s'.manager.domainKeyMap.Holds d k ∧
      ∀ k', s.manager.domainKeyMap.Holds d k' → k' < k) ∧
    ∀ k, call.sealed? d = some k → s'.manager.domainKeyMap.Holds d k ∧
      ∀ k', s'.manager.domainKeyMap.Holds d k' → k' ≤ k := by
  constructor
  · intro k hmade
    obtain ⟨hop, hanswer⟩ := made?_eq_some hmade
    have htr := traces_of_answered hstep hanswer
    rw [hop] at htr
    exact createKey_made htr
  · intro k hsealed
    obtain ⟨symAlg, plaintext, c, hop, hanswer, hused⟩ := sealed?_eq_some hsealed
    have htr := traces_of_answered hstep hanswer
    rw [hop] at htr
    obtain ⟨k', hunder⟩ := sealedUnder_of_traces htr
    obtain rfl : k' = k := by
      rw [hunder.used] at hused
      exact Option.some.inj hused
    exact lastKey?_eq_some.mp hunder.latest

/-- The call deletes no key of the domain. -/
def SparesDomain (d : Nat) (call : KmCall) : Prop := ∀ k, Spares d k call

/-- One call that spares a key. -/
theorem keepsKey_step {s s' : KmSystem} {call : KmCall} (hinited : s.manager.inited = true)
    (hspares : Spares d k call) (hstep : KmStep H s call s') :
    KeepsKey d k s.manager s'.manager := by
  cases hstep with
  | returned htr hstore =>
    exact (wp_iff.mp (prog_sparesKey hinited) _ _ htr hspares).keeps _ _ rfl
  | undefined htr hstore =>
    -- no output of the store stops the call
    obtain ⟨ev, hev, hfaults⟩ := (wp_iff.mp (prog_sparesKey hinited) _ _ htr hspares).defined rfl
    exact absurd hfaults (not_readerFaults_of_run hstore ev hev)

/-- **Keys move forward.** In every run of calls that delete no key of a domain, each key made there
is newer than every key made or used before, and no text is sealed under an older one. -/
theorem forward_of_run {s t : KmSystem} {calls : List KmCall} (hinited : s.manager.inited = true)
    (hrun : Run (Guarded (fun _ => SparesDomain d) (KmStep H)) s calls t) :
    calls.Pairwise (Forward d) := by
  let Marked (call : KmCall) (s : KmSystem) : Prop :=
    ∀ k, call.Brings d k → s.manager.domainKeyMap.Holds d k
  refine hrun.pairwise (I := fun s => s.manager.inited = true) (M := Marked) ?_ ?_ hinited
  · intro s call s' hinited hl
    obtain ⟨hspares, hstep⟩ := hl
    have hkeeps := keepsKey_step hinited (hspares 0) hstep
    refine ⟨hkeeps.inited.trans hinited, fun k hbrings => ?_⟩
    obtain ⟨hmade, hsealed⟩ := brings_step (d := d) hstep
    rcases hbrings with hk | hk
    · exact (hmade k hk).1
    · exact (hsealed k hk).1
  · intro earlier s call s' hinited hmark hl
    obtain ⟨hspares, hstep⟩ := hl
    have hkept : Marked earlier s' := fun k hbrings =>
      (keepsKey_step hinited (hspares k) hstep).holds (hmark k hbrings)
    obtain ⟨hmade, hsealed⟩ := brings_step (d := d) hstep
    refine ⟨fun k k' hbrings => ⟨fun hk' => ?_, fun hk' => ?_⟩, hkept⟩
    · exact (hmade k' hk').2 k (hmark k hbrings)
    · exact (hsealed k' hk').2 k (hkept k hbrings)

/-- A text sealed on the sample, and a key made after it. -/
theorem forward_of_run_sample : ∃ tr c tr₁ answer s₂,
    Run (KmStep sampleHost) sampleSystem
      [⟨.encrypt .aes256Gcm 0 (ascii "secret"), tr, some (.bytes .ok c)⟩,
        ⟨.createKey 0, tr₁, answer⟩] s₂ ∧
    KmCall.sealed? 0 ⟨.encrypt .aes256Gcm 0 (ascii "secret"), tr, some (.bytes .ok c)⟩ = some 3 ∧
    List.Pairwise (Forward 0)
      [⟨.encrypt .aes256Gcm 0 (ascii "secret"), tr, some (.bytes .ok c)⟩,
        ⟨.createKey 0, tr₁, answer⟩] := by
  obtain ⟨tr, c, henc, hused⟩ := kmStep_encrypt
  obtain ⟨tr₁, answer, s₂, hstep⟩ := kmStep_createKey
  let sealing : KmCall := ⟨.encrypt .aes256Gcm 0 (ascii "secret"), tr, some (.bytes .ok c)⟩
  let making : KmCall := ⟨.createKey 0, tr₁, answer⟩
  have hspares : SparesDomain 0 sealing ∧ SparesDomain 0 making := ⟨fun _ => trivial, fun _ => trivial⟩
  have hcalls : Run (Guarded (fun _ => SparesDomain 0) (KmStep sampleHost)) sampleSystem
      [sealing, making] s₂ := .cons ⟨hspares.1, henc⟩ (.cons ⟨hspares.2, hstep⟩ (.nil _))
  have hsealed : KmCall.sealed? 0
      ⟨.encrypt .aes256Gcm 0 (ascii "secret"), tr, some (.bytes .ok c)⟩ = some 3 := by
    show (if 0 = 0 then (usedKey tr).map Prod.snd else none) = some 3
    rw [if_pos rfl, hused]
    rfl
  exact ⟨tr, c, tr₁, answer, s₂, hcalls.mono fun _ _ _ hl => hl.2, hsealed,
    forward_of_run rfl hcalls⟩

/-! ## The key of a ciphertext -/

/-- No key but this one is asked for. -/
def AsksFor (d k : Nat) : Call → Prop
  | .run _ _ cmd => cmd = .exportKey d k
  | _ => True

/-- `Decrypt` asks for the key that the header names. -/
theorem calls_decrypt {d' : Nat} {symAlg' : CryptoSymAlg}
    (hheader : readCipherHeader (bas64DecodeCipherText c) = some ⟨symAlg, d, k⟩) :
    Calls (AsksFor d k) (m.decrypt H symAlg' d' c) := by
  refine calls_locked trivial trivial ?_
  split
  · trivial
  dsimp only
  split
  · trivial
  unfold parseCipherHeader
  rw [hheader]
  dsimp only
  split
  · trivial
  split
  · trivial
  split
  · trivial
  split
  · trivial
  refine Calls.bind ?_ fun vec => ?_
  · unfold vaultDecrypt
    have hcall : AsksFor d k (.run m.exePath m.accessToken (.exportKey d k)) := rfl
    refine (calls_runCommandAndGetResult _ _ _ hcall).bind fun result => ?_
    refine (calls_ofExcept _).bind fun key => ?_
    split
    · trivial
    · exact (calls_perform trivial).bind fun _ => trivial
  · split <;> trivial

/-- What comes of a ciphertext in the hands of any manager. -/
structure OpenedBy (H : KmHost) (d k : Nat) (symAlg : CryptoSymAlg) (ct : Bytes)
    (m : OpenbaoKeyManager) (tr : List KmEvent) (vec : Bytes) : Prop where
  holds : m.domainKeyMap.Holds d k
  opened : ∃ w reply key, ran m (.exportKey d k) reply ∈ tr ∧
    exportedKey H (commandResult reply) = .ok key ∧
    nativeDecrypt H.ciphers w symAlg ct key = (.ok, vec)

theorem openedAnswer_ok {w : OpensslWorld} {key vec : Bytes}
    (h : openedAnswer H w symAlg c key = (.ok, vec)) :
    nativeDecrypt H.ciphers w symAlg ((bas64DecodeCipherText c).drop maxIndex) key = (.ok, vec) := by
  unfold openedAnswer at h
  dsimp only at h
  split at h
  · cases h
  next hrc => exact Prod.ext (not_not.mp (not_or.mp hrc).1) (Prod.mk.inj h).2

/-- **A ciphertext and its key.** Whatever `Encrypt` has returned under a key with an id of sixteen
bits, no `Decrypt` asks the vault for another key, and one that succeeds was called with the
algorithm and the domain of the encryption, and answers what the native layer makes of the sealed
bytes under what the vault gives out for that key. -/
theorem decrypt_routed (hC : H.ciphers.Correct (getCipherSuite symAlg))
    (henc : Traces (m.encrypt H symAlg d plaintext) tr (.ret ((.ok, c), m')))
    (hused : usedKey tr = some (d, k)) (hk : k ≤ 65535) :
    ∃ w key ct, nativeEncrypt H.ciphers w symAlg plaintext key = (.ok, ct) ∧
      ∀ (other : OpenbaoKeyManager) (symAlg' : CryptoSymAlg) (d' : Nat) (tr' : List KmEvent)
        (o : Outcome Fault (KeyManagerRC × Bytes)), Traces (other.decrypt H symAlg' d' c) tr' o →
        (∀ ev ∈ tr', AsksFor d k ev.1) ∧ ∀ vec, o = .ret (.ok, vec) →
          symAlg' = symAlg ∧ d' = d ∧ OpenedBy H d k symAlg ct other tr' vec := by
  have htrace := wp_iff.mp (encrypt_traces H m symAlg d plaintext) _ _ henc
  obtain ⟨pre, m₂, k', reply, key, w, rfl, -, -, hsealed, hholds, hparams, -⟩ := htrace.ends
  obtain ⟨-, rfl⟩ := Prod.mk.inj (Option.some.inj ((usedKey_append _ _ _ _ _ _).symm.trans hused))
  obtain ⟨ct, hct, rfl⟩ := sealedAnswer_ok hsealed
  obtain ⟨hinited, -, hcount, halg⟩ := checkEncryptAndDecryptParams_eq_ok.mp hparams
  obtain ⟨hct₀, hct₁⟩ := nativeEncrypt_length (isAead_getCipherSuite halg) hC hct
  -- what is sealed is read back by anyone, whoever accepts it
  have hready : m'.checkEncryptAndDecryptParams d symAlg = .ok := by
    have hkeeps := (htrace.sparesKey (d := d) (k := k')).keeps _ _ rfl
    refine checkEncryptAndDecryptParams_eq_ok.mpr
      ⟨hkeeps.inited.trans hinited, hholds.mem, ?_, halg⟩
    rw [hkeeps.domainCount]
    exact hcount
  obtain ⟨hraw, haccepts⟩ := accepts_sealed hready hholds hk hct₀ hct₁
  refine ⟨w, key, ct, hct, fun other symAlg' d' tr' o hdec => ⟨?_, fun vec ho => ?_⟩⟩
  · exact wp_iff.mp (calls_decrypt haccepts.parsed).trace _ _ hdec
  · cases wp_iff.mp (decrypt_traces H other symAlg' d' _) _ _ hdec with
    | refused hrc _ =>
      obtain ⟨rfl, -⟩ := Prod.mk.inj (Outcome.ret.inj ho)
      exact absurd rfl hrc
    | noToken _ => cases ho
    | faulted _ => cases ho
    | noKey _ _ => cases ho
    | @opened header reply key' w' haccepts' hkey' hne' =>
      obtain rfl := Option.some.inj (haccepts'.parsed.symm.trans haccepts.parsed)
      obtain rfl := haccepts'.symAlg
      obtain rfl := haccepts'.domainId
      refine ⟨rfl, rfl, haccepts'.holds, w', reply, key', by simp, hkey', ?_⟩
      have hopened := openedAnswer_ok (Outcome.ret.inj ho)
      rw [hraw] at hopened
      exact hopened

/-- The ciphertext of the sample names the key 3 of domain 0. -/
theorem decrypt_routed_sample : ∃ c, (∃ tr m', Traces
      (sampleManager.encrypt sampleHost .aes256Gcm 0 (ascii "secret")) tr (.ret ((.ok, c), m'))) ∧
    ∀ (other : OpenbaoKeyManager) (symAlg' : CryptoSymAlg) (d' : Nat) (tr' : List KmEvent)
      (o : Outcome Fault (KeyManagerRC × Bytes)),
      Traces (other.decrypt sampleHost symAlg' d' c) tr' o → ∀ ev ∈ tr', AsksFor 0 3 ev.1 := by
  obtain ⟨c, m', henc⟩ := sample_encrypts
  have hused : usedKey ((sampleManager.encrypt sampleHost .aes256Gcm 0
      (ascii "secret")).runWith sampleAnswer).1 = some (0, 3) := rfl
  obtain ⟨w, key, ct, -, hroutes⟩ := decrypt_routed (sampleCiphers_correct _) henc hused (by decide)
  exact ⟨c, ⟨_, m', henc⟩, fun other symAlg' d' tr' o hdec => (hroutes other symAlg' d' tr' o hdec).1⟩

end CdfCrypto.KeyManagement
