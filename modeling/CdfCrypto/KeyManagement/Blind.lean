import CdfCrypto.KeyManagement.Isolation

/-!
# What the store sees of the texts

The commands that a run sends to the vault, and the keys that it leaves, depend on the operations
called and on the answers of the store, but not on the texts. An encryption may be made of another
plaintext, if both are of a length it takes; a decryption of another ciphertext, if both decode, or
not, and begin with the same header. The run then goes the same way, and differs in what `Encrypt`
and `Decrypt` answer (`blind_of_run`).

The proof runs two programs side by side. Where they are given the texts, they make the same tests,
and what the cipher makes of a text is put into the answer and nowhere else.
-/

namespace CdfCrypto.KeyManagement

open Lib OpenbaoKeyManager

/-- `Encrypt` takes a text of this length. -/
def Encryptable (plaintext : Bytes) : Prop :=
  plaintext ≠ [] ∧ plaintext.length < plaintextMaxLength

/-- `Decrypt` makes the same of two texts, as far as the header goes. -/
structure SameHeader (ciphertext ciphertext' : Bytes) : Prop where
  empty : bas64DecodeCipherText ciphertext = [] ↔ bas64DecodeCipherText ciphertext' = []
  header : readCipherHeader (bas64DecodeCipherText ciphertext) =
    readCipherHeader (bas64DecodeCipherText ciphertext')

/-- Two operations that differ at most in a text. -/
inductive SameButText : Op → Op → Prop
  | same (op : Op) : SameButText op op
  | encrypt (symAlg : CryptoSymAlg) (d : Nat) {plaintext plaintext' : Bytes} :
      (Encryptable plaintext ↔ Encryptable plaintext') →
      SameButText (.encrypt symAlg d plaintext) (.encrypt symAlg d plaintext')
  | decrypt (symAlg : CryptoSymAlg) (d : Nat) {ciphertext ciphertext' : Bytes} :
      SameHeader ciphertext ciphertext' →
      SameButText (.decrypt symAlg d ciphertext) (.decrypt symAlg d ciphertext')

/-- The manager left is the same. -/
def SameManager {α : Type} (a b : α × OpenbaoKeyManager) : Prop := a.2 = b.2

section Programs

variable {H : KmHost} {m : OpenbaoKeyManager} {d k : Nat} {symAlg : CryptoSymAlg}
variable {plaintext plaintext' ciphertext ciphertext' : Bytes}

theorem sealText_blind (H : KmHost) (m : OpenbaoKeyManager) (symAlg : CryptoSymAlg) (d k : Nat)
    (plaintext plaintext' key : Bytes) :
    Lockstep SameManager (m.sealText H symAlg d k plaintext key)
      (m.sealText H symAlg d k plaintext' key) := by
  unfold sealText
  refine .bind_same _ fun w => ?_
  -- each side makes its own of the text, and keeps the manager
  dsimp only
  split <;> split <;> exact .ret rfl

theorem encryptable_iff :
    Encryptable plaintext ↔ ¬ (plaintext = [] ∨ plaintextMaxLength ≤ plaintext.length) := by
  rw [not_or, not_le]
  rfl

theorem encrypt_blind (H : KmHost) (m : OpenbaoKeyManager) (symAlg : CryptoSymAlg) (d : Nat)
    (h : Encryptable plaintext ↔ Encryptable plaintext') :
    Lockstep SameManager (m.encrypt H symAlg d plaintext) (m.encrypt H symAlg d plaintext') := by
  rw [encryptable_iff, encryptable_iff, not_iff_not] at h
  unfold OpenbaoKeyManager.encrypt
  refine Lockstep.locked (.ite (fun _ => .ret rfl) fun _ => ?_)
  by_cases hlength : plaintext = [] ∨ plaintextMaxLength ≤ plaintext.length
  · rw [if_pos hlength, if_pos (h.mp hlength)]
    exact .ret rfl
  · rw [if_neg hlength, if_neg (hlength ∘ h.mpr)]
    refine .bind_same _ fun latest => .ite (fun _ => ?_) fun _ => sealText_blind _ _ _ _ _ _ _ _
    refine .bind_same _ fun created => .ite (fun _ => .ret rfl) fun _ => ?_
    exact .bind_same _ fun latest => sealText_blind _ _ _ _ _ _ _ _

theorem vaultDecrypt_blind (H : KmHost) (m : OpenbaoKeyManager) (symAlg : CryptoSymAlg) (d k : Nat)
    (ciphertext ciphertext' : Bytes) :
    Lockstep (fun _ _ => True) (m.vaultDecrypt H symAlg d k ciphertext)
      (m.vaultDecrypt H symAlg d k ciphertext') := by
  unfold vaultDecrypt
  refine .bind_same _ fun result => .bind_same _ fun key => ?_
  refine .ite (fun _ => .ret trivial) fun _ => ?_
  exact .bind_same _ fun w => .ret trivial

theorem decrypt_blind (H : KmHost) (m : OpenbaoKeyManager) (symAlg : CryptoSymAlg) (d : Nat)
    (h : SameHeader ciphertext ciphertext') :
    Lockstep (fun _ _ => True) (m.decrypt H symAlg d ciphertext)
      (m.decrypt H symAlg d ciphertext') := by
  unfold OpenbaoKeyManager.decrypt
  refine Lockstep.locked (.ite (fun _ => .ret trivial) fun _ => ?_)
  dsimp only
  by_cases hempty : bas64DecodeCipherText ciphertext = []
  · rw [if_pos hempty, if_pos (h.empty.mp hempty)]
    exact .ret trivial
  rw [if_neg hempty, if_neg (hempty ∘ h.empty.mpr)]
  unfold parseCipherHeader
  rw [h.header]
  cases readCipherHeader (bas64DecodeCipherText ciphertext') with
  | none => exact .ret trivial
  | some header =>
    refine .ite (fun _ => .ret trivial) fun _ => ?_
    refine .ite (fun _ => .ret trivial) fun _ => ?_
    refine .ite (fun _ => .ret trivial) fun _ => ?_
    refine .ite (fun _ => .ret trivial) fun _ => ?_
    refine (vaultDecrypt_blind H m _ _ _ _ _).bind fun vec vec' _ => ?_
    split <;> split <;> exact .ret trivial

/-- One operation, on two texts. -/
theorem prog_blind {op op' : Op} (H : KmHost) (m : OpenbaoKeyManager) (h : SameButText op op') :
    Lockstep SameManager (op.prog H m) (op'.prog H m) := by
  cases h with
  | same op => exact (Lockstep.refl _).mono fun a b hab => congrArg Prod.snd hab
  | encrypt symAlg d hplain =>
    exact (encrypt_blind H m symAlg d hplain).bind fun a b hab => .ret hab
  | decrypt symAlg d hheader =>
    exact (decrypt_blind H m symAlg d hheader).bind fun a b _ => .ret rfl

end Programs

/-! ## Runs -/

variable {H : KmHost} {s s' t : KmSystem} {calls : List KmCall}

/-- Two calls that the store cannot tell apart. -/
structure SameSent (call call' : KmCall) : Prop where
  text : SameButText call.op call'.op
  sent : call'.tr = call.tr

theorem step_blind {call : KmCall} {op' : Op} (hstep : KmStep H s call s')
    (h : SameButText call.op op') :
    ∃ answer, KmStep H s ⟨op', call.tr, answer⟩ s' := by
  cases hstep with
  | returned htr hstore =>
    obtain ⟨⟨answer, manager⟩, htr', hsame⟩ := (prog_blind H s.manager h).traces htr
    obtain rfl : _ = manager := hsame
    exact ⟨some answer, .returned htr' hstore⟩
  | undefined htr hstore =>
    exact ⟨none, .undefined ((prog_blind H s.manager h).traces_halt htr) hstore⟩

/-- **The store sees no text.** Where the operations of a run are made on other texts, with the
same checks and headers, the same commands go to the vault, and the same system is left. -/
theorem blind_of_run {ops : List Op} (hrun : Run (KmStep H) s calls t)
    (h : List.Forall₂ SameButText (calls.map KmCall.op) ops) :
    ∃ calls', calls'.map KmCall.op = ops ∧ List.Forall₂ SameSent calls calls' ∧
      Run (KmStep H) s calls' t := by
  induction hrun generalizing ops with
  | nil s =>
    cases h
    exact ⟨[], rfl, .nil, .nil s⟩
  | @cons s s' t call calls hstep _ ih =>
    cases h with
    | @cons _ op _ ops hop hops =>
      obtain ⟨answer, hstep'⟩ := step_blind hstep hop
      obtain ⟨calls', rfl, hsent, hrun⟩ := ih hops
      exact ⟨⟨op, call.tr, answer⟩ :: calls', rfl, .cons ⟨hop, rfl⟩ hsent, .cons hstep' hrun⟩

/-- Another text of six letters. -/
theorem blind_of_run_sample : ∃ tr c answer,
    Run (KmStep sampleHost) sampleSystem
      [⟨.encrypt .aes256Gcm 0 (ascii "secret"), tr, some (.bytes .ok c)⟩] sampleSystem ∧
    Run (KmStep sampleHost) sampleSystem
      [⟨.encrypt .aes256Gcm 0 (ascii "public"), tr, answer⟩] sampleSystem := by
  obtain ⟨tr, c, hstep, -⟩ := kmStep_encrypt
  have hrun := Run.cons hstep (.nil sampleSystem)
  have hplain : Encryptable (ascii "secret") ↔ Encryptable (ascii "public") :=
    iff_of_true ⟨by decide, by decide⟩ ⟨by decide, by decide⟩
  obtain ⟨calls', hops, hsent, hrun'⟩ :=
    blind_of_run hrun (.cons (.encrypt .aes256Gcm 0 hplain) .nil)
  cases hsent with
  | @cons _ call _ _ hcall hrest =>
    cases hrest
    obtain ⟨op, tr', answer⟩ := call
    obtain rfl : op = _ := List.singleton_injective hops
    obtain rfl : tr' = tr := hcall.sent
    exact ⟨tr', c, answer, hrun, hrun'⟩

end CdfCrypto.KeyManagement
