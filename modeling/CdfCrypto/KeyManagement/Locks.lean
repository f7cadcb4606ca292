import CdfCrypto.KeyManagement.RoundTrip

/-!
# The mutex along one call

`mutex_` is a `std::shared_mutex`: a thread that holds it in either mode must not
acquire it again. `lockStep` follows one call's trace; `NeverReacquires` says that
no acquisition comes while the call already holds the mutex.

Most operations take the mutex, run a body that only runs commands or reads the
clock (`Quiet`), and give it back. Two call other operations with the mutex held:
`CreateKey` calls `RemoveKey` when the vault reports no creation time for the key
just made, and `Encrypt` calls `CreateKey` when it gets no key. Both callees take
the mutex themselves, so these branches block for ever; `neverReacquires_iff` says
that nothing else does.
-/

namespace CdfCrypto.KeyManagement

open Lib OpenbaoKeyManager

/-! ## Following the mutex -/

inductive LockState
  | free
  | held
  | reacquired
  deriving DecidableEq, Repr

def lockStep : LockState → KmEvent → LockState
  | .free, ⟨.acquire _, _⟩ => .held
  | .held, ⟨.acquire _, _⟩ => .reacquired
  | .held, ⟨.release _, _⟩ => .free
  | s, _ => s

/-- No acquisition comes while the mutex is held. -/
def NeverReacquires (tr : List KmEvent) : Prop := tr.foldl lockStep .free ≠ .reacquired

/-- A call that is none on the mutex. -/
def Quiet : Call → Prop
  | .acquire _ => False
  | .release _ => False
  | _ => True

theorem lockStep_of_quiet {s : LockState} {ev : KmEvent} (h : Quiet ev.1) : lockStep s ev = s := by
  obtain ⟨c, reply⟩ := ev
  cases c with
  | acquire mode => exact h.elim
  | release mode => exact h.elim
  | run => cases s <;> rfl
  | time => cases s <;> rfl
  | canonicalPath => cases s <;> rfl
  | crypt => cases s <;> rfl

theorem foldl_lockStep_of_quiet {tr : List KmEvent} (h : ∀ ev ∈ tr, Quiet ev.1) (s : LockState) :
    tr.foldl lockStep s = s := by
  induction tr with
  | nil => rfl
  | cons ev tr ih =>
    rw [List.foldl_cons, lockStep_of_quiet (h ev List.mem_cons_self)]
    exact ih fun ev' hev' => h ev' (List.mem_cons_of_mem _ hev')

/-- Once it has happened, it has happened. -/
theorem foldl_lockStep_reacquired (tr : List KmEvent) :
    tr.foldl lockStep .reacquired = .reacquired := by
  induction tr with
  | nil => rfl
  | cons ev tr ih => exact ih

/-- An acquisition after quiet events under the mutex. -/
theorem not_neverReacquires {mode mode' : LockMode} {tr tr' : List KmEvent}
    (h : ∀ ev ∈ tr, Quiet ev.1) :
    ¬ NeverReacquires (acquired mode :: (tr ++ acquired mode' :: tr')) := by
  intro hnever
  refine hnever ?_
  show (tr ++ acquired mode' :: tr').foldl lockStep .held = .reacquired
  rw [List.foldl_append, foldl_lockStep_of_quiet h]
  exact foldl_lockStep_reacquired tr'

/-- A quiet body under the mutex. -/
theorem wp_locked_of_quiet {α : Type} {mode : LockMode} {body : Km α} (h : Calls Quiet body) :
    wp (locked mode body) fun tr _ => NeverReacquires tr := by
  refine wp_locked.mpr (wp_mono h.trace fun tr o hquiet => ?_)
  cases o with
  | ret a =>
    show (tr ++ [released mode]).foldl lockStep .held ≠ .reacquired
    rw [List.foldl_append, foldl_lockStep_of_quiet hquiet]
    exact LockState.noConfusion
  | halt x =>
    show tr.foldl lockStep .held ≠ .reacquired
    rw [foldl_lockStep_of_quiet hquiet]
    exact LockState.noConfusion

/-! ## Quiet bodies -/

theorem calls_prepareMapLoop (H : KmHost) (pairs : List (Nat × Nat)) :
    ∀ m, Calls Quiet (prepareMapLoop H m pairs) := by
  induction pairs with
  | nil => exact fun m => trivial
  | cons pair pairs ih =>
    intro m
    refine (calls_runCommandAndGetResult _ _ _ trivial).bind fun result => ?_
    split
    · trivial
    split
    · trivial
    refine (calls_ofExcept _).bind fun time => ?_
    split
    · exact ih _
    · trivial

theorem calls_prepareMap (H : KmHost) (m : OpenbaoKeyManager) : Calls Quiet (prepareMap H m) := by
  refine (calls_runCommandAndGetResult _ _ _ trivial).bind fun result => ?_
  split
  · trivial
  split
  · trivial
  split
  · trivial
  · trivial
  · exact (calls_prepareMapLoop H _ m).bind fun _ => trivial

theorem neverReacquires_init (H : KmHost) (m : OpenbaoKeyManager) (exePath accessToken : Bytes)
    (domainCount : Nat) :
    wp (m.init H exePath accessToken domainCount) fun tr _ => NeverReacquires tr := by
  refine wp_locked_of_quiet ?_
  split
  · trivial
  refine Calls.bind (calls_perform trivial) fun canonical => ?_
  cases canonical with
  | none => trivial
  | some exeRealPath =>
    dsimp only
    split
    · split
      · trivial
      split
      · trivial
      refine (calls_prepareMap H _).bind fun prepared => ?_
      split
      · trivial
      split <;> trivial
    · trivial

theorem neverReacquires_removeKey (m : OpenbaoKeyManager) (d k : Nat) :
    wp (m.removeKey d k) fun tr _ => NeverReacquires tr := by
  refine wp_mono (removeKey_traces m d k) fun tr o h => ?_
  cases h <;> exact LockState.noConfusion

theorem calls_deleteInner (d : Nat) (keys : List Nat) : ∀ m, Calls Quiet (deleteInner d m keys) := by
  induction keys with
  | nil => exact fun m => trivial
  | cons k keys ih =>
    intro m
    refine (calls_runCommandAndCheck _ _ _ trivial).bind fun ret => ?_
    split
    · trivial
    · exact ih _

theorem calls_deleteOuter (domains : List Nat) : ∀ m, Calls Quiet (deleteOuter m domains) := by
  induction domains with
  | nil => exact fun m => trivial
  | cons d domains ih => exact fun m => (calls_deleteInner d _ m).bind fun m' => ih _

theorem neverReacquires_deleteAllKey (m : OpenbaoKeyManager) :
    wp m.deleteAllKey fun tr _ => NeverReacquires tr := by
  refine wp_locked_of_quiet ?_
  split
  · trivial
  split
  · trivial
  · exact (calls_deleteOuter _ m).bind fun _ => trivial

theorem neverReacquires_displayKey (m : OpenbaoKeyManager) (d : Nat) :
    wp (m.displayKey d) fun tr _ => NeverReacquires tr := by
  refine wp_locked_of_quiet ?_
  split
  · trivial
  split
  · trivial
  split
  · trivial
  · exact (calls_ofExcept _).bind fun _ => trivial

theorem neverReacquires_displayAllKey (m : OpenbaoKeyManager) :
    wp m.displayAllKey fun tr _ => NeverReacquires tr := by
  refine wp_locked_of_quiet ?_
  split
  · trivial
  split
  · trivial
  · exact (calls_ofExcept _).bind fun _ => trivial

theorem neverReacquires_checkDomainKeysExpired (m : OpenbaoKeyManager) (d lead : Nat) :
    wp (m.checkDomainKeysExpired d lead) fun tr _ => NeverReacquires tr := by
  refine wp_locked_of_quiet (Calls.bind (calls_perform trivial) fun time => ?_)
  split
  · trivial
  split
  · trivial
  split
  · trivial
  split
  · trivial
  split
  · trivial
  split
  · trivial
  split
  · trivial
  · exact (calls_ofExcept _).bind fun _ => trivial

theorem neverReacquires_autoUpdate (H : KmHost) (m : OpenbaoKeyManager) (d lead : Nat) :
    wp (m.checkDomainKeysExpiredAndAutoUpdate H d lead) fun tr _ => NeverReacquires tr := by
  refine wp_locked_of_quiet (Calls.bind (calls_perform trivial) fun time => ?_)
  split
  · trivial
  split
  · trivial
  · exact calls_autoUpdateLoop (fun _ _ => ⟨fun _ _ => trivial, fun _ _ => trivial,
      fun _ _ => trivial, fun _ _ => trivial⟩) m

theorem neverReacquires_getLatestKey (H : KmHost) (m : OpenbaoKeyManager) (d id : Nat) :
    wp (m.getLatestKey H d id) fun tr _ => NeverReacquires tr := by
  refine wp_mono (getLatestKey_traces H m d id) fun tr o h => ?_
  cases h <;> exact LockState.noConfusion

theorem neverReacquires_decrypt (H : KmHost) (m : OpenbaoKeyManager) (symAlg : CryptoSymAlg)
    (d : Nat) (ciphertext : Bytes) :
    wp (m.decrypt H symAlg d ciphertext) fun tr _ => NeverReacquires tr := by
  refine wp_mono (decrypt_traces H m symAlg d ciphertext) fun tr o h => ?_
  cases h <;> exact LockState.noConfusion

/-! ## The two operations that call others -/

/-- A `read` that succeeded and reported no creation time. -/
def MissesTime (H : KmHost) : KmEvent → Prop
  | ⟨.run _ _ (.read _ _), reply⟩ =>
    Succeeded reply ∧ getJsonFieldMaxInt H.json reply.2 = .ok (-1)
  | _ => False

/-- An `export` that gave no key. -/
def MissesKey (H : KmHost) : KmEvent → Prop
  | ⟨.run _ _ (.exportKey _ _), reply⟩ => exportedKey H (commandResult reply) = .ok []
  | _ => False

/-- `CreateKey` acquires the mutex again exactly when the vault reports no time for its key. -/
theorem neverReacquires_createKey (H : KmHost) (m : OpenbaoKeyManager) (d : Nat) :
    wp (m.createKey H d) fun tr _ => NeverReacquires tr ↔ ¬ ∃ ev ∈ tr, MissesTime H ev := by
  refine wp_mono (createKey_traces H m d) fun tr o h => ?_
  cases h with
  | @noTime id r₁ r₂ r₃ h₁ h₂ h₃ htime =>
    refine iff_of_false (fun hnever => hnever rfl) (not_not.mpr ?_)
    exact ⟨ran m (.read d id) r₃, by simp, h₃, htime⟩
  | readFailed h₁ h₂ h₃ =>
    refine iff_of_true LockState.noConfusion ?_
    simp [MissesTime, acquired, released, ran, h₃]
  | faulted h₁ h₂ h₃ htime =>
    refine iff_of_true LockState.noConfusion ?_
    simp [MissesTime, acquired, ran, htime]
  | created _ _ _ h₁ h₂ h₃ htime hne =>
    refine iff_of_true LockState.noConfusion ?_
    simp [MissesTime, acquired, released, ran, htime, hne]
  | _ =>
    refine iff_of_true LockState.noConfusion ?_
    simp [MissesTime, acquired, released, ran]

/-- Every trace of `CreateKey` starts with its acquisition. -/
theorem CreateKeyTrace.starts {H : KmHost} {m : OpenbaoKeyManager} {d : Nat} {tr : List KmEvent}
    {o : Outcome Fault ((KeyManagerRC × Nat) × OpenbaoKeyManager)} (h : CreateKeyTrace H m d tr o) :
    ∃ tr', tr = acquired .exclusive :: tr' := by
  cases h <;> exact ⟨_, rfl⟩

theorem GetLatestKeyTrace.quiet {H : KmHost} {m : OpenbaoKeyManager} {d id : Nat}
    {tr : List KmEvent} {o : Outcome Fault ((Bytes × Nat) × OpenbaoKeyManager)}
    (h : GetLatestKeyTrace H m d id tr o) : ∀ ev ∈ tr, Quiet ev.1 := by
  cases h <;> simp [ran, Quiet]

/-- The first look for a key finds none: there is none in the map, no token, or none in the reply. -/
def FindsNoKey (H : KmHost) (m : OpenbaoKeyManager) (d : Nat) (tr : List KmEvent) : Prop :=
  m.accessToken = [] ∨ lastKey? (m.domainKeyMap.at' d) = none ∨ ∃ ev ∈ tr, MissesKey H ev

theorem findsNoKey_of_empty {H : KmHost} {m m₁ : OpenbaoKeyManager} {d id : Nat}
    {symAlg : CryptoSymAlg} {tr tr' : List KmEvent}
    (hparams : m.checkEncryptAndDecryptParams d symAlg = .ok)
    (h : GetLatestKeyTrace H m d 0 tr (.ret (([], id), m₁))) (hsub : ∀ ev ∈ tr, ev ∈ tr') :
    FindsNoKey H m d tr' := by
  generalize ho : (Outcome.ret (([], id), m₁) : Outcome Fault ((Bytes × Nat) × _)) = o at h
  cases h with
  | refused hrefused =>
    obtain ⟨hinited, hmem, hcount, -⟩ := checkEncryptAndDecryptParams_eq_ok.mp hparams
    rcases hrefused with hvalid | hempty
    · refine absurd ?_ hvalid
      unfold validateDomain
      rw [if_neg (by simp [hinited]), if_neg (by omega)]
    · rw [Std.ExtTreeMap.isEmpty_iff.mp hempty] at hmem
      simp at hmem
  | noKey hmax => exact .inr (.inl hmax)
  | noToken htoken => exact .inl htoken
  | faulted _ _ _ => cases ho
  | exported _ _ hkey =>
    obtain ⟨⟨rfl, -⟩, -⟩ := Prod.mk.inj (Outcome.ret.inj ho) |>.imp_left Prod.mk.inj
    exact .inr (.inr ⟨_, hsub _ List.mem_cons_self, hkey⟩)

/-- `Encrypt` acquires the mutex again exactly when its arguments are good and it finds no key. -/
theorem neverReacquires_encrypt (H : KmHost) (m : OpenbaoKeyManager) (symAlg : CryptoSymAlg)
    (d : Nat) (plaintext : Bytes) :
    wp (m.encrypt H symAlg d plaintext) fun tr _ => NeverReacquires tr ↔
      ¬ (m.checkEncryptAndDecryptParams d symAlg = .ok ∧
        ¬ (plaintext = [] ∨ plaintextMaxLength ≤ plaintext.length) ∧ FindsNoKey H m d tr) := by
  refine wp_mono (encrypt_traces H m symAlg d plaintext) fun tr o h => ?_
  -- the four cases that end in `CreateKey`
  have hcreate : ∀ {id : Nat} {m₁ : OpenbaoKeyManager} {tr tr₁ rest : List KmEvent}
      {o₁ : Outcome Fault ((KeyManagerRC × Nat) × OpenbaoKeyManager)},
      m.checkEncryptAndDecryptParams d symAlg = .ok →
      ¬ (plaintext = [] ∨ plaintextMaxLength ≤ plaintext.length) →
      GetLatestKeyTrace H m d 0 tr (.ret (([], id), m₁)) → CreateKeyTrace H m₁ d tr₁ o₁ →
      (NeverReacquires (acquired .shared :: (tr ++ (tr₁ ++ rest))) ↔
        ¬ (m.checkEncryptAndDecryptParams d symAlg = .ok ∧
          ¬ (plaintext = [] ∨ plaintextMaxLength ≤ plaintext.length) ∧
          FindsNoKey H m d (acquired .shared :: (tr ++ (tr₁ ++ rest))))) := by
    intro id m₁ tr tr₁ rest o₁ hparams htext hfirst hsecond
    obtain ⟨tr₁, rfl⟩ := hsecond.starts
    refine iff_of_false (not_neverReacquires hfirst.quiet) (not_not.mpr ⟨hparams, htext, ?_⟩)
    exact findsNoKey_of_empty hparams hfirst fun ev hev =>
      List.mem_cons_of_mem _ (List.mem_append_left _ hev)
  cases h with
  | refused _ hargs =>
    refine iff_of_true LockState.noConfusion fun hall => ?_
    rcases hargs with hparams | htext
    · exact hparams hall.1
    · exact hall.2.1 htext
  | faulted htoken hmax hkey =>
    refine iff_of_true LockState.noConfusion fun hall => ?_
    simp [FindsNoKey, htoken, hmax, MissesKey, acquired, ran, hkey] at hall
  | direct _ htoken hmax hkey hne =>
    refine iff_of_true LockState.noConfusion fun hall => ?_
    simp [FindsNoKey, htoken, hmax, MissesKey, acquired, released, crypted, ran, hkey, hne] at hall
  | createFaulted hparams htext hfirst hsecond =>
    simpa only [List.append_nil] using @hcreate _ _ _ _ [] _ hparams htext hfirst hsecond
  | createFailed hparams htext hfirst hsecond => exact hcreate hparams htext hfirst hsecond
  | secondFaulted hparams htext hfirst hsecond _ => exact hcreate hparams htext hfirst hsecond
  | recreated hparams htext hfirst hsecond _ => exact hcreate hparams htext hfirst hsecond

/-! ## All operations -/

/-- The environment does not drive the call into the operation it would call in vain. -/
def KeepsOut (H : KmHost) (m : OpenbaoKeyManager) (tr : List KmEvent) : Op → Prop
  | .createKey _ => ¬ ∃ ev ∈ tr, MissesTime H ev
  | .encrypt symAlg d plaintext =>
    ¬ (m.checkEncryptAndDecryptParams d symAlg = .ok ∧
      ¬ (plaintext = [] ∨ plaintextMaxLength ≤ plaintext.length) ∧ FindsNoKey H m d tr)
  | _ => True

/-- **When a call deadlocks with itself.** An operation never acquires the mutex it holds if and
only if it is not a `CreateKey` whose new key has no creation time, nor an `Encrypt` that finds no
key for arguments it accepts. -/
theorem neverReacquires_iff (H : KmHost) (m : OpenbaoKeyManager) (op : Op) (tr : List KmEvent)
    (o : Outcome Fault (Answer × OpenbaoKeyManager)) (htr : Traces (op.prog H m) tr o) :
    NeverReacquires tr ↔ KeepsOut H m tr op := by
  suffices hwp : wp (op.prog H m) fun tr _ => NeverReacquires tr ↔ KeepsOut H m tr op from
    wp_iff.mp hwp tr o htr
  have hplain : ∀ {α : Type} {p : Km α} {f : α → Km (Answer × OpenbaoKeyManager)},
      wp p (fun tr _ => NeverReacquires tr) → (∀ a, ∃ b, f a = .ret b) →
      wp (p >>= f) fun tr _ => NeverReacquires tr ↔ True := fun h hf =>
    wp_mono (wp_bind_answer h hf) fun _ _ hnever => iff_of_true hnever trivial
  cases op with
  | init exePath accessToken domainCount =>
    refine hplain (neverReacquires_init H m exePath accessToken domainCount) fun a => ?_
    obtain ⟨rc, m'⟩ := a
    cases rc <;> exact ⟨_, rfl⟩
  | unInit => exact iff_of_true LockState.noConfusion trivial
  | setType type => exact iff_of_true LockState.noConfusion trivial
  | createKey d =>
    exact wp_bind_answer (neverReacquires_createKey H m d) fun _ => ⟨_, rfl⟩
  | removeKey d k => exact hplain (neverReacquires_removeKey m d k) fun _ => ⟨_, rfl⟩
  | deleteAllKey => exact hplain (neverReacquires_deleteAllKey m) fun _ => ⟨_, rfl⟩
  | displayKey d => exact hplain (neverReacquires_displayKey m d) fun _ => ⟨_, rfl⟩
  | displayAllKey => exact hplain (neverReacquires_displayAllKey m) fun _ => ⟨_, rfl⟩
  | checkDomainKeysExpired d lead =>
    exact hplain (neverReacquires_checkDomainKeysExpired m d lead) fun _ => ⟨_, rfl⟩
  | checkDomainKeysExpiredAndAutoUpdate d lead =>
    exact hplain (neverReacquires_autoUpdate H m d lead) fun _ => ⟨_, rfl⟩
  | getLatestKey d id => exact hplain (neverReacquires_getLatestKey H m d id) fun _ => ⟨_, rfl⟩
  | encrypt symAlg d plaintext =>
    exact wp_bind_answer (neverReacquires_encrypt H m symAlg d plaintext) fun _ => ⟨_, rfl⟩
  | decrypt symAlg d ciphertext =>
    exact hplain (neverReacquires_decrypt H m symAlg d ciphertext) fun _ => ⟨_, rfl⟩

/-- A vault that reports a key without versions. -/
def untimedAnswer : (c : Call) → c.Reply
  | .run _ _ (.read _ _) => (0, ascii "{}")
  | c => sampleAnswer c

theorem createKey_reacquires : ¬ ∀ (H : KmHost) (m : OpenbaoKeyManager) (op : Op)
    (tr : List KmEvent) (o : Outcome Fault (Answer × OpenbaoKeyManager)),
    Traces (op.prog H m) tr o → NeverReacquires tr := by
  intro hall
  refine hall sampleHost sampleManager (.createKey 0) _ _ (traces_runWith untimedAnswer _) ?_
  decide +kernel

theorem neverReacquires_iff_sample :
    NeverReacquires ((Op.prog sampleHost sampleManager (.createKey 0)).runWith sampleAnswer).1 ↔
      KeepsOut sampleHost sampleManager
        ((Op.prog sampleHost sampleManager (.createKey 0)).runWith sampleAnswer).1 (.createKey 0) :=
  neverReacquires_iff sampleHost sampleManager (.createKey 0) _ _ (traces_runWith sampleAnswer _)

end CdfCrypto.KeyManagement
