import CdfCrypto.KeyManagement.SealedTexts
import CdfCrypto.Lib.RwLock

/-!
# Threads and processes that use key managers

`mutex_` guards the manager: every operation that takes it does so with its first call, and the
five that take it shared change neither the manager nor the store unless they block
(`disciplined_mutex`). So the threads of a process that has the vault for itself might have called
their operations one after the other, in the order in which they returned (`serial_of_threads`), and
what is known of runs is known of them. `GetLatestKey`, `UnInit` and `SetType` take no lock; no
thread calls them here.

Where any number of processes use the vault, the round trip is left: what one of their threads has
encrypted, no other decrypts to anything but the plaintext (`opened_of_crowd`).
-/

namespace CdfCrypto.KeyManagement

open Lib OpenbaoKeyManager

variable {H : KmHost} {J : RapidJson}

/-! ## The mutex -/

/-- The calls on `mutex_`. -/
def mutex : Lock Call where
  acquires c := ∃ mode, c = .acquire mode
  exclusive c := c = .acquire .exclusive
  releases c := ∃ mode, c = .release mode

/-- What asks does not change the store. -/
theorem keeps_of_asksOnly {c : Call} (h : AsksOnly c) : Keeps (TransitStep J) c := by
  intro store reply store' hstep
  cases c with
  | run exePath token cmd =>
    change if Succeeded reply then (∃ version, store.apply version cmd = some store') ∧
      Prints J store reply.2 cmd else store' = store at hstep
    split at hstep
    · obtain ⟨⟨version, happly⟩, -⟩ := hstep
      cases cmd with
      | list => exact (Option.some.inj happly).symm
      | read d k =>
        obtain ⟨_, -, heq⟩ := Option.map_eq_some_iff.mp happly
        exact heq.symm
      | exportKey d k =>
        unfold TransitStore.apply at happly
        dsimp only at happly
        split at happly
        · cases happly
        split at happly
        · exact (Option.some.inj happly).symm
        · cases happly
      | create d k => exact h.elim
      | config d k flags => exact h.elim
      | delete d k => exact h.elim
    · exact hstep
  | _ => exact hstep

/-! ### The operations that take it shared -/

/-- The code of the threads of a process. -/
def code (H : KmHost) (op : Op) (m : OpenbaoKeyManager) : Km (Answer × OpenbaoKeyManager) :=
  op.prog H m

section Readers

variable {α : Type} {P : α → Prop} {f : α → Km (Answer × OpenbaoKeyManager)}
variable {m : OpenbaoKeyManager} {c : Call} {k : c.Reply → Km (Answer × OpenbaoKeyManager)}

theorem asksOnly_displayAllKey (m : OpenbaoKeyManager) : Calls AsksOnly m.displayAllKey := by
  refine calls_locked trivial trivial ?_
  split
  · trivial
  split
  · trivial
  · exact (calls_ofExcept _).bind fun _ => trivial

theorem asksOnly_checkDomainKeysExpired (m : OpenbaoKeyManager) (d lead : Nat) :
    Calls AsksOnly (m.checkDomainKeysExpired d lead) := by
  refine calls_locked trivial trivial ((calls_perform trivial).bind fun time => ?_)
  split
  · trivial
  split
  · trivial
  split
  · trivial
  split
  · trivial
  split
  · trivial
  split
  · trivial
  split
  · trivial
  · exact (calls_ofExcept _).bind fun found => by split <;> trivial

/-- An operation that hands the manager back and only asks, after its first call. -/
theorem until_of_asksOnly {p : Km α} (hp : Calls AsksOnly p)
    (hf : ∀ a, ∃ answer, f a = .ret (answer, m)) (hcode : (p >>= f) = .call c k) (r : c.Reply) :
    Until mutex.acquires (Keeps (TransitStep J)) (k r) fun x => x.2 = m := by
  cases p with
  | ret a =>
    obtain ⟨answer, hret⟩ := hf a
    rw [show (Prog.ret a >>= f) = f a from rfl, hret] at hcode
    cases hcode
  | halt x => cases hcode
  | call c' k' =>
    cases hcode
    have hrest : Calls (Keeps (TransitStep J)) (k' r) :=
      (hp.2 r).mono fun _ => keeps_of_asksOnly
    refine hrest.bounded.until.bind fun a _ => ?_
    obtain ⟨answer, hret⟩ := hf a
    rw [hret]
    exact .ret rfl

/-- An operation that takes the mutex exclusively is no reader. -/
theorem exclusive_of_locked {body : Km α} (hcode : (locked .exclusive body >>= f) = .call c k) :
    mutex.exclusive c := by
  cases hcode
  rfl

/-- `GetLatestKey` takes no lock. -/
theorem not_acquires_of_getLatestKey {d id : Nat}
    (hcode : (Op.getLatestKey d id).prog H m = .call c k) : ¬ mutex.acquires c := by
  have hcalls : Calls (fun c => ¬ mutex.acquires c) ((Op.getLatestKey d id).prog H m) := by
    refine (calls_getLatestKey m (fun exePath token k => ?_) id).bind fun _ => trivial
    rintro ⟨mode, heq⟩
    cases heq
  rw [hcode] at hcalls
  exact hcalls.1

/-- An operation that takes the mutex shared, and its body. -/
theorem until_shared {body : Km α}
    (hbody : Until mutex.acquires (Keeps (TransitStep J)) body P)
    (hf : ∀ a, P a → ∃ answer, f a = .ret (answer, m))
    (hcode : (locked .shared body >>= f) = .call c k) (r : c.Reply) :
    Until mutex.acquires (Keeps (TransitStep J)) (k r) fun x => x.2 = m := by
  cases hcode
  have hrest : Until mutex.acquires (Keeps (TransitStep J))
      (body >>= fun result => .perform (.release .shared) >>= fun _ => .ret result) P :=
    hbody.bind fun a ha => .perform_bind (keeps_of_asksOnly trivial) fun _ => .ret ha
  refine hrest.bind fun a ha => ?_
  obtain ⟨answer, hret⟩ := hf a ha
  rw [hret]
  exact .ret rfl

/-- `GetLatestKey` inserts nothing where the domain is there. -/
theorem until_getLatestKey {d : Nat} (hmem : d ∈ m.domainKeyMap) (id : Nat) :
    Until mutex.acquires (Keeps (TransitStep J)) (m.getLatestKey H d id) fun x => x.2 = m := by
  have htouch : { m with domainKeyMap := m.domainKeyMap.touch d } = m := by
    rw [DomainKeyMap.touch_of_mem hmem]
  unfold OpenbaoKeyManager.getLatestKey
  split
  · exact .ret rfl
  split
  · exact .ret rfl
  dsimp only
  rw [htouch]
  split
  · exact .ret rfl
  · have hrun : ∀ cmd, AsksOnly (.run m.exePath m.accessToken cmd) →
        Until mutex.acquires (Keeps (TransitStep J))
          (runCommandAndGetResult m.exePath m.accessToken cmd) fun _ => True := fun cmd hasks =>
      (calls_runCommandAndGetResult _ _ _ (keeps_of_asksOnly hasks)).bounded.until
    refine (hrun (.exportKey d _) trivial).bind fun result _ => ?_
    exact (calls_ofExcept _).bounded.until.bind fun key _ => .ret rfl

/-- `Encrypt` blocks where it would make a key. -/
theorem until_encrypt (symAlg : CryptoSymAlg) (d : Nat) (p : Bytes)
    (hcode : (Op.encrypt symAlg d p).prog H m = .call c k) (r : c.Reply) :
    Until mutex.acquires (Keeps (TransitStep J)) (k r) fun x => x.2 = m := by
  refine until_shared (P := fun x : (KeyManagerRC × Bytes) × OpenbaoKeyManager => x.2 = m) ?_
    (fun x hx => ?_) hcode r
  · split
    · exact .ret rfl
    next hparams =>
    split
    · exact .ret rfl
    have hmem : d ∈ m.domainKeyMap :=
      (checkEncryptAndDecryptParams_eq_ok.mp (not_not.mp hparams)).2.1
    refine (until_getLatestKey hmem 0).bind fun latest hlatest => ?_
    obtain ⟨key, m'⟩ := latest
    obtain rfl : m' = m := hlatest
    split
    · exact .blocked ⟨.exclusive, rfl⟩
    · refine .perform_bind (keeps_of_asksOnly trivial) fun w => ?_
      dsimp only
      split <;> exact .ret rfl
  · obtain rfl : x.2 = m := hx
    exact ⟨_, rfl⟩

end Readers

/-- **What the mutex asks for**, its users do. -/
theorem disciplined_mutex : Disciplined mutex (code H) (TransitStep J) where
  apart := by
    rintro c ⟨mode, rfl⟩ ⟨mode', heq⟩
    cases heq
  lock := by
    rintro c (⟨mode, rfl⟩ | ⟨mode, rfl⟩)
    · exact keeps_of_asksOnly trivial
    · exact keeps_of_asksOnly trivial
  reads := by
    intro op m c k r hcode hacquires hshared
    cases op with
    | init exePath token n => exact absurd (exclusive_of_locked hcode) hshared
    | unInit => cases hcode
    | setType type => cases hcode
    | createKey d => exact absurd (exclusive_of_locked hcode) hshared
    | removeKey d k => exact absurd (exclusive_of_locked hcode) hshared
    | deleteAllKey => exact absurd (exclusive_of_locked hcode) hshared
    | displayKey d =>
      exact until_of_asksOnly (asksOnly_displayKey m d) (fun _ => ⟨_, rfl⟩) hcode r
    | displayAllKey =>
      exact until_of_asksOnly (asksOnly_displayAllKey m) (fun _ => ⟨_, rfl⟩) hcode r
    | checkDomainKeysExpired d lead =>
      exact until_of_asksOnly (asksOnly_checkDomainKeysExpired m d lead) (fun _ => ⟨_, rfl⟩) hcode r
    | checkDomainKeysExpiredAndAutoUpdate d lead => exact absurd (exclusive_of_locked hcode) hshared
    | getLatestKey d id => exact absurd hacquires (not_acquires_of_getLatestKey hcode)
    | encrypt symAlg d p => exact until_encrypt symAlg d p hcode r
    | decrypt symAlg d p =>
      exact until_of_asksOnly (asksOnly_decrypt H m symAlg d p) (fun _ => ⟨_, rfl⟩) hcode r

/-! ## The threads of one process -/

/-- The threads that use one manager. -/
abbrev KmThreads (ι : Type) := Threads ι Call Call.Reply Fault Op Answer OpenbaoKeyManager

abbrev ThreadLabel (ι : Type) := LockLabel ι Call Call.Reply Op Answer

/-- No thread is inside yet. -/
abbrev threadsOf (ι : Type) (m : OpenbaoKeyManager) : KmThreads ι :=
  Threads.start ι Call Call.Reply Fault Op Answer m

variable {ι : Type} [DecidableEq ι] {m : OpenbaoKeyManager} {store store' : TransitStore}

/-- One step of one of them. -/
abbrev ThreadStep (H : KmHost) :
    KmThreads ι × TransitStore → ThreadLabel ι → KmThreads ι × TransitStore → Prop :=
  LockStep mutex (code H) (TransitStep H.json)

/-- An operation that a thread has performed. -/
def callOf (c : Performed Call Call.Reply Op Answer) : KmCall := ⟨c.op, c.tr, some c.answer⟩

/-- One operation after the other is a run of the manager with its store. -/
theorem run_of_serial {s s' : OpenbaoKeyManager × TransitStore}
    {cs : List (Performed Call Call.Reply Op Answer)}
    (h : Run (Serial (code H) (TransitStep H.json)) s cs s') :
    Run (KmStep H) ⟨s.1, s.2⟩ (cs.map callOf) ⟨s'.1, s'.2⟩ := by
  induction h with
  | nil s => exact .nil _
  | cons hl _ ih => exact .cons (.returned hl.1 hl.2) ih

/-- **The threads of a process take turns.** In the order in which their operations have returned,
the manager might have performed them one after the other, with the same calls and the same
answers, up to the state that it has now; whoever is inside might have entered after the last. -/
theorem serial_of_threads {t : KmThreads ι} {ls : List (ThreadLabel ι)}
    (hrun : Run (ThreadStep H) (threadsOf ι m, store) ls (t, store')) :
    ∃ u, Run (KmStep H) ⟨m, store⟩ ((returned ls).map callOf) ⟨t.guarded, u⟩ ∧
      (∀ i x, t.inside i = some x →
        Reaches (x.op.prog H t.guarded) x.tr x.left ∧ Run (TransitStep H.json) u x.tr store') ∧
      ((∀ i x, t.inside i = some x → x.lock ≠ .acquire .exclusive) → u = store') := by
  obtain ⟨u, hserial, hinside, hstill⟩ := serial_of_run disciplined_mutex hrun
  exact ⟨u, run_of_serial hserial, hinside, hstill⟩

/-- What the sample does while it has the mutex. -/
theorem inside_sampleTrace :
    ∀ ev ∈ [ran sampleManager (.exportKey 0 3) (0, ascii "key"), crypted sampleWorld],
      ¬ mutex.acquires ev.1 ∧ ¬ mutex.releases ev.1 := by
  intro ev hev
  rcases List.mem_pair.mp hev with rfl | rfl <;> constructor <;>
    (rintro ⟨mode, heq⟩; cases heq)

theorem locking_sampleTrace : Locking mutex sampleTrace :=
  ⟨_, [_, _], _, rfl, ⟨_, rfl⟩, ⟨_, rfl⟩, inside_sampleTrace⟩

/-- The sample opens what it has sealed. -/
theorem sample_decrypts_alone {c : Bytes}
    (henc : Traces (sampleManager.encrypt sampleHost .aes256Gcm 0 (ascii "secret")) sampleTrace
      (.ret ((.ok, c), sampleManager))) :
    Traces (sampleManager.decrypt sampleHost .aes256Gcm 0 c) sampleTrace
      (.ret (.ok, ascii "secret")) := by
  let key := List.replicate 32 (7 : UInt8)
  have hne : key ≠ [] := by decide
  have hexports : ∀ ev ∈ sampleTrace, ExportsKey sampleHost key ev := by
    intro ev hev
    simp only [sampleTrace, List.mem_cons, List.not_mem_nil, or_false] at hev
    obtain rfl | rfl | rfl | rfl := hev <;> exact sampleAnswer_exportsKey _
  have hwell : sampleWorld.Decrypts := ⟨rfl, rfl, rfl, rfl, rfl, rfl, rfl, by decide⟩
  have hholds : ∃ k, sampleManager.domainKeyMap.Holds 0 k := ⟨3, sampleManager_holds.mpr ⟨rfl, rfl⟩⟩
  obtain ⟨-, hparams, htoken, k, w, hk, hsealed⟩ :=
    encrypt_direct hholds hne (wp_iff.mp (encrypt_traces _ _ _ _ _) _ _ henc) hexports
  obtain ⟨ct, hct, rfl⟩ := sealedAnswer_ok hsealed
  obtain ⟨-, rfl⟩ := sampleManager_holds.mp hk
  obtain ⟨hct₀, hct₁⟩ :=
    nativeEncrypt_length (isAead_getCipherSuite (.inl rfl)) (sampleCiphers_correct _) hct
  obtain ⟨hraw, haccepts⟩ := accepts_sealed hparams hk (by decide) hct₀ hct₁
  have hopened := openedAnswer_sealed (.inl rfl) (sampleCiphers_correct _) hwell hct hraw
  generalize base64Encode (constructCipherHeader .aes256Gcm 0 3 ++ ct) = c at hopened haccepts ⊢
  obtain ⟨tr, o, hdec, hanswers⟩ :=
    exists_answered sampleAnswer (sampleManager.decrypt sampleHost .aes256Gcm 0 c)
  have hreply : ∀ k reply, ran sampleManager (.exportKey 0 k) reply ∈ tr →
      reply = (0, ascii "key") :=
    fun k reply hmem => eq_of_heq (Sigma.mk.inj (hanswers _ hmem)).2
  have hworld : ∀ w, crypted w ∈ tr → w = sampleWorld :=
    fun w hmem => eq_of_heq (Sigma.mk.inj (hanswers _ hmem)).2
  have hgiven : exportedKey sampleHost (commandResult (0, ascii "key")) = .ok key := by
    decide +kernel
  cases id (wp_iff.mp (decrypt_traces _ _ _ _ _) _ _ hdec) with
  | refused _ hnot => exact absurd haccepts (hnot _)
  | noToken hnone => exact absurd hnone htoken
  | faulted hfault =>
    obtain rfl := hreply _ _ (List.mem_cons_of_mem _ List.mem_cons_self)
    cases hfault.symm.trans hgiven
  | noKey _ hnone =>
    obtain rfl := hreply _ _ (List.mem_cons_of_mem _ List.mem_cons_self)
    exact absurd (Except.ok.inj (hgiven.symm.trans hnone)) hne
  | @opened header reply key' w' haccepts' hkey' _ =>
    obtain rfl := hreply _ _ (List.mem_cons_of_mem _ List.mem_cons_self)
    obtain rfl := hworld w' (by simp)
    obtain rfl := Except.ok.inj (hkey'.symm.trans hgiven)
    rw [hopened, ← (sampleManager_holds.mp haccepts'.holds).2] at hdec
    exact hdec

/-- An operation with these calls reads. -/
theorem reader_sampleTrace {op : Op} {answer : Answer}
    (h : Traces (op.prog sampleHost sampleManager) sampleTrace (.ret (answer, sampleManager))) :
    Reader mutex (code sampleHost) (TransitStep sampleHost.json) sampleManager sampleStore op
      (acquired .shared)
      [ran sampleManager (.exportKey 0 3) (0, ascii "key"), crypted sampleWorld]
      (released .shared) answer := by
  have hrun := run_sampleTrace
  cases hrun with
  | cons hacquired hrest =>
    obtain rfl : _ = sampleStore := hacquired
    exact ⟨h, ⟨⟨.shared, rfl⟩, nofun⟩, inside_sampleTrace, ⟨.shared, rfl⟩, rfl, hrest⟩

/-- An encryption and a decryption that are inside at once; the second comes out first. -/
theorem serial_of_threads_readers : ∃ c ls u,
    Run (ThreadStep sampleHost) (threadsOf Bool sampleManager, sampleStore)
      (.enters true (.encrypt .aes256Gcm 0 (ascii "secret")) (acquired .shared) ::
        .enters false (.decrypt .aes256Gcm 0 c) (acquired .shared) :: ls)
      (threadsOf Bool sampleManager, sampleStore) ∧
    Run (KmStep sampleHost) sampleSystem
      [⟨.decrypt .aes256Gcm 0 c, sampleTrace, some (.bytes .ok (ascii "secret"))⟩,
        ⟨.encrypt .aes256Gcm 0 (ascii "secret"), sampleTrace, some (.bytes .ok c)⟩]
      ⟨sampleManager, u⟩ := by
  obtain ⟨c, henc⟩ := sample_encrypts_alone
  have hseals : Traces (Op.prog sampleHost sampleManager (.encrypt .aes256Gcm 0 (ascii "secret")))
      sampleTrace (.ret (.bytes .ok c, sampleManager)) := henc.bind_ret fun _ => rfl
  have hopens : Traces (Op.prog sampleHost sampleManager (.decrypt .aes256Gcm 0 c))
      sampleTrace (.ret (.bytes .ok (ascii "secret"), sampleManager)) :=
    (sample_decrypts_alone henc).bind_ret fun _ => rfl
  obtain ⟨ls, hreturned, hrun⟩ := run_readers (i := true) (j := false) (by decide)
    (reader_sampleTrace hseals) (reader_sampleTrace hopens)
  obtain ⟨u, hserial, -⟩ := serial_of_threads hrun
  refine ⟨c, ls, u, hrun, ?_⟩
  have hsame : returned (.enters true (.encrypt .aes256Gcm 0 (ascii "secret")) (acquired .shared) ::
      .enters false (.decrypt .aes256Gcm 0 c) (acquired .shared) :: ls) = returned ls := rfl
  rw [hsame, hreturned] at hserial
  exact hserial

/-! ## Several processes -/

section Processes

variable {π : Type} [DecidableEq π] {d d' : Nat} {symAlg symAlg' : CryptoSymAlg} {p c vec : Bytes}
variable {ts ts' : π → KmThreads ι} {ls : List (π × ThreadLabel ι)}

/-- **The round trip between processes.** Any number of processes use the vault, each with a manager
and threads of its own, and no key gets an id of more than sixteen bits. Where an encryption has
returned a ciphertext and nobody deletes the key that it names, a decryption of it that succeeds, in
whatever process, gave the plaintext, and was asked for in the domain of the encryption. -/
theorem opened_of_crowd (hC : ∀ symAlg, H.ciphers.Correct (getCipherSuite symAlg))
    (hrun : Run (Crowd (ThreadStep H)) (ts, store) ls (ts', store'))
    (hidle : ∀ q i, (ts q).inside i = none) (hsmall : SmallIds store)
    (hcreates : ∀ ev ∈ events ls, CreatesSmall ev.1)
    (hkept : ∀ d k, Names c d k → ∀ ev ∈ events ls, ¬ Deletes d k ev)
    {q q' : π} {i i' : ι} {ev ev' : KmEvent} {tr tr' : List KmEvent}
    (henc : (q, .leaves i ev ⟨.encrypt symAlg d p, tr, .bytes .ok c⟩) ∈ ls)
    (hdec : (q', .leaves i' ev' ⟨.decrypt symAlg' d' c, tr', .bytes .ok vec⟩) ∈ ls) :
    vec = p ∧ d' = d := by
  have hworld := world_of_crowd hrun
  obtain ⟨m, m', henc, hmem⟩ := performed_of_crowd hrun hidle henc
  obtain ⟨n, n', hdec, hmem'⟩ := performed_of_crowd hrun hidle hdec
  obtain ⟨⟨⟨rc, c'⟩, m₁⟩, hencrypt, heq⟩ := Traces.of_bind_ret (fun _ => rfl) henc
  obtain ⟨⟨rc', vec'⟩, hdecrypt, heq'⟩ := Traces.of_bind_ret (fun _ => rfl) hdec
  cases heq
  cases heq'
  obtain ⟨k, u, post, hsealed, hpost, hsub⟩ :=
    sealedIn_of_encrypt hencrypt hworld hmem hsmall hcreates
  have hnot := hkept d k (hsealed.names hC)
  have hlast := hsealed.of_run hpost fun ev hev => hnot ev (hsub ev hev)
  exact hlast.opens hC hworld hnot hdecrypt hmem'

/-- The sample neither makes a key nor deletes one. -/
theorem quiet_sampleTrace : ∀ ev ∈ sampleTrace, CreatesSmall ev.1 ∧ ∀ d k, ¬ Deletes d k ev := by
  intro ev hev
  simp only [sampleTrace, List.mem_cons, List.not_mem_nil, or_false] at hev
  obtain rfl | rfl | rfl | rfl := hev <;> exact ⟨trivial, fun _ _ h => h.elim⟩

theorem smallIds_sampleStore : SmallIds sampleStore := by
  intro d k key hkey
  unfold sampleStore at hkey
  rw [key?_insert] at hkey
  split at hkey
  next heq =>
    obtain ⟨rfl, rfl⟩ := heq
    decide
  · cases hkey

/-- One process encrypts and another decrypts. -/
theorem opened_of_crowd_sample : ∃ ls c vec d ev ev',
    Run (Crowd (ThreadStep sampleHost))
      (fun _ : Bool => threadsOf Unit sampleManager, sampleStore) ls
      (fun _ => threadsOf Unit sampleManager, sampleStore) ∧
    (false, .leaves () ev
      ⟨.encrypt .aes256Gcm 0 (ascii "secret"), sampleTrace, .bytes .ok c⟩) ∈ ls ∧
    (true, .leaves () ev' ⟨.decrypt .aes256Gcm d c, sampleTrace, .bytes .ok vec⟩) ∈ ls ∧
    vec = ascii "secret" ∧ d = 0 := by
  let process := threadsOf Unit sampleManager
  have halone : ∀ op answer,
      Traces (op.prog sampleHost sampleManager) sampleTrace (.ret (answer, sampleManager)) →
      ∃ ls ev, .leaves () ev ⟨op, sampleTrace, answer⟩ ∈ ls ∧ ls.map LockLabel.event = sampleTrace ∧
        Run (ThreadStep sampleHost) (process, sampleStore) ls (process, sampleStore) :=
    fun op answer htr => run_alone () htr run_sampleTrace locking_sampleTrace
  have hsame : ∀ b : Bool, Function.update (fun _ => process) b process = fun _ => process :=
    fun b => Function.update_eq_self b _
  obtain ⟨c, henc⟩ := sample_encrypts_alone
  obtain ⟨ls, ev, hmem, hevents, hls⟩ :=
    halone (.encrypt .aes256Gcm 0 (ascii "secret")) (.bytes .ok c) (henc.bind_ret fun _ => rfl)
  obtain ⟨ls', ev', hmem', hevents', hls'⟩ :=
    halone (.decrypt .aes256Gcm 0 c) (.bytes .ok (ascii "secret"))
      ((sample_decrypts_alone henc).bind_ret fun _ => rfl)
  have hfirst : Run (Crowd (ThreadStep sampleHost)) (fun _ => process, sampleStore)
      (ls.map (Prod.mk false)) _ := crowd_alone false hls rfl
  have hsecond : Run (Crowd (ThreadStep sampleHost)) (fun _ => process, sampleStore)
      (ls'.map (Prod.mk true)) _ := crowd_alone true hls' rfl
  rw [hsame] at hfirst hsecond
  have hrun := hfirst.append hsecond
  have hall : events (ls.map (Prod.mk false) ++ ls'.map (Prod.mk true)) =
      sampleTrace ++ sampleTrace := by
    rw [events, List.map_append, List.map_map, List.map_map]
    exact congrArg₂ (· ++ ·) hevents hevents'
  have hquiet : ∀ ev ∈ events (ls.map (Prod.mk false) ++ ls'.map (Prod.mk true)),
      CreatesSmall ev.1 ∧ ∀ d k, ¬ Deletes d k ev := by
    rw [hall]
    exact List.forall_mem_append.mpr ⟨quiet_sampleTrace, quiet_sampleTrace⟩
  have hleft := List.mem_append_left (ls'.map (Prod.mk true))
    (List.mem_map_of_mem (f := Prod.mk false) hmem)
  have hright := List.mem_append_right (ls.map (Prod.mk false))
    (List.mem_map_of_mem (f := Prod.mk true) hmem')
  refine ⟨_, c, _, _, ev, ev', hrun, hleft, hright, ?_⟩
  exact opened_of_crowd (fun _ => sampleCiphers_correct _) hrun (fun _ _ => rfl)
    smallIds_sampleStore (fun ev hev => (hquiet ev hev).1)
    (fun d k _ ev hev => (hquiet ev hev).2 d k) hleft hright

end Processes

end CdfCrypto.KeyManagement
