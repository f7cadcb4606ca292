import CdfCrypto.KeyManagement.Mirror

/-!
# A ciphertext in the later history of its key

A ciphertext names its key by domain and id, and the manager takes the material from the
vault anew for each use. So it stays readable for as long as the manager holds that id and
the store keeps exporting the same material under it (`Durable`). `SparesKey` is what one call
leaves of a key that it does not delete: it stays in the map, and the manager serves as before.

`decrypt_of_run` puts the round trip at the end of a run. Two things bound it. An automatic
update that deletes an expired key gives its name to new material, by design, and the
ciphertexts of the old one are lost (`autoUpdate_loses`, `decrypt_of_refuses`). And the header
has sixteen bits for the id, so a key that the vault lists under a larger one is not found again
(`constructCipherHeader_add`).
-/

namespace CdfCrypto.KeyManagement

open Lib OpenbaoKeyManager

/-! ## What a call leaves of a key -/

/-- No event deletes the key, and only output that no store prints leads out of all meaning. -/
structure Reads {α : Type} (H : KmHost) (d k : Nat) (tr : List KmEvent) (o : Outcome Fault α) :
    Prop where
  noDelete : ∀ ev ∈ tr, ¬ Deletes d k ev
  defined : o = .halt .undefined → ∃ ev ∈ tr, ReaderFaults H ev

/-- `m'` serves as `m` does, and has the key if `m` has it. -/
structure KeepsKey (d k : Nat) (m m' : OpenbaoKeyManager) : Prop where
  inited : m'.inited = m.inited
  domainCount : m'.domainCount = m.domainCount
  accessToken : m'.accessToken = m.accessToken
  holds : m.domainKeyMap.Holds d k → m'.domainKeyMap.Holds d k

structure SparesKey {α : Type} (H : KmHost) (d k : Nat) (m : OpenbaoKeyManager)
    (tr : List KmEvent) (o : Outcome Fault (α × OpenbaoKeyManager)) : Prop
    extends Reads H d k tr o where
  keeps : ∀ a m', o = .ret (a, m') → KeepsKey d k m m'

variable {α β : Type} {H : KmHost} {d k : Nat} {m m' : OpenbaoKeyManager} {tr tr' : List KmEvent}

theorem KeepsKey.refl (m : OpenbaoKeyManager) : KeepsKey d k m m := ⟨rfl, rfl, rfl, id⟩

theorem KeepsKey.trans {m₁ m₂ : OpenbaoKeyManager} (h₁ : KeepsKey d k m m₁)
    (h₂ : KeepsKey d k m₁ m₂) : KeepsKey d k m m₂ :=
  ⟨h₂.inited.trans h₁.inited, h₂.domainCount.trans h₁.domainCount,
    h₂.accessToken.trans h₁.accessToken, h₂.holds ∘ h₁.holds⟩

theorem keepsKey_touched (m : OpenbaoKeyManager) (d' : Nat) : KeepsKey d k m (touched m d') :=
  ⟨rfl, rfl, rfl, fun h => DomainKeyMap.holds_touch.mpr h⟩

theorem KeepsKey.of_sameButMap (h : SameButMap m m')
    (hholds : m.domainKeyMap.Holds d k → m'.domainKeyMap.Holds d k) : KeepsKey d k m m' :=
  ⟨h.inited, h.domainCount, h.accessToken, hholds⟩

/-- An execution that comes back. -/
theorem reads_ret {a : α} (hnot : ∀ ev ∈ tr, ¬ Deletes d k ev) :
    Reads H d k tr (.ret a : Outcome Fault α) :=
  ⟨hnot, fun ho => by cases ho⟩

theorem sparesKey_ret {a : α} (hnot : ∀ ev ∈ tr, ¬ Deletes d k ev) (hkeeps : KeepsKey d k m m') :
    SparesKey H d k m tr (.ret (a, m')) := by
  refine ⟨reads_ret hnot, fun a m' ho => ?_⟩
  obtain ⟨-, rfl⟩ := Prod.mk.inj (Outcome.ret.inj ho)
  exact hkeeps

/-- An execution that some output stops. -/
theorem sparesKey_halt {x : Fault} (hnot : ∀ ev ∈ tr, ¬ Deletes d k ev)
    (hfaults : ∃ ev ∈ tr, ReaderFaults H ev) :
    SparesKey H d k m tr (.halt x : Outcome Fault (α × OpenbaoKeyManager)) :=
  ⟨⟨hnot, fun _ => hfaults⟩, fun _ _ ho => by cases ho⟩

theorem Reads.map {o : Outcome Fault α} {g : α → β} (h : Reads H d k tr o) :
    Reads H d k tr (o.map g) := by
  refine ⟨h.noDelete, fun ho => h.defined ?_⟩
  cases o with
  | ret a => cases ho
  | halt x =>
    obtain rfl := Outcome.halt.inj ho
    rfl

/-- An answer dressed up, with the manager left as it is. -/
theorem SparesKey.map {o : Outcome Fault (α × OpenbaoKeyManager)}
    {g : α × OpenbaoKeyManager → β × OpenbaoKeyManager} (h : SparesKey H d k m tr o)
    (hg : ∀ a, (g a).2 = a.2) : SparesKey H d k m tr (o.map g) := by
  refine ⟨h.toReads.map, fun a m' ho => ?_⟩
  cases o with
  | ret b =>
    obtain rfl : m' = b.2 := by rw [← hg b, Outcome.ret.inj ho]
    exact h.keeps b.1 b.2 rfl
  | halt x => cases ho

/-- An answer given with the manager that was there before. -/
theorem Reads.sparesKey {o : Outcome Fault α} {g : α → β × OpenbaoKeyManager}
    (h : Reads H d k tr o) (hg : ∀ a, (g a).2 = m) : SparesKey H d k m tr (o.map g) := by
  refine ⟨h.map, fun a m' ho => ?_⟩
  cases o with
  | ret b =>
    obtain rfl : m' = m := by rw [← hg b, Outcome.ret.inj ho]
    exact .refl m'
  | halt x => cases ho

section Append

theorem noDelete_append (h : ∀ ev ∈ tr, ¬ Deletes d k ev) (h' : ∀ ev ∈ tr', ¬ Deletes d k ev) :
    ∀ ev ∈ tr ++ tr', ¬ Deletes d k ev := by
  intro ev hev
  rcases List.mem_append.mp hev with hev | hev
  · exact h ev hev
  · exact h' ev hev

theorem noDelete_acquired {mode : LockMode} (h : ∀ ev ∈ tr, ¬ Deletes d k ev) :
    ∀ ev ∈ acquired mode :: tr, ¬ Deletes d k ev := by
  intro ev hev
  rcases List.mem_cons.mp hev with rfl | hev
  · exact id
  · exact h ev hev

end Append

/-! ## Operations that make keys -/

theorem CreateKeyTrace.sparesKey {d' : Nat} {o : Outcome Fault ((KeyManagerRC × Nat) × _)}
    (h : CreateKeyTrace H m d' tr o) : SparesKey H d k m tr o := by
  cases h with
  | invalid _ => exact sparesKey_ret (by simp [Deletes, acquired, released]) (.refl m)
  | @faulted id r₁ r₂ r₃ x _ _ h₃ htime =>
    refine sparesKey_halt (by simp [Deletes, acquired, ran]) ?_
    exact ⟨ran m (.read d' id) r₃, by simp, h₃, x, htime⟩
  | created _ _ _ _ _ _ _ _ =>
    refine sparesKey_ret (by simp [Deletes, acquired, released, ran]) ⟨rfl, rfl, rfl, ?_⟩
    exact fun h => DomainKeyMap.holds_addKey.mpr (.inr (DomainKeyMap.holds_touch.mpr h))
  | _ =>
    exact sparesKey_ret (by simp [Deletes, acquired, released, ran]) (keepsKey_touched m d')

theorem GetLatestKeyTrace.sparesKey {d' id : Nat} {o : Outcome Fault ((Bytes × Nat) × _)}
    (h : GetLatestKeyTrace H m d' id tr o) : SparesKey H d k m tr o := by
  cases h with
  | refused _ => exact sparesKey_ret (by simp) (.refl m)
  | noKey _ => exact sparesKey_ret (by simp) (keepsKey_touched m d')
  | noToken _ => exact sparesKey_ret (by simp) (keepsKey_touched m d')
  | @faulted k' reply x _ _ hkey =>
    refine sparesKey_halt (by simp [Deletes, ran]) ?_
    exact ⟨ran m (.exportKey d' k') reply, by simp, x, hkey⟩
  | exported _ _ _ => exact sparesKey_ret (by simp [Deletes, ran]) (keepsKey_touched m d')

theorem EncryptTrace.sparesKey {symAlg : CryptoSymAlg} {d' : Nat} {plaintext : Bytes}
    {o : Outcome Fault ((KeyManagerRC × Bytes) × _)} (h : EncryptTrace H m symAlg d' plaintext tr o) :
    SparesKey H d k m tr o := by
  cases h with
  | refused _ _ => exact sparesKey_ret (by simp [Deletes, acquired, released]) (.refl m)
  | @faulted k' reply x _ _ hkey =>
    refine sparesKey_halt (by simp [Deletes, acquired, ran]) ?_
    exact ⟨ran m (.exportKey d' k') reply, by simp, x, hkey⟩
  | direct _ _ _ _ _ =>
    exact sparesKey_ret (by simp [Deletes, acquired, released, ran, crypted])
      (keepsKey_touched m d')
  -- in the other cases the three callees follow each other
  | createFaulted _ _ hfirst hcreate =>
    have h₁ := hfirst.sparesKey (d := d) (k := k)
    have h₂ := hcreate.sparesKey (d := d) (k := k)
    refine ⟨⟨noDelete_acquired (noDelete_append h₁.noDelete h₂.noDelete), fun hx => ?_⟩,
      fun _ _ ho => by cases ho⟩
    obtain rfl := Outcome.halt.inj hx
    obtain ⟨ev, hev, hfaults⟩ := h₂.defined rfl
    exact ⟨ev, List.mem_cons_of_mem _ (List.mem_append_right _ hev), hfaults⟩
  | createFailed _ _ hfirst hcreate =>
    have h₁ := hfirst.sparesKey (d := d) (k := k)
    have h₂ := hcreate.sparesKey (d := d) (k := k)
    refine sparesKey_ret ?_ ((h₁.keeps _ _ rfl).trans (h₂.keeps _ _ rfl))
    exact noDelete_acquired (noDelete_append h₁.noDelete
      (noDelete_append h₂.noDelete (by simp [Deletes, released])))
  | secondFaulted _ _ hfirst hcreate hsecond =>
    have h₁ := hfirst.sparesKey (d := d) (k := k)
    have h₂ := hcreate.sparesKey (d := d) (k := k)
    have h₃ := hsecond.sparesKey (d := d) (k := k)
    refine ⟨⟨noDelete_acquired (noDelete_append h₁.noDelete
      (noDelete_append h₂.noDelete h₃.noDelete)), fun hx => ?_⟩, fun _ _ ho => by cases ho⟩
    obtain rfl := Outcome.halt.inj hx
    obtain ⟨ev, hev, hfaults⟩ := h₃.defined rfl
    refine ⟨ev, List.mem_cons_of_mem _ (List.mem_append_right _ ?_), hfaults⟩
    exact List.mem_append_right _ hev
  | recreated _ _ hfirst hcreate hsecond =>
    have h₁ := hfirst.sparesKey (d := d) (k := k)
    have h₂ := hcreate.sparesKey (d := d) (k := k)
    have h₃ := hsecond.sparesKey (d := d) (k := k)
    refine sparesKey_ret ?_
      (((h₁.keeps _ _ rfl).trans (h₂.keeps _ _ rfl)).trans (h₃.keeps _ _ rfl))
    exact noDelete_acquired (noDelete_append h₁.noDelete (noDelete_append h₂.noDelete
      (noDelete_append h₃.noDelete (by simp [Deletes, crypted, released]))))

/-! ## Operations that only read -/

theorem DecryptTrace.reads {symAlg : CryptoSymAlg} {d' : Nat} {ciphertext : Bytes}
    {o : Outcome Fault (KeyManagerRC × Bytes)} (h : DecryptTrace H m symAlg d' ciphertext tr o) :
    Reads H d k tr o := by
  cases h with
  | refused _ _ => exact reads_ret (by simp [Deletes, acquired, released])
  | noToken _ => exact reads_ret (by simp [Deletes, acquired, released])
  | @faulted k' reply x hkey =>
    refine ⟨by simp [Deletes, acquired, ran], fun _ => ?_⟩
    exact ⟨ran m (.exportKey d' k') reply, by simp, x, hkey⟩
  | noKey _ _ => exact reads_ret (by simp [Deletes, acquired, released, ran])
  | opened _ _ _ => exact reads_ret (by simp [Deletes, acquired, released, ran, crypted])

theorem addInt64_error {a b : Int} {e : Fault} (h : addInt64 a b = .error e) : e = .overflow := by
  unfold addInt64 at h
  split at h
  · cases h
  · exact (Except.error.inj h).symm

theorem mapM_error {α β : Type} {f : α → Except Fault β} {P : Fault → Prop}
    (hf : ∀ a e, f a = .error e → P e) : ∀ {as : List α} {e : Fault},
    as.mapM f = .error e → P e := by
  intro as
  induction as with
  | nil =>
    intro e h
    cases h
  | cons a as ih =>
    intro e h
    rw [List.mapM_cons] at h
    cases ha : f a with
    | error e' =>
      rw [ha] at h
      obtain rfl := Except.error.inj h
      exact hf a _ ha
    | ok b =>
      rw [ha] at h
      cases has : as.mapM f with
      | error e' =>
        rw [has] at h
        obtain rfl := Except.error.inj h
        exact ih has
      | ok bs =>
        rw [has] at h
        cases h

theorem displayKeys_error {d : Nat} {keys : List (Nat × Int)} {e : Fault}
    (h : displayKeys d keys = .error e) : e = .overflow := by
  have hline : ∀ (key : Nat × Int) (e : Fault), displayLine d key.1 key.2 = .error e →
      e = .overflow := by
    intro key e hline
    unfold displayLine at hline
    cases hsum : addInt64 key.2 openbaoMaxMasterKeyValidTime with
    | error e' =>
      rw [hsum] at hline
      obtain rfl := Except.error.inj hline
      exact addInt64_error hsum
    | ok expireTime =>
      rw [hsum] at hline
      cases hline
  unfold displayKeys at h
  cases hlines : keys.mapM fun key => displayLine d key.1 key.2 with
  | error e' =>
    rw [hlines] at h
    obtain rfl := Except.error.inj h
    exact mapM_error hline hlines
  | ok lines =>
    rw [hlines] at h
    cases h

theorem foundValidKey_error {testTime : Nat} {keys : List (Nat × Int)} :
    ∀ {found : Bool} {e : Fault}, foundValidKey testTime keys found = .error e → e = .overflow := by
  induction keys with
  | nil =>
    intro found e h
    cases h
  | cons key keys ih =>
    intro found e h
    unfold foundValidKey at h
    cases hsum : addInt64 key.2 openbaoMaxMasterKeyValidTime with
    | error e' =>
      rw [hsum] at h
      obtain rfl := Except.error.inj h
      exact addInt64_error hsum
    | ok expireTime =>
      rw [hsum] at h
      exact ih h

/-- An answer given at once, under the mutex. -/
theorem wp_locked_ret {mode : LockMode} (a : α) :
    wp (locked mode (.ret a)) (Reads H d k) :=
  wp_locked.mpr (reads_ret (by simp [Deletes, acquired, released]))

/-- A body of arithmetic under the mutex: the only fault is the trap. -/
theorem wp_locked_ofExcept {mode : LockMode} {x : Except Fault α} {f : α → β}
    (hx : ∀ e, x = .error e → e = .overflow) :
    wp (locked mode (.ofExcept x >>= fun a => .ret (f a))) (Reads H d k) := by
  refine wp_locked.mpr ?_
  cases x with
  | ok a => exact reads_ret (by simp [Deletes, acquired, released])
  | error e =>
    refine ⟨by simp [Deletes, acquired], fun ho => ?_⟩
    obtain rfl := hx e rfl
    cases ho

theorem displayKey_reads (H : KmHost) (m : OpenbaoKeyManager) (d' : Nat) :
    wp (m.displayKey d') (Reads H d k) := by
  unfold OpenbaoKeyManager.displayKey
  split
  · exact wp_locked_ret _
  split
  · exact wp_locked_ret _
  split
  · exact wp_locked_ret _
  · exact wp_locked_ofExcept fun e he => displayKeys_error he

theorem displayAllKey_reads (H : KmHost) (m : OpenbaoKeyManager) :
    wp m.displayAllKey (Reads H d k) := by
  unfold OpenbaoKeyManager.displayAllKey
  split
  · exact wp_locked_ret _
  split
  · exact wp_locked_ret _
  · exact wp_locked_ofExcept fun e he => mapM_error (fun _ _ h => displayKeys_error h) he

theorem checkDomainKeysExpired_reads (H : KmHost) (m : OpenbaoKeyManager) (d' lead : Nat) :
    wp (m.checkDomainKeysExpired d' lead) (Reads H d k) := by
  have hret : ∀ (time : Int) (a : KeyManagerRC),
      Reads H d k [acquired .shared, ⟨.time, time⟩, released .shared]
        (.ret a : Outcome Fault KeyManagerRC) := fun time a =>
    reads_ret (by simp [Deletes, acquired, released])
  unfold OpenbaoKeyManager.checkDomainKeysExpired
  rw [wp_locked, Prog.perform_bind]
  intro time
  dsimp only
  split
  · exact hret time _
  split
  · exact hret time _
  split
  · exact hret time _
  split
  · exact hret time _
  split
  · exact hret time _
  split
  · exact hret time _
  split
  · exact hret time _
  refine wp_ofExcept_bind (fun found _ => hret time _) fun e he => ?_
  refine ⟨by simp [Deletes, acquired], fun ho => ?_⟩
  obtain rfl := foundValidKey_error he
  cases ho

/-! ## Every operation -/

/-- The call spares the key: it is no `UnInit` and no `DeleteAllKey`, it has not removed the key,
and no automatic update in it has deleted the key. -/
def Spares (d k : Nat) (call : KmCall) : Prop :=
  match call.op with
  | .unInit => False
  | .deleteAllKey => False
  | .removeKey d' k' => ¬ ((d' = d ∧ k' = k) ∧ call.answer = some (.code .ok))
  | .checkDomainKeysExpiredAndAutoUpdate _ _ => ∀ ev ∈ call.tr, ¬ Deletes d k ev
  | _ => True

/-- The answer of an execution that has one. -/
def answer? : Outcome Fault (Answer × OpenbaoKeyManager) → Option Answer
  | .ret (answer, _) => some answer
  | .halt _ => none

/-- **One call.** A call that spares a key leaves it in the map and does not delete it. -/
theorem prog_sparesKey {op : Op} (hinited : m.inited = true) :
    wp (op.prog H m) fun tr o => Spares d k ⟨op, tr, answer? o⟩ → SparesKey H d k m tr o := by
  cases op with
  | init exePath accessToken domainCount =>
    -- a manager that is ready is left alone
    have hinit : m.init H exePath accessToken domainCount = locked .exclusive (.ret (.ok .ok, m)) := by
      unfold OpenbaoKeyManager.init
      rw [if_pos hinited]
    unfold Op.prog
    dsimp only
    rw [hinit]
    exact fun _ _ _ => sparesKey_ret (by simp [Deletes]) (.refl m)
  | unInit => exact fun hspares => hspares.elim
  | setType type => exact fun _ => sparesKey_ret (by simp) ⟨rfl, rfl, rfl, id⟩
  | createKey d' =>
    refine (wp_bind_ret fun _ => rfl).mpr (wp_mono (createKey_traces H m d') fun tr o h _ => ?_)
    exact h.sparesKey.map fun _ => rfl
  | removeKey d' k' =>
    refine (wp_bind_ret fun _ => rfl).mpr (wp_mono (removeKey_traces m d' k') fun tr o h hspares => ?_)
    refine SparesKey.map ?_ fun _ => rfl
    cases h with
    | refused _ => exact sparesKey_ret (by simp [Deletes, acquired, released]) (.refl m)
    | failed hdelete =>
      exact sparesKey_ret (by simp [Deletes, acquired, released, ran, hdelete]) (.refl m)
    | removed _ _ =>
      have hne : ¬ (d' = d ∧ k' = k) := fun heq => hspares ⟨heq, rfl⟩
      refine sparesKey_ret ?_ (.of_sameButMap rfl fun hholds => ?_)
      · simp only [List.mem_cons, List.not_mem_nil, or_false]
        intro ev hmem
        obtain rfl | rfl | rfl := hmem
        · exact id
        · exact fun hdel => hne hdel.1
        · exact id
      · exact DomainKeyMap.holds_dropIfEmpty.mpr (DomainKeyMap.holds_eraseKey.mpr ⟨hne, hholds⟩)
  | deleteAllKey => exact wp_iff.mpr fun _ _ _ hspares => hspares.elim
  | displayKey d' =>
    have hreads := displayKey_reads (d := d) (k := k) H m d'
    exact (wp_bind_ret fun _ => rfl).mpr (wp_mono hreads fun tr o h _ => h.sparesKey fun _ => rfl)
  | displayAllKey =>
    have hreads := displayAllKey_reads (d := d) (k := k) H m
    exact (wp_bind_ret fun _ => rfl).mpr (wp_mono hreads fun tr o h _ => h.sparesKey fun _ => rfl)
  | checkDomainKeysExpired d' lead =>
    have hreads := checkDomainKeysExpired_reads (d := d) (k := k) H m d' lead
    exact (wp_bind_ret fun _ => rfl).mpr (wp_mono hreads fun tr o h _ => h.sparesKey fun _ => rfl)
  | checkDomainKeysExpiredAndAutoUpdate d' lead =>
    refine (wp_bind_ret fun _ => rfl).mpr
      (wp_mono (autoUpdate_updated H m d' lead) fun tr o h hspares => ?_)
    refine SparesKey.map ?_ fun _ => rfl
    cases o with
    | ret a => exact sparesKey_ret hspares (.of_sameButMap h.sameButMap (h.kept d k))
    | halt x => exact sparesKey_halt hspares h
  | getLatestKey d' id =>
    refine (wp_bind_ret fun _ => rfl).mpr (wp_mono (getLatestKey_traces H m d' id) fun tr o h _ => ?_)
    exact h.sparesKey.map fun _ => rfl
  | encrypt symAlg d' plaintext =>
    refine (wp_bind_ret fun _ => rfl).mpr
      (wp_mono (encrypt_traces H m symAlg d' plaintext) fun tr o h _ => ?_)
    exact h.sparesKey.map fun _ => rfl
  | decrypt symAlg d' ciphertext =>
    refine (wp_bind_ret fun _ => rfl).mpr
      (wp_mono (decrypt_traces H m symAlg d' ciphertext) fun tr o h _ => ?_)
    exact h.reads.sparesKey fun _ => rfl

/-! ## Runs -/

/-- The manager can use the key, and the store exports `material` for it. -/
structure Durable (d k : Nat) (material : Bytes) (s : KmSystem) : Prop where
  inited : s.manager.inited = true
  accessToken : s.manager.accessToken ≠ []
  domain : d < s.manager.domainCount.1
  holds : s.manager.domainKeyMap.Holds d k
  stored : ∃ key, s.store.key? d k = some key ∧ key.exportable = true ∧ key.exported = material

/-- A call that spares a key leaves it in the store. -/
theorem KmStep.grows {s s' : KmSystem} {call : KmCall} {key : TransitKey} (hstep : KmStep H s call s')
    (hinited : s.manager.inited = true) (hspares : Spares d k call)
    (hkey : s.store.key? d k = some key) : ∃ key', s'.store.key? d k = some key' ∧ key.Grows key' := by
  cases hstep with
  | returned htr hstore =>
    exact grows_of_run hstore hkey (wp_iff.mp (prog_sparesKey hinited) _ _ htr hspares).noDelete
  | undefined htr hstore =>
    obtain ⟨ev, hev, hfaults⟩ := (wp_iff.mp (prog_sparesKey hinited) _ _ htr hspares).defined rfl
    exact absurd hfaults (not_readerFaults_of_run hstore ev hev)

theorem Durable.step {material : Bytes} {s s' : KmSystem} {call : KmCall}
    (h : Durable d k material s) (hspares : Spares d k call) (hstep : KmStep H s call s') :
    Durable d k material s' := by
  cases id hstep with
  | returned htr hstore =>
    have hcall := wp_iff.mp (prog_sparesKey h.inited) _ _ htr hspares
    have hkeeps := hcall.keeps _ _ rfl
    obtain ⟨key, hkey, hexportable, hmaterial⟩ := h.stored
    obtain ⟨key', hkey', hgrows⟩ := hstep.grows h.inited hspares hkey
    refine ⟨hkeeps.inited.trans h.inited, ?_, ?_, hkeeps.holds h.holds,
      key', hkey', hgrows.exportable hexportable, hgrows.exported.trans hmaterial⟩
    · exact fun hnil => h.accessToken (hkeeps.accessToken.symm.trans hnil)
    · show d < OpenbaoKeyManager.domainCount _
      rw [hkeeps.domainCount]
      exact h.domain
  | undefined htr hstore =>
    have hcall := wp_iff.mp (prog_sparesKey h.inited) _ _ htr hspares
    obtain ⟨ev, hev, hfaults⟩ := hcall.defined rfl
    exact absurd hfaults (not_readerFaults_of_run hstore ev hev)

/-- **Durability of a key.** It outlives every run of calls that spare it. -/
theorem Durable.of_run {material : Bytes} {s s' : KmSystem} {calls : List KmCall}
    (h : Durable d k material s)
    (hrun : Run (Guarded (fun _ => Spares d k) (KmStep H)) s calls s') : Durable d k material s' :=
  Run.invariant (I := Durable d k material) (fun _ _ _ h hstep => h.step hstep.1 hstep.2) hrun h

/-! ## The ciphertext -/

/-- The key of the last export. -/
def usedKey (tr : List KmEvent) : Option (Nat × Nat) :=
  tr.foldl (fun used ev =>
    match ev with
    | ⟨.run _ _ (.exportKey d k), _⟩ => some (d, k)
    | _ => used) none

theorem usedKey_append (pre : List KmEvent) (d k : Nat) (reply : Int × Bytes) (w : OpensslWorld)
    (mode : LockMode) :
    usedKey (pre ++ [ran m (.exportKey d k) reply, crypted w, released mode]) = some (d, k) := by
  unfold usedKey
  rw [List.foldl_append]
  rfl

/-- How an encryption that succeeds ends: with the export of a key of the map, and the native
encryption under it. -/
theorem EncryptTrace.ends {symAlg : CryptoSymAlg} {plaintext c : Bytes}
    (h : EncryptTrace H m symAlg d plaintext tr (.ret ((.ok, c), m'))) :
    ∃ pre m₂ k reply key w,
      tr = pre ++ [ran m₂ (.exportKey d k) reply, crypted w, released .shared] ∧
      exportedKey H (commandResult reply) = .ok key ∧ key ≠ [] ∧
      sealedAnswer H w symAlg d k plaintext key = (.ok, c) ∧ m'.domainKeyMap.Holds d k ∧
      m.checkEncryptAndDecryptParams d symAlg = .ok ∧ m'.accessToken ≠ [] := by
  generalize ho : (Outcome.ret ((KeyManagerRC.ok, c), m') : Outcome Fault _) = o at h
  cases h with
  | refused hrc _ =>
    obtain ⟨⟨rfl, -⟩, -⟩ := Prod.mk.inj (Outcome.ret.inj ho) |>.imp_left Prod.mk.inj
    exact absurd rfl hrc
  | faulted _ _ _ => cases ho
  | @direct k reply key w hparams htoken hmax hkey hne =>
    obtain ⟨hc, rfl⟩ := Prod.mk.inj (Outcome.ret.inj ho)
    exact ⟨[acquired .shared], m, k, reply, key, w, rfl, hkey, hne, hc.symm,
      DomainKeyMap.holds_touch.mpr (DomainKeyMap.holds_lastKey? hmax), hparams, htoken⟩
  | createFaulted _ _ _ _ => cases ho
  | createFailed _ _ _ _ => cases ho
  | secondFaulted _ _ _ _ _ => cases ho
  | @recreated id k rc m₁ m₂ m₃ tr₀ tr₁ tr₂ key w hparams _ _ _ hsecond =>
    obtain ⟨hc, rfl⟩ := Prod.mk.inj (Outcome.ret.inj ho)
    obtain ⟨ct, hct, -⟩ := sealedAnswer_ok hc.symm
    have hne := nativeEncrypt_key_ne_nil hct
    cases hsecond with
    | @exported k reply key htoken hmax hkey =>
      refine ⟨acquired .shared :: (tr₀ ++ tr₁), m₂, k, reply, key, w, by simp, hkey, hne, hc.symm,
        DomainKeyMap.holds_touch.mpr (DomainKeyMap.holds_lastKey? hmax), hparams, htoken⟩
    | _ => exact absurd rfl hne

/-- An encryption that returns OK leaves its key durable, and the ciphertext is sealed under what
the store exports for it. -/
theorem durable_of_encrypt {s s' : KmSystem} {symAlg : CryptoSymAlg} {plaintext c : Bytes}
    (henc : KmStep H s ⟨.encrypt symAlg d plaintext, tr, some (.bytes .ok c)⟩ s')
    (hused : usedKey tr = some (d, k)) :
    ∃ material w, Durable d k material s' ∧ material ≠ [] ∧
      sealedAnswer H w symAlg d k plaintext material = (.ok, c) ∧
      (symAlg = .aes256Gcm ∨ symAlg = .chacha20Poly1305) := by
  have htraces : wp (Op.prog H s.manager (.encrypt symAlg d plaintext)) fun tr o =>
      ∀ m', o = .ret (.bytes .ok c, m') →
        EncryptTrace H s.manager symAlg d plaintext tr (.ret ((.ok, c), m')) := by
    refine (wp_bind_ret fun _ => rfl).mpr (wp_mono (encrypt_traces H s.manager symAlg d plaintext) ?_)
    intro tr o h m' ho
    cases o with
    | ret a =>
      obtain ⟨⟨rc, vec⟩, m₁⟩ := a
      obtain ⟨hanswer, rfl⟩ := Prod.mk.inj (Outcome.ret.inj ho)
      obtain ⟨rfl, rfl⟩ := Answer.bytes.inj hanswer
      exact h
    | halt x => cases ho
  cases henc with
  | @returned _ _ _ m' store htr hstore =>
    have htrace := wp_iff.mp htraces _ _ htr m' rfl
    have hkeeps := htrace.sparesKey (d := d) (k := k) |>.keeps _ _ rfl
    obtain ⟨pre, m₂, k', reply, key, w, rfl, hkey, hne, hsealed, hholds, hparams, htoken⟩ :=
      htrace.ends
    obtain ⟨-, rfl⟩ := Prod.mk.inj (Option.some.inj ((usedKey_append _ _ _ _ _ _).symm.trans hused))
    obtain ⟨hinited, -, hdomain, halg⟩ := checkEncryptAndDecryptParams_eq_ok.mp hparams
    have hs : Succeeded reply := by
      by_contra hfailed
      exact hne (Except.ok.inj (hkey.symm.trans (exportedKey_of_not_succeeded hfailed)))
    -- the export and what follows it leave the stored key as it is
    obtain ⟨store₁, -, hrest⟩ := Run.split pre _ hstore
    have hexport : ∃ stored, store₁.key? d k' = some stored ∧ stored.exportable = true ∧
        exportedKey H (commandResult reply) = .ok stored.exported := by
      cases hrest with
      | cons hexport _ => exact TransitStep.exported hexport hs
    obtain ⟨stored, hstored, hexportable, hexported⟩ := hexport
    obtain rfl : key = stored.exported := Except.ok.inj (hkey.symm.trans hexported)
    obtain ⟨stored', hstored', hgrows⟩ := grows_of_run hrest hstored (by
      simp [Deletes, ran, crypted, released])
    refine ⟨stored.exported, w, ⟨hkeeps.inited.trans hinited, htoken, ?_, hholds, stored', hstored',
      hgrows.exportable hexportable, hgrows.exported⟩, hne, hsealed, halg⟩
    show d < m'.domainCount.1
    rw [hkeeps.domainCount]
    exact hdomain

/-- An export does not fail on its own: where the store has an exportable key, it succeeds. -/
def ExportsWhereItCan (store : TransitStore) : KmEvent → Prop
  | ⟨.run _ _ (.exportKey d k), reply⟩ => ∀ key, store.key? d k = some key →
    key.exportable = true → Succeeded reply
  | _ => True

/-- `Decrypt` accepts what is sealed under a durable key. -/
theorem Durable.accepts {s : KmSystem} {symAlg : CryptoSymAlg} {plaintext material key ct : Bytes}
    {w : OpensslWorld} (h : Durable d k material s) (hC : H.ciphers.Correct (getCipherSuite symAlg))
    (hk : k ≤ 65535) (halg : symAlg = .aes256Gcm ∨ symAlg = .chacha20Poly1305)
    (hct : nativeEncrypt H.ciphers w symAlg plaintext key = (.ok, ct)) :
    bas64DecodeCipherText (base64Encode (constructCipherHeader symAlg d k ++ ct)) =
        constructCipherHeader symAlg d k ++ ct ∧
      Accepts s.manager symAlg d (base64Encode (constructCipherHeader symAlg d k ++ ct))
        ⟨symAlg, d, k⟩ := by
  obtain ⟨hct₀, hct₁⟩ := nativeEncrypt_length (isAead_getCipherSuite halg) hC hct
  have hparams : s.manager.checkEncryptAndDecryptParams d symAlg = .ok :=
    checkEncryptAndDecryptParams_eq_ok.mpr ⟨h.inited, h.holds.mem, h.domain, halg⟩
  exact accepts_sealed hparams h.holds hk hct₀ hct₁

/-- **Reading with a durable key.** -/
theorem decrypt_of_durable {s : KmSystem} {store : TransitStore} {symAlg : CryptoSymAlg}
    {plaintext material c : Bytes} {w : OpensslWorld} {o : Outcome Fault (KeyManagerRC × Bytes)}
    (hC : H.ciphers.Correct (getCipherSuite symAlg)) (hk : k ≤ 65535)
    (halg : symAlg = .aes256Gcm ∨ symAlg = .chacha20Poly1305) (h : Durable d k material s)
    (hne : material ≠ []) (hsealed : sealedAnswer H w symAlg d k plaintext material = (.ok, c))
    (hdec : Traces (s.manager.decrypt H symAlg d c) tr o)
    (hstore : Run (TransitStep H.json) s.store tr store)
    (hworld : ∀ ev ∈ tr, ExportsWhereItCan s.store ev ∧ NativeDecrypts ev) :
    o = .ret (.ok, plaintext) := by
  obtain ⟨ct, hct, rfl⟩ := sealedAnswer_ok hsealed
  obtain ⟨hraw, haccepts⟩ := h.accepts hC hk halg hct
  obtain ⟨key, hkey, hexportable, hmaterial⟩ := h.stored
  -- the export of `Decrypt` gives the material again
  have hexport : ∀ {header : CipherHeader} {reply : Int × Bytes} {given : Bytes} {rest : List KmEvent},
      Accepts s.manager symAlg d (base64Encode (constructCipherHeader symAlg d k ++ ct)) header →
      exportedKey H (commandResult reply) = .ok given →
      tr = acquired .shared :: ran s.manager (.exportKey d header.keyId) reply :: rest →
      given = material := by
    intro header reply given rest haccepts' hgiven heq
    subst heq
    obtain rfl := Option.some.inj (haccepts'.parsed.symm.trans haccepts.parsed)
    have hs : Succeeded reply :=
      (hworld _ (List.mem_cons_of_mem _ List.mem_cons_self)).1 key hkey hexportable
    cases hstore with
    | cons hacquire hrest =>
      obtain rfl := hacquire
      cases hrest with
      | cons hstep _ =>
        obtain ⟨key', hkey', -, hexported⟩ := TransitStep.exported hstep hs
        obtain rfl := Option.some.inj (hkey.symm.trans hkey')
        exact (Except.ok.inj (hgiven.symm.trans hexported)).trans hmaterial
  cases wp_iff.mp (decrypt_traces H s.manager symAlg d _) _ _ hdec with
  | refused _ hnot => exact absurd haccepts (hnot _)
  | noToken hnone => exact absurd hnone h.accessToken
  | @faulted k' reply x hfault =>
    refine absurd ?_ (not_readerFaults_of_run hstore (ran s.manager (.exportKey d k') reply) (by simp))
    exact ⟨x, hfault⟩
  | noKey haccepts' hnone => exact absurd (hexport haccepts' hnone rfl).symm hne
  | opened haccepts' hgiven _ =>
    obtain rfl := hexport haccepts' hgiven rfl
    have hw' := (hworld _ (List.mem_cons_of_mem _ (List.mem_cons_of_mem _ List.mem_cons_self))).2
    rw [openedAnswer_sealed halg hC hw' hct hraw]

/-- **Durability of ciphertexts.** What `Encrypt` has returned under a key with an id of sixteen
bits, `Decrypt` opens after every run of calls that spare the key. -/
theorem decrypt_of_run {s₀ s₁ s₂ : KmSystem} {calls : List KmCall} {store : TransitStore}
    {symAlg : CryptoSymAlg} {plaintext c : Bytes} {o : Outcome Fault (KeyManagerRC × Bytes)}
    (hC : H.ciphers.Correct (getCipherSuite symAlg))
    (henc : KmStep H s₀ ⟨.encrypt symAlg d plaintext, tr, some (.bytes .ok c)⟩ s₁)
    (hused : usedKey tr = some (d, k)) (hk : k ≤ 65535)
    (hrun : Run (Guarded (fun _ => Spares d k) (KmStep H)) s₁ calls s₂)
    (hdec : Traces (s₂.manager.decrypt H symAlg d c) tr' o)
    (hstore : Run (TransitStep H.json) s₂.store tr' store)
    (hworld : ∀ ev ∈ tr', ExportsWhereItCan s₂.store ev ∧ NativeDecrypts ev) :
    o = .ret (.ok, plaintext) := by
  obtain ⟨material, w, hdurable, hne, hsealed, halg⟩ := durable_of_encrypt henc hused
  exact decrypt_of_durable hC hk halg (hdurable.of_run hrun) hne hsealed hdec hstore hworld

/-- Two ids that differ by `2 ^ 16` have the same header. -/
theorem constructCipherHeader_add (symAlg : CryptoSymAlg) (d k : Nat) :
    constructCipherHeader symAlg d (k + 65536) = constructCipherHeader symAlg d k := by
  have hbyte : ∀ {a b : Nat}, a % 256 = b % 256 → (a &&& 0xff).toUInt8 = (b &&& 0xff).toUInt8 := by
    intro a b h
    refine UInt8.toNat_inj.mp ?_
    rw [toNat_toUInt8_and, toNat_toUInt8_and, h]
  unfold constructCipherHeader
  rw [hbyte (a := k + 65536) (b := k) (by omega), hbyte (a := (k + 65536) >>> 8) (b := k >>> 8)]
  simp only [Nat.shiftRight_eq_div_pow]
  omega

/-! ## A key that the store does not export -/

/-- **A lost ciphertext.** Where the store would not export the key that a ciphertext names, no
execution of `Decrypt` succeeds. -/
theorem decrypt_of_refuses {s : KmSystem} {store : TransitStore} {symAlg : CryptoSymAlg}
    {c vec : Bytes} (hheader : readCipherHeader (bas64DecodeCipherText c) = some ⟨symAlg, d, k⟩)
    (hrefuses : Refuses s.store d k)
    (hdec : Traces (s.manager.decrypt H symAlg d c) tr (.ret (.ok, vec)))
    (hstore : Run (TransitStep H.json) s.store tr store) : False := by
  generalize ho : (Outcome.ret (KeyManagerRC.ok, vec) : Outcome Fault _) = o at hdec
  cases wp_iff.mp (decrypt_traces H s.manager symAlg d c) _ _ hdec with
  | refused hrc _ =>
    obtain ⟨rfl, -⟩ := Prod.mk.inj (Outcome.ret.inj ho)
    exact hrc rfl
  | noToken _ => cases ho
  | faulted _ => cases ho
  | noKey _ _ => cases ho
  | @opened header reply key w haccepts hkey hne =>
    obtain rfl := Option.some.inj (hheader.symm.trans haccepts.parsed)
    cases hstore with
    | cons hacquire hrest =>
      obtain rfl := hacquire
      cases hrest with
      | cons hstep _ =>
        by_cases hs : Succeeded reply
        · obtain ⟨stored, hstored, hexportable, -⟩ := TransitStep.exported hstep hs
          cases (hrefuses stored hstored).symm.trans hexportable
        · exact hne (Except.ok.inj (hkey.symm.trans (exportedKey_of_not_succeeded hs)))

/-- Where a text with a header is decrypted, the only key asked for is the one it names, and a
store that would not export it may well refuse. -/
theorem DecryptTrace.exportsWhereItCan {store : TransitStore} {symAlg : CryptoSymAlg} {c : Bytes}
    {o : Outcome Fault (KeyManagerRC × Bytes)} (h : DecryptTrace H m symAlg d c tr o)
    (hheader : readCipherHeader (bas64DecodeCipherText c) = some ⟨symAlg, d, k⟩)
    (hrefuses : Refuses store d k) (hquiet : ∀ ev ∈ tr, ¬ ReaderFaults H ev) :
    ∀ ev ∈ tr, ExportsWhereItCan store ev := by
  have hexport : ∀ {header : CipherHeader} {reply : Int × Bytes}, Accepts m symAlg d c header →
      ExportsWhereItCan store (ran m (.exportKey d header.keyId) reply) := by
    intro header reply haccepts key hkey hexportable
    obtain rfl := Option.some.inj (hheader.symm.trans haccepts.parsed)
    cases (hrefuses key hkey).symm.trans hexportable
  cases h with
  | refused _ _ => simp [ExportsWhereItCan, acquired, released]
  | noToken _ => simp [ExportsWhereItCan, acquired, released]
  | @faulted k' reply x hkey =>
    exact absurd ⟨x, hkey⟩ (hquiet (ran m (.exportKey d k') reply) (by simp))
  | noKey haccepts _ =>
    simp only [List.mem_cons, List.not_mem_nil, or_false]
    intro ev hmem
    obtain rfl | rfl | rfl := hmem
    · trivial
    · exact hexport haccepts
    · trivial
  | opened haccepts _ _ =>
    simp only [List.mem_cons, List.not_mem_nil, or_false]
    intro ev hmem
    obtain rfl | rfl | rfl | rfl := hmem
    · trivial
    · exact hexport haccepts
    · trivial
    · trivial

/-- A vault on which no command succeeds. -/
def refusedAnswer : (c : Call) → c.Reply
  | .run _ _ _ => (2, [])
  | c => sampleAnswer c

/-- Such answers leave the store as it is. -/
theorem run_refused {J : RapidJson} {store : TransitStore} :
    ∀ {tr : List KmEvent}, (∀ ev ∈ tr, ev = ⟨ev.1, refusedAnswer ev.1⟩) →
      Run (TransitStep J) store tr store
  | [], _ => .nil store
  | ev :: tr, h => by
    refine .cons ?_ (run_refused fun ev' hev => h ev' (List.mem_cons_of_mem _ hev))
    rw [h ev List.mem_cons_self]
    cases ev.1 with
    | run exePath token cmd => exact transitStep_failed (show ¬ Succeeded (2, []) by decide)
    | acquire mode => rfl
    | release mode => rfl
    | time => rfl
    | canonicalPath path => rfl
    | crypt => rfl

/-- No call has removed the key, or all keys, or the manager's state. -/
def NotRemoved (d k : Nat) (call : KmCall) : Prop :=
  match call.op with
  | .unInit => call.answer ≠ some (.code .ok)
  | .deleteAllKey => call.answer ≠ some (.code .ok)
  | .removeKey d' k' => ¬ ((d' = d ∧ k' = k) ∧ call.answer = some (.code .ok))
  | _ => True

/-- The calls of an encryption on the sample, and of a decryption of what it returns. -/
def sampleTrace : List KmEvent :=
  [acquired .shared, ran sampleManager (.exportKey 0 3) (0, ascii "key"), crypted sampleWorld,
    released .shared]

/-- They leave the store as it was. -/
theorem run_sampleTrace : Run (TransitStep sampleHost.json) sampleStore sampleTrace sampleStore := by
  have hprints : Prints sampleHost.json sampleStore (ascii "key") (.exportKey 0 3) := by
    intro key hkey
    obtain rfl := Option.some.inj (sampleStore_key?.symm.trans hkey)
    rfl
  have hexport : sampleStore.apply sampleVersion (.exportKey 0 3) = some sampleStore := by
    unfold TransitStore.apply
    dsimp only
    rw [sampleStore_key?]
    rfl
  exact .cons rfl (.cons (transitStep_succeeded (by decide) hexport hprints)
    (.cons rfl (.cons rfl (.nil _))))

theorem sample_encrypts_alone : ∃ c,
    Traces (sampleManager.encrypt sampleHost .aes256Gcm 0 (ascii "secret")) sampleTrace
      (.ret ((.ok, c), sampleManager)) := by
  obtain ⟨c, m', hrun⟩ := sample_encrypts
  have htrace := wp_iff.mp (encrypt_traces _ _ _ _ _) _ _ hrun
  have hne : List.replicate 32 (7 : UInt8) ≠ [] := by decide
  obtain ⟨rfl, -⟩ := encrypt_direct ⟨3, sampleManager_holds.mpr ⟨rfl, rfl⟩⟩ hne htrace fun ev hev => by
    rw [mem_runWith hev]
    exact sampleAnswer_exportsKey ev.1
  exact ⟨c, hrun⟩

/-- An encryption on the sample leaves it as it was. -/
theorem kmStep_encrypt : ∃ tr c, KmStep sampleHost sampleSystem
    ⟨.encrypt .aes256Gcm 0 (ascii "secret"), tr, some (.bytes .ok c)⟩ sampleSystem ∧
      usedKey tr = some (0, 3) := by
  obtain ⟨c, hrun⟩ := sample_encrypts_alone
  exact ⟨_, c, .returned (hrun.bind_ret fun _ => rfl) run_sampleTrace, rfl⟩

/-- An encryption, an automatic update in which every command succeeds, and a decryption: the
ciphertext is lost though nothing was removed. -/
theorem decrypt_fails_of_autoUpdate : ¬ ∀ (H : KmHost) (s₀ s₁ s₂ : KmSystem) (d k : Nat)
    (tr tr' : List KmEvent) (calls : List KmCall) (store : TransitStore) (symAlg : CryptoSymAlg)
    (plaintext c : Bytes) (o : Outcome Fault (KeyManagerRC × Bytes)),
    H.ciphers.Correct (getCipherSuite symAlg) →
    KmStep H s₀ ⟨.encrypt symAlg d plaintext, tr, some (.bytes .ok c)⟩ s₁ →
    usedKey tr = some (d, k) →
    Run (Guarded (fun _ => NotRemoved d k) (KmStep H)) s₁ calls s₂ →
    Traces (s₂.manager.decrypt H symAlg d c) tr' o →
    Run (TransitStep H.json) s₂.store tr' store →
    (∀ ev ∈ tr', ExportsWhereItCan s₂.store ev ∧ NativeDecrypts ev) →
    o = .ret (.ok, plaintext) := by
  intro hall
  obtain ⟨tr, c, henc, hused⟩ := kmStep_encrypt
  obtain ⟨tr₁, answer, s₂, hmem, hstep⟩ := kmStep_autoUpdate
  obtain ⟨-, hrefuses⟩ := autoUpdate_loses hstep ⟨_, hmem, ⟨rfl, rfl⟩, by decide⟩
  -- the ciphertext names the key 3 of domain 0
  obtain ⟨material, w, hdurable, hne, hsealed, halg⟩ := durable_of_encrypt henc hused
  obtain ⟨ct, hct, hc⟩ := sealedAnswer_ok hsealed
  have hheader : readCipherHeader (bas64DecodeCipherText c) = some ⟨.aes256Gcm, 0, 3⟩ := by
    rw [hc]
    exact (hdurable.accepts (sampleCiphers_correct _) (by decide) halg hct).2.parsed
  obtain ⟨tr', o, hdec, hanswers⟩ :=
    exists_answered refusedAnswer (s₂.manager.decrypt sampleHost .aes256Gcm 0 c)
  have hrun : Run (Guarded (fun _ => NotRemoved 0 3) (KmStep sampleHost)) sampleSystem
      [⟨.checkDomainKeysExpiredAndAutoUpdate 0 700, tr₁, some answer⟩] s₂ :=
    .cons ⟨trivial, hstep⟩ (.nil _)
  have hstore : Run (TransitStep sampleHost.json) s₂.store tr' s₂.store := run_refused hanswers
  have ho := hall sampleHost sampleSystem sampleSystem s₂ 0 3 tr tr' _ s₂.store .aes256Gcm
    (ascii "secret") c o (sampleCiphers_correct _) henc hused hrun hdec hstore ?_
  · rw [ho] at hdec
    exact decrypt_of_refuses hheader hrefuses hdec hstore
  · have hquiet := not_readerFaults_of_run hstore
    have hexports := (wp_iff.mp (decrypt_traces _ _ _ _ _) _ _ hdec).exportsWhereItCan hheader
      hrefuses hquiet
    refine fun ev hev => ⟨hexports ev hev, ?_⟩
    rw [hanswers ev hev]
    cases ev.1 with
    | crypt => exact ⟨rfl, rfl, rfl, rfl, rfl, rfl, rfl, by decide⟩
    | _ => trivial

/-- A store that has the key of the sample answers a decryption under it. -/
theorem sample_answers {s : KmSystem} {key : TransitKey} {c : Bytes}
    (hkey : s.store.key? 0 3 = some key) (hversions : key.versions = [sampleVersion])
    (hexportable : key.exportable = true)
    (hheader : readCipherHeader (bas64DecodeCipherText c) = some ⟨.aes256Gcm, 0, 3⟩) :
    ∃ tr o, Traces (s.manager.decrypt sampleHost .aes256Gcm 0 c) tr o ∧
      Run (TransitStep sampleHost.json) s.store tr s.store ∧
      ∀ ev ∈ tr, ExportsWhereItCan s.store ev ∧ NativeDecrypts ev := by
  obtain ⟨tr, o, hdec, hanswers⟩ :=
    exists_answered sampleAnswer (s.manager.decrypt sampleHost .aes256Gcm 0 c)
  have hreply : ∀ k reply, ran s.manager (.exportKey 0 k) reply ∈ tr → reply = (0, ascii "key") :=
    fun k reply hmem => eq_of_heq (Sigma.mk.inj (hanswers _ hmem)).2
  have hgiven : exportedKey sampleHost (commandResult (0, ascii "key")) =
      .ok (List.replicate 32 7) := by decide +kernel
  have hne : List.replicate 32 (7 : UInt8) ≠ [] := by decide
  have hworld : ∀ ev ∈ tr, ExportsWhereItCan s.store ev ∧ NativeDecrypts ev := by
    intro ev hev
    rw [hanswers ev hev]
    obtain ⟨call, reply⟩ := ev
    refine ⟨?_, ?_⟩
    · cases call with
      | run exePath token cmd =>
        cases cmd with
        | exportKey d k => exact fun _ _ _ => (by decide : Succeeded (0, ascii "key"))
        | _ => trivial
      | _ => trivial
    · cases call with
      | crypt =>
        exact (⟨rfl, rfl, rfl, rfl, rfl, rfl, rfl, by decide⟩ : sampleWorld.Decrypts)
      | _ => trivial
  refine ⟨tr, o, hdec, ?_, hworld⟩
  cases wp_iff.mp (decrypt_traces _ _ _ _ _) _ _ hdec with
  | refused _ _ => exact .cons rfl (.cons rfl (.nil _))
  | noToken _ => exact .cons rfl (.cons rfl (.nil _))
  | faulted hfault =>
    obtain rfl := hreply _ _ (List.mem_cons_of_mem _ List.mem_cons_self)
    cases hfault.symm.trans hgiven
  | noKey _ hnone =>
    obtain rfl := hreply _ _ (List.mem_cons_of_mem _ List.mem_cons_self)
    exact absurd (Except.ok.inj (hgiven.symm.trans hnone)) hne
  | opened haccepts _ _ =>
    obtain rfl := hreply _ _ (List.mem_cons_of_mem _ List.mem_cons_self)
    obtain rfl := Option.some.inj (hheader.symm.trans haccepts.parsed)
    have hexport : s.store.apply sampleVersion (.exportKey 0 3) = some s.store := by
      unfold TransitStore.apply
      dsimp only
      rw [hkey]
      exact if_pos hexportable
    have hprints : Prints sampleHost.json s.store (ascii "key") (.exportKey 0 3) := by
      intro key' hkey'
      obtain rfl := Option.some.inj (hkey.symm.trans hkey')
      rw [hversions]
      rfl
    exact .cons rfl (.cons (transitStep_succeeded (by decide) hexport hprints)
      (.cons rfl (.cons rfl (.nil _))))

/-- A key made between an encryption and a decryption. -/
theorem decrypt_of_run_createKey : ∃ tr c tr₁ answer s₂ tr' store,
    KmStep sampleHost sampleSystem
      ⟨.encrypt .aes256Gcm 0 (ascii "secret"), tr, some (.bytes .ok c)⟩ sampleSystem ∧
    KmStep sampleHost sampleSystem ⟨.createKey 0, tr₁, answer⟩ s₂ ∧
    Traces (s₂.manager.decrypt sampleHost .aes256Gcm 0 c) tr' (.ret (.ok, ascii "secret")) ∧
    Run (TransitStep sampleHost.json) s₂.store tr' store := by
  obtain ⟨tr, c, henc, hused⟩ := kmStep_encrypt
  obtain ⟨tr₁, answer, s₂, hstep⟩ := kmStep_createKey
  have hspares : Spares 0 3 ⟨.createKey 0, tr₁, answer⟩ := trivial
  have hrun : Run (Guarded (fun _ => Spares 0 3) (KmStep sampleHost)) sampleSystem
      [⟨.createKey 0, tr₁, answer⟩] s₂ := .cons ⟨hspares, hstep⟩ (.nil _)
  obtain ⟨material, w, hdurable, hne, hsealed, halg⟩ := durable_of_encrypt henc hused
  obtain ⟨ct, hct, hc⟩ := sealedAnswer_ok hsealed
  have hheader : readCipherHeader (bas64DecodeCipherText c) = some ⟨.aes256Gcm, 0, 3⟩ := by
    rw [hc]
    exact (hdurable.accepts (sampleCiphers_correct _) (by decide) halg hct).2.parsed
  obtain ⟨key, hkey, hgrows⟩ := hstep.grows rfl hspares sampleStore_key?
  obtain ⟨tr', o, hdec, hstore, hworld⟩ :=
    sample_answers hkey hgrows.versions (hgrows.exportable rfl) hheader
  obtain rfl := decrypt_of_run (sampleCiphers_correct _) henc hused (by decide) hrun hdec hstore hworld
  exact ⟨tr, c, tr₁, answer, s₂, tr', s₂.store, henc, hstep, hdec, hstore⟩

end CdfCrypto.KeyManagement
