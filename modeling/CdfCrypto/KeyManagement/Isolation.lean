import CdfCrypto.KeyManagement.Durability
import CdfCrypto.KeyManagement.VaultManager

/-!
# One domain among others

Nearly every operation is called on one domain. Such an operation names no other domain in the
commands it runs (`prog_confined`), leaves the keys of every other domain as they are
(`prog_leavesOthers`), and comes out the same in two managers that agree on its own domain
(`prog_alike`), as long as the domain is there: an operation on a domain that is missing tells by
its code whether the manager has any domain at all.

Over a store these make a purge. Take from a run every call on another domain, and
what is left is a run again, with the same commands, the same answers and the same keys in the
end (`purge_of_run`). `Init`, `UnInit` and `DeleteAllKey` are about all domains at once, and are
ruled out.
-/

namespace CdfCrypto.KeyManagement

open Lib OpenbaoKeyManager

/-! ## Domains of calls -/

/-- The domain that a command names. -/
def Command.domain? : Command → Option Nat
  | .list => none
  | .read d _ => some d
  | .create d _ => some d
  | .config d _ _ => some d
  | .delete d _ => some d
  | .exportKey d _ => some d

/-- A call that has to do with no other domain. -/
def Confined (d : Nat) : Call → Prop
  | .run _ _ cmd => cmd.domain? = some d
  | _ => True

/-- The domain that an operation is called on. -/
def Op.domain? : Op → Option Nat
  | .createKey d => some d
  | .removeKey d _ => some d
  | .displayKey d => some d
  | .checkDomainKeysExpired d _ => some d
  | .checkDomainKeysExpiredAndAutoUpdate d _ => some d
  | .getLatestKey d _ => some d
  | .encrypt _ d _ => some d
  | .decrypt _ d _ => some d
  | _ => none

/-- The calls of a trace. -/
def ConfinedTo (d : Nat) (tr : List KmEvent) : Prop := ∀ ev ∈ tr, Confined d ev.1

section ConfinedTo

variable {d : Nat} {tr tr' : List KmEvent}

@[simp] theorem confinedTo_nil : ConfinedTo d [] := fun _ hev => by cases hev

@[simp] theorem confinedTo_cons {ev : KmEvent} :
    ConfinedTo d (ev :: tr) ↔ Confined d ev.1 ∧ ConfinedTo d tr := List.forall_mem_cons

@[simp] theorem confinedTo_append :
    ConfinedTo d (tr ++ tr') ↔ ConfinedTo d tr ∧ ConfinedTo d tr' := List.forall_mem_append

@[simp] theorem confined_acquired (mode : LockMode) : Confined d (acquired mode).1 := trivial

@[simp] theorem confined_released (mode : LockMode) : Confined d (released mode).1 := trivial

@[simp] theorem confined_crypted (w : OpensslWorld) : Confined d (crypted w).1 := trivial

@[simp] theorem confined_ran {m : OpenbaoKeyManager} {cmd : Command} {reply : Int × Bytes} :
    Confined d (ran m cmd reply).1 ↔ cmd.domain? = some d := Iff.rfl

end ConfinedTo

/-! ## What is left of the other domains -/

/-- `m'` is `m` but for the keys of one domain. -/
structure LeavesOthers (d : Nat) (m m' : OpenbaoKeyManager) : Prop where
  sameButMap : SameButMap m m'
  others : ∀ d', d' ≠ d → m'.domainKeyMap[d']? = m.domainKeyMap[d']?

/-- An execution that keeps to one domain, and that no output the store prints can stop. -/
structure KeepsTo {α : Type} (H : KmHost) (d : Nat) (m : OpenbaoKeyManager) (tr : List KmEvent)
    (o : Outcome Fault (α × OpenbaoKeyManager)) : Prop where
  confined : ConfinedTo d tr
  leaves : ∀ a m', o = .ret (a, m') → LeavesOthers d m m'
  defined : o = .halt .undefined → ∃ ev ∈ tr, ReaderFaults H ev

section KeepsTo

variable {α β : Type} {H : KmHost} {d k : Nat} {m m' m'' : OpenbaoKeyManager} {tr tr' : List KmEvent}

theorem LeavesOthers.refl (m : OpenbaoKeyManager) : LeavesOthers d m m := ⟨.refl m, fun _ _ => rfl⟩

theorem LeavesOthers.trans (h : LeavesOthers d m m') (h' : LeavesOthers d m' m'') :
    LeavesOthers d m m'' :=
  ⟨h.sameButMap.trans h'.sameButMap, fun d' hne => (h'.others d' hne).trans (h.others d' hne)⟩

/-- Writing the domain itself. -/
theorem leavesOthers_insert (m : OpenbaoKeyManager) (keys : KeyMap) :
    LeavesOthers d m { m with domainKeyMap := m.domainKeyMap.insert d keys } := by
  refine ⟨rfl, fun d' hne => ?_⟩
  show (Std.ExtTreeMap.insert m.domainKeyMap d keys)[d']? = _
  rw [Std.ExtTreeMap.getElem?_insert]
  exact if_neg fun heq => hne (Std.compare_eq_iff_eq.mp heq).symm

theorem leavesOthers_touched (m : OpenbaoKeyManager) : LeavesOthers d m (touched m d) := by
  refine ⟨rfl, fun d' hne => ?_⟩
  show (Std.ExtTreeMap.insertIfNew m.domainKeyMap d ∅)[d']? = _
  rw [Std.ExtTreeMap.getElem?_insertIfNew]
  exact if_neg fun hboth => hne (Std.compare_eq_iff_eq.mp hboth.1).symm

theorem leavesOthers_dropIfEmpty (m : OpenbaoKeyManager) :
    LeavesOthers d m { m with domainKeyMap := m.domainKeyMap.dropIfEmpty d } := by
  refine ⟨rfl, fun d' hne => ?_⟩
  show (m.domainKeyMap.dropIfEmpty d)[d']? = _
  unfold DomainKeyMap.dropIfEmpty
  split
  · rw [Std.ExtTreeMap.getElem?_erase]
    exact if_neg fun heq => hne (Std.compare_eq_iff_eq.mp heq).symm
  · rfl

theorem KeepsTo.ret {a : α} (htr : ConfinedTo d tr) (hleaves : LeavesOthers d m m') :
    KeepsTo H d m tr (.ret (a, m')) := by
  refine ⟨htr, fun b m'' heq => ?_, fun hundefined => by cases hundefined⟩
  obtain ⟨-, rfl⟩ := Prod.mk.inj (Outcome.ret.inj heq)
  exact hleaves

theorem KeepsTo.halt {x : Fault} (htr : ConfinedTo d tr) (hfaults : ∃ ev ∈ tr, ReaderFaults H ev) :
    KeepsTo H d m tr (.halt x : Outcome Fault (α × OpenbaoKeyManager)) :=
  ⟨htr, fun _ _ heq => (by cases heq), fun _ => hfaults⟩

theorem KeepsTo.map {o : Outcome Fault (α × OpenbaoKeyManager)}
    {g : α × OpenbaoKeyManager → β × OpenbaoKeyManager} (h : KeepsTo H d m tr o)
    (hg : ∀ a, (g a).2 = a.2) : KeepsTo H d m tr (o.map g) := by
  cases o with
  | ret a =>
    refine ⟨h.confined, fun b m' heq => ?_, fun hundefined => by cases hundefined⟩
    obtain rfl : m' = a.2 := by rw [← hg a, Outcome.ret.inj heq]
    exact h.leaves a.1 a.2 rfl
  | halt x =>
    refine ⟨h.confined, fun b m' heq => (by cases heq), fun hundefined => h.defined ?_⟩
    obtain rfl := Outcome.halt.inj hundefined
    rfl

/-- An answer given with the manager that was there before. -/
theorem KeepsTo.of_reads {o : Outcome Fault α} {g : α → β × OpenbaoKeyManager}
    (hreads : Reads H d k tr o) (htr : ConfinedTo d tr) (hg : ∀ a, (g a).2 = m) :
    KeepsTo H d m tr (o.map g) := by
  refine ⟨htr, fun b m' heq => ?_, hreads.map.defined⟩
  cases o with
  | ret a =>
    obtain rfl : m' = m := by rw [← hg a, Outcome.ret.inj heq]
    exact .refl m'
  | halt x => cases heq

/-! ### The operations on one domain -/

theorem RemoveKeyTrace.keepsTo {o : Outcome Fault (KeyManagerRC × OpenbaoKeyManager)}
    (h : RemoveKeyTrace m d k tr o) : KeepsTo H d m tr o := by
  cases h with
  | refused _ => exact .ret (by simp) (.refl m)
  | failed _ => exact .ret (by simp [Command.domain?]) (.refl m)
  | removed _ _ =>
    refine .ret (by simp [Command.domain?]) ?_
    exact (leavesOthers_insert m _).trans (leavesOthers_dropIfEmpty _)

theorem CreateKeyTrace.keepsTo {o : Outcome Fault ((KeyManagerRC × Nat) × OpenbaoKeyManager)}
    (h : CreateKeyTrace H m d tr o) : KeepsTo H d m tr o := by
  cases h with
  | invalid _ => exact .ret (by simp) (.refl m)
  | @faulted id r₁ r₂ r₃ x _ _ h₃ htime =>
    refine .halt (by simp [Command.domain?]) ⟨ran m (.read d id) r₃, by simp, h₃, x, htime⟩
  | created _ _ _ _ _ _ _ _ =>
    refine .ret (by simp [Command.domain?]) ?_
    exact (leavesOthers_touched m).trans (leavesOthers_insert _ _)
  | _ => exact .ret (by simp [Command.domain?]) (leavesOthers_touched m)

theorem GetLatestKeyTrace.keepsTo {id : Nat}
    {o : Outcome Fault ((Bytes × Nat) × OpenbaoKeyManager)} (h : GetLatestKeyTrace H m d id tr o) :
    KeepsTo H d m tr o := by
  cases h with
  | refused _ => exact .ret (by simp) (.refl m)
  | @faulted k' reply x _ _ hkey =>
    exact .halt (by simp [Command.domain?]) ⟨ran m (.exportKey d k') reply, by simp, x, hkey⟩
  | _ => exact .ret (by simp [Command.domain?]) (leavesOthers_touched m)

theorem EncryptTrace.keepsTo {symAlg : CryptoSymAlg} {plaintext : Bytes}
    {o : Outcome Fault ((KeyManagerRC × Bytes) × OpenbaoKeyManager)}
    (h : EncryptTrace H m symAlg d plaintext tr o) : KeepsTo H d m tr o := by
  cases h with
  | refused _ _ => exact .ret (by simp) (.refl m)
  | @faulted k' reply x _ _ hkey =>
    exact .halt (by simp [Command.domain?]) ⟨ran m (.exportKey d k') reply, by simp, x, hkey⟩
  | direct _ _ _ _ _ => exact .ret (by simp [Command.domain?]) (leavesOthers_touched m)
  -- in the other cases the three callees follow each other
  | createFaulted _ _ hfirst hcreate =>
    have h₁ := hfirst.keepsTo
    have h₂ := hcreate.keepsTo
    refine ⟨by simp [h₁.confined, h₂.confined], fun _ _ heq => (by cases heq), fun hundefined => ?_⟩
    obtain rfl := Outcome.halt.inj hundefined
    obtain ⟨ev, hev, hfaults⟩ := h₂.defined rfl
    exact ⟨ev, List.mem_cons_of_mem _ (List.mem_append_right _ hev), hfaults⟩
  | createFailed _ _ hfirst hcreate =>
    have h₁ := hfirst.keepsTo
    have h₂ := hcreate.keepsTo
    exact .ret (by simp [h₁.confined, h₂.confined]) ((h₁.leaves _ _ rfl).trans (h₂.leaves _ _ rfl))
  | secondFaulted _ _ hfirst hcreate hsecond =>
    have h₁ := hfirst.keepsTo
    have h₂ := hcreate.keepsTo
    have h₃ := hsecond.keepsTo
    refine ⟨by simp [h₁.confined, h₂.confined, h₃.confined], fun _ _ heq => (by cases heq),
      fun hundefined => ?_⟩
    obtain rfl := Outcome.halt.inj hundefined
    obtain ⟨ev, hev, hfaults⟩ := h₃.defined rfl
    refine ⟨ev, List.mem_cons_of_mem _ (List.mem_append_right _ ?_), hfaults⟩
    exact List.mem_append_right _ hev
  | recreated _ _ hfirst hcreate hsecond =>
    have h₁ := hfirst.keepsTo
    have h₂ := hcreate.keepsTo
    have h₃ := hsecond.keepsTo
    refine .ret (by simp [h₁.confined, h₂.confined, h₃.confined]) ?_
    exact ((h₁.leaves _ _ rfl).trans (h₂.leaves _ _ rfl)).trans (h₃.leaves _ _ rfl)

theorem DecryptTrace.confined {symAlg : CryptoSymAlg} {ciphertext : Bytes}
    {o : Outcome Fault (KeyManagerRC × Bytes)} (h : DecryptTrace H m symAlg d ciphertext tr o) :
    ConfinedTo d tr := by
  cases h <;> simp [Command.domain?]

theorem calls_displayKey (m : OpenbaoKeyManager) : Calls (Confined d) (m.displayKey d) := by
  refine calls_locked trivial trivial ?_
  split
  · trivial
  split
  · trivial
  split
  · trivial
  · exact (calls_ofExcept _).bind fun _ => trivial

theorem calls_checkDomainKeysExpired (m : OpenbaoKeyManager) (lead : Nat) :
    Calls (Confined d) (m.checkDomainKeysExpired d lead) := by
  refine calls_locked trivial trivial (Calls.bind (calls_perform trivial) fun time => ?_)
  split
  · trivial
  split
  · trivial
  split
  · trivial
  split
  · trivial
  split
  · trivial
  split
  · trivial
  split
  · trivial
  · exact (calls_ofExcept _).bind fun _ => trivial

theorem calls_autoUpdate_confined (m : OpenbaoKeyManager) (lead : Nat) :
    Calls (Confined d) (m.checkDomainKeysExpiredAndAutoUpdate H d lead) := by
  refine calls_locked trivial trivial (Calls.bind (calls_perform trivial) fun time => ?_)
  split
  · trivial
  split
  · trivial
  exact calls_autoUpdateLoop (fun key _ =>
    ⟨fun _ _ => rfl, fun _ _ => rfl, fun _ _ => rfl, fun _ _ => rfl⟩) m

theorem autoUpdateLoop_leavesOthers (lead : Nat) (time : Int) (keys : List (Nat × Int)) :
    ∀ m, wp (autoUpdateLoop H d lead time m keys) fun _ o =>
      ∀ a m', o = .ret (a, m') → LeavesOthers d m m' := by
  have hret : ∀ {m : OpenbaoKeyManager} {rc : KeyManagerRC} (a : KeyManagerRC)
      (m' : OpenbaoKeyManager), (.ret (rc, m) : Outcome Fault _) = .ret (a, m') →
      LeavesOthers d m m' := by
    intro m rc a m' heq
    obtain ⟨-, rfl⟩ := Prod.mk.inj (Outcome.ret.inj heq)
    exact .refl m
  induction keys with
  | nil => exact fun m => hret
  | cons key keys ih =>
    intro m
    unfold autoUpdateLoop
    split
    · exact hret
    split
    · exact hret
    split
    rotate_left
    · exact ih m
    refine wp_bind_any (fun _ ret => ?_) fun _ _ _ _ heq => by cases heq
    split
    · exact hret
    refine wp_bind_any (fun _ result => ?_) fun _ _ _ _ heq => by cases heq
    split
    · exact hret
    refine wp_bind_any (fun _ timeTmp => ?_) fun _ _ _ _ heq => by cases heq
    split
    · exact hret
    · -- one time set, and the rest of the loop
      refine wp_mono (ih _) fun tr o ho a m' heq => ?_
      exact (leavesOthers_insert m _).trans (ho a m' heq)

theorem autoUpdate_keepsTo (m : OpenbaoKeyManager) (lead : Nat) :
    wp (m.checkDomainKeysExpiredAndAutoUpdate H d lead) (KeepsTo H d m) := by
  have hleaves : wp (m.checkDomainKeysExpiredAndAutoUpdate H d lead) fun _ o =>
      ∀ a m', o = .ret (a, m') → LeavesOthers d m m' := by
    have hrefused : ∀ (rc a : KeyManagerRC) (m' : OpenbaoKeyManager),
        (.ret (rc, m) : Outcome Fault _) = .ret (a, m') → LeavesOthers d m m' := by
      intro rc a m' heq
      obtain ⟨-, rfl⟩ := Prod.mk.inj (Outcome.ret.inj heq)
      exact .refl m
    unfold OpenbaoKeyManager.checkDomainKeysExpiredAndAutoUpdate
    rw [wp_locked, Prog.perform_bind]
    intro time
    dsimp only
    split
    · exact hrefused _
    split
    · exact hrefused _
    refine wp_mono (autoUpdateLoop_leavesOthers lead time _ m) fun tr o ho => ?_
    cases o with
    | ret a => exact ho
    | halt x => exact fun _ _ heq => by cases heq
  have hconfined := (calls_autoUpdate_confined (H := H) (d := d) m lead).trace
  refine wp_mono (wp_and (wp_and hconfined hleaves) (autoUpdate_updated H m d lead)) ?_
  intro tr o h
  obtain ⟨⟨htr, hleaves⟩, hupdated⟩ := h
  refine ⟨htr, hleaves, fun hundefined => ?_⟩
  subst hundefined
  exact hupdated

end KeepsTo

/-- **One operation, one domain.** It runs commands on its own domain only, and leaves the keys of
all the others; only output that no store prints drives it out of its meaning. -/
theorem prog_keepsTo {H : KmHost} {m : OpenbaoKeyManager} {op : Op} {d : Nat}
    (hop : op.domain? = some d) : wp (op.prog H m) (KeepsTo H d m) := by
  cases op with
  | createKey d' =>
    obtain rfl := Option.some.inj hop
    exact (wp_bind_ret fun _ => rfl).mpr (wp_mono (createKey_traces H m d') fun tr o h =>
      h.keepsTo.map fun _ => rfl)
  | removeKey d' k =>
    obtain rfl := Option.some.inj hop
    exact (wp_bind_ret fun _ => rfl).mpr (wp_mono (removeKey_traces m d' k) fun tr o h =>
      h.keepsTo.map fun _ => rfl)
  | displayKey d' =>
    obtain rfl := Option.some.inj hop
    have hconfined := (calls_displayKey (d := d') m).trace
    have hreads := displayKey_reads (d := d') (k := 0) H m d'
    exact (wp_bind_ret fun _ => rfl).mpr (wp_mono (wp_and hconfined hreads) fun tr o h =>
      .of_reads h.2 h.1 fun _ => rfl)
  | checkDomainKeysExpired d' lead =>
    obtain rfl := Option.some.inj hop
    have hconfined := (calls_checkDomainKeysExpired (d := d') m lead).trace
    have hreads := checkDomainKeysExpired_reads (d := d') (k := 0) H m d' lead
    exact (wp_bind_ret fun _ => rfl).mpr (wp_mono (wp_and hconfined hreads) fun tr o h =>
      .of_reads h.2 h.1 fun _ => rfl)
  | checkDomainKeysExpiredAndAutoUpdate d' lead =>
    obtain rfl := Option.some.inj hop
    exact (wp_bind_ret fun _ => rfl).mpr (wp_mono (autoUpdate_keepsTo m lead) fun tr o h =>
      h.map fun _ => rfl)
  | getLatestKey d' id =>
    obtain rfl := Option.some.inj hop
    exact (wp_bind_ret fun _ => rfl).mpr (wp_mono (getLatestKey_traces H m d' id) fun tr o h =>
      h.keepsTo.map fun _ => rfl)
  | encrypt symAlg d' plaintext =>
    obtain rfl := Option.some.inj hop
    exact (wp_bind_ret fun _ => rfl).mpr
      (wp_mono (encrypt_traces H m symAlg d' plaintext) fun tr o h => h.keepsTo.map fun _ => rfl)
  | decrypt symAlg d' ciphertext =>
    obtain rfl := Option.some.inj hop
    exact (wp_bind_ret fun _ => rfl).mpr
      (wp_mono (decrypt_traces H m symAlg d' ciphertext) fun tr o h =>
        .of_reads (h.reads (d := d') (k := 0)) h.confined fun _ => rfl)
  | _ => cases hop

/-- `DisplayAllKey` runs no command at all. -/
theorem displayAllKey_keepsTo {H : KmHost} (m : OpenbaoKeyManager) (d : Nat) :
    wp (Op.displayAllKey.prog H m) (KeepsTo H d m) := by
  have hcalls : Calls (Confined d) m.displayAllKey := by
    refine calls_locked trivial trivial ?_
    split
    · trivial
    split
    · trivial
    · exact (calls_ofExcept _).bind fun _ => trivial
  have hreads := displayAllKey_reads (d := d) (k := 0) H m
  exact (wp_bind_ret fun _ => rfl).mpr (wp_mono (wp_and hcalls.trace hreads) fun tr o h =>
    .of_reads h.2 h.1 fun _ => rfl)

/-! ## What an operation takes from its domain -/

/-- Two managers that agree on one domain. -/
structure SameDomain (d : Nat) (m m' : OpenbaoKeyManager) : Prop where
  sameButMap : SameButMap m m'
  keys : m'.domainKeyMap[d]? = m.domainKeyMap[d]?

/-- The same answer, and managers that agree on the domain. -/
def Alike {α : Type} (d : Nat) (a b : α × OpenbaoKeyManager) : Prop :=
  a.1 = b.1 ∧ SameDomain d a.2 b.2

/-- The same, with the domain there. -/
def AlikeIn {α : Type} (d : Nat) (a b : α × OpenbaoKeyManager) : Prop :=
  Alike d a b ∧ d ∈ a.2.domainKeyMap

namespace SameDomain

variable {d k : Nat} {t : Int} {m m' m'' : OpenbaoKeyManager} {map map' : DomainKeyMap}

theorem refl (m : OpenbaoKeyManager) : SameDomain d m m := ⟨.refl m, rfl⟩

theorem trans (h : SameDomain d m m') (h' : SameDomain d m' m'') : SameDomain d m m'' :=
  ⟨h.sameButMap.trans h'.sameButMap, h'.keys.trans h.keys⟩

/-- An operation on another domain. -/
theorem of_leavesOthers {d' : Nat} (h : LeavesOthers d' m m') (hne : d ≠ d') : SameDomain d m m' :=
  ⟨h.sameButMap, h.others d hne⟩

/-- The other manager, as this one with a map of its own. -/
theorem eq_withMap (h : SameDomain d m m') :
    ∃ map', map'[d]? = m.domainKeyMap[d]? ∧ m' = { m with domainKeyMap := map' } :=
  ⟨m'.domainKeyMap, h.keys, h.sameButMap⟩

/-- Two maps put in the place of theirs. -/
theorem withMaps (m : OpenbaoKeyManager) (hkeys : map'[d]? = map[d]?) :
    SameDomain d { m with domainKeyMap := map } { m with domainKeyMap := map' } := ⟨rfl, hkeys⟩

/-! What is read from a map and written to it is the same where the domain is. -/

theorem at' (hkeys : map'[d]? = map[d]?) : map'.at' d = map.at' d := by
  unfold DomainKeyMap.at'
  rw [Std.ExtTreeMap.getD_eq_getD_getElem?, Std.ExtTreeMap.getD_eq_getD_getElem?, hkeys]

theorem mem (hkeys : map'[d]? = map[d]?) : d ∈ map' ↔ d ∈ map := by
  rw [Std.ExtTreeMap.mem_iff_isSome_getElem?, Std.ExtTreeMap.mem_iff_isSome_getElem?, hkeys]

/-- A map with a domain is not empty. -/
theorem isEmpty (hmem : d ∈ map) : map.isEmpty = false := by
  cases hempty : map.isEmpty with
  | false => rfl
  | true =>
    rw [Std.ExtTreeMap.isEmpty_iff.mp hempty] at hmem
    exact absurd hmem Std.ExtTreeMap.not_mem_empty

theorem insert (keys : KeyMap) :
    (Std.ExtTreeMap.insert map' d keys)[d]? = (Std.ExtTreeMap.insert map d keys)[d]? := by
  rw [Std.ExtTreeMap.getElem?_insert_self, Std.ExtTreeMap.getElem?_insert_self]

theorem touch (hkeys : map'[d]? = map[d]?) : (map'.touch d)[d]? = (map.touch d)[d]? := by
  unfold DomainKeyMap.touch
  rw [Std.ExtTreeMap.getElem?_insertIfNew, Std.ExtTreeMap.getElem?_insertIfNew, hkeys]
  simp only [mem hkeys]

theorem mem_touch (map : DomainKeyMap) : d ∈ map.touch d := by simp [DomainKeyMap.touch]

theorem addKey (hkeys : map'[d]? = map[d]?) : (map'.addKey d k t)[d]? = (map.addKey d k t)[d]? := by
  unfold DomainKeyMap.addKey
  rw [at' hkeys]
  exact insert _

theorem setTime (hkeys : map'[d]? = map[d]?) :
    (map'.setTime d k t)[d]? = (map.setTime d k t)[d]? := by
  unfold DomainKeyMap.setTime
  rw [at' hkeys]
  exact insert _

theorem eraseKey (hkeys : map'[d]? = map[d]?) :
    (map'.eraseKey d k)[d]? = (map.eraseKey d k)[d]? := by
  unfold DomainKeyMap.eraseKey
  rw [at' hkeys]
  exact insert _

theorem dropIfEmpty (hkeys : map'[d]? = map[d]?) :
    (map'.dropIfEmpty d)[d]? = (map.dropIfEmpty d)[d]? := by
  unfold DomainKeyMap.dropIfEmpty
  rw [at' hkeys]
  split
  · rw [Std.ExtTreeMap.getElem?_erase_self, Std.ExtTreeMap.getElem?_erase_self]
  · exact hkeys

end SameDomain

section Alike

variable {α β : Type} {H : KmHost} {d k : Nat} {m m' : OpenbaoKeyManager}

theorem alike (a : α) (h : SameDomain d m m') : Alike d (a, m) (a, m') := ⟨rfl, h⟩

theorem removeKey_alike (h : SameDomain d m m') (hmem : d ∈ m.domainKeyMap) (k : Nat) :
    Lockstep (Alike d) (m.removeKey d k) (m'.removeKey d k) := by
  obtain ⟨map', hkeys, rfl⟩ := h.eq_withMap
  have hmem' : d ∈ map' := (SameDomain.mem hkeys).mpr hmem
  unfold OpenbaoKeyManager.removeKey
  dsimp only
  rw [SameDomain.isEmpty hmem, SameDomain.isEmpty hmem', hkeys]
  refine Lockstep.locked (.ite (fun _ => .ret (alike _ h)) fun _ => ?_)
  refine .ite (fun _ => .ret (alike _ h)) fun _ => ?_
  refine .ite (fun _ => .ret (alike _ h)) fun _ => ?_
  refine .ite (fun _ => .ret (alike _ h)) fun _ => ?_
  cases hsub : m.domainKeyMap[d]? with
  | none => exact .ret (alike _ h)
  | some subMap =>
    refine .ite (fun _ => .ret (alike _ h)) fun _ => ?_
    refine .bind_same _ fun ret => .ite (fun _ => .ret (alike _ h)) fun _ => ?_
    exact .ret (alike _ (.withMaps m (SameDomain.dropIfEmpty (SameDomain.eraseKey hkeys))))

/-- `GenerateKeyId` looks at nothing but its domain. -/
theorem generateKeyId_withMap (m : OpenbaoKeyManager) {map' : DomainKeyMap}
    (hkeys : map'[d]? = m.domainKeyMap[d]?) :
    (generateKeyId { m with domainKeyMap := map' } d).1 = (m.generateKeyId d).1 := by
  unfold OpenbaoKeyManager.generateKeyId
  dsimp only
  rw [SameDomain.at' hkeys]
  split
  · rfl
  split
  · rfl
  split <;> rfl

/-- What `CreateKey` leaves, with the domain in the map where it made a key. -/
def AlikeMade (d : Nat) (a b : (KeyManagerRC × Nat) × OpenbaoKeyManager) : Prop :=
  Alike d a b ∧ (a.1.1 = .ok → d ∈ a.2.domainKeyMap)

theorem createKey_alike (H : KmHost) (h : SameDomain d m m') :
    Lockstep (AlikeMade d) (m.createKey H d) (m'.createKey H d) := by
  obtain ⟨map', hkeys, rfl⟩ := h.eq_withMap
  have htouched : SameDomain d (touched m d) (touched { m with domainKeyMap := map' } d) :=
    .withMaps m (SameDomain.touch hkeys)
  have hmem : d ∈ (touched m d).domainKeyMap := SameDomain.mem_touch _
  have hret : ∀ r : KeyManagerRC × Nat, Lockstep (AlikeMade d)
      (.ret (r, touched m d) : Km ((KeyManagerRC × Nat) × OpenbaoKeyManager))
      (.ret (r, touched { m with domainKeyMap := map' } d)) := fun r =>
    .ret ⟨alike _ htouched, fun _ => hmem⟩
  unfold OpenbaoKeyManager.createKey
  refine Lockstep.locked (.ite (fun hinvalid => .ret ⟨alike _ h, fun hok => absurd hok hinvalid⟩)
    fun _ => ?_)
  dsimp only
  rw [generateKeyId_map, generateKeyId_map, generateKeyId_withMap m hkeys]
  refine .ite (fun _ => hret _) fun _ => ?_
  refine .bind_same _ fun ret => .ite (fun _ => hret _) fun _ => ?_
  refine .bind_same _ fun ret => .ite (fun _ => hret _) fun _ => ?_
  refine .bind_same _ fun result => .ite (fun _ => hret _) fun _ => ?_
  refine .bind_same _ fun time => .ite (fun _ => ?_) fun _ => ?_
  · refine (removeKey_alike htouched hmem _).bind fun a b hab => .ret ⟨⟨rfl, hab.2⟩, fun hok => ?_⟩
    cases hok
  · refine .ret ⟨alike _ (.withMaps m (SameDomain.addKey (SameDomain.touch hkeys))), fun _ => ?_⟩
    show d ∈ (m.domainKeyMap.touch d).addKey d _ time
    simp [DomainKeyMap.addKey]

theorem getLatestKey_alike (H : KmHost) (h : SameDomain d m m') (hmem : d ∈ m.domainKeyMap)
    (id : Nat) : Lockstep (AlikeIn d) (m.getLatestKey H d id) (m'.getLatestKey H d id) := by
  obtain ⟨map', hkeys, rfl⟩ := h.eq_withMap
  have hmem' : d ∈ map' := (SameDomain.mem hkeys).mpr hmem
  have htouched : SameDomain d (touched m d) (touched { m with domainKeyMap := map' } d) :=
    .withMaps m (SameDomain.touch hkeys)
  have htouchedMem : d ∈ (touched m d).domainKeyMap := SameDomain.mem_touch _
  unfold OpenbaoKeyManager.getLatestKey
  dsimp only
  rw [SameDomain.isEmpty hmem, SameDomain.isEmpty hmem', SameDomain.at' hkeys]
  refine .ite (fun _ => .ret ⟨alike _ h, hmem⟩) fun _ => ?_
  refine .ite (fun _ => .ret ⟨alike _ h, hmem⟩) fun _ => ?_
  cases lastKey? (m.domainKeyMap.at' d) with
  | none => exact .ret ⟨alike _ htouched, htouchedMem⟩
  | some k =>
    refine .bind_same _ fun result => .bind_same _ fun key => ?_
    exact .ret ⟨alike _ htouched, htouchedMem⟩

theorem sealText_alike (H : KmHost) (h : SameDomain d m m') (symAlg : CryptoSymAlg)
    (d' k : Nat) (plaintext keyVec : Bytes) :
    Lockstep (Alike d) (m.sealText H symAlg d' k plaintext keyVec)
      (m'.sealText H symAlg d' k plaintext keyVec) := by
  unfold sealText
  refine .bind_same _ fun w => ?_
  exact .ite (fun _ => .ret (alike _ h)) fun _ => .ret (alike _ h)

/-- The checks of `Encrypt` and `Decrypt`, where the domain is there. -/
theorem checkEncryptAndDecryptParams_withMap {map' : DomainKeyMap}
    (hkeys : map'[d]? = m.domainKeyMap[d]?) (hmem : d ∈ m.domainKeyMap) (symAlg : CryptoSymAlg) :
    checkEncryptAndDecryptParams { m with domainKeyMap := map' } d symAlg =
      m.checkEncryptAndDecryptParams d symAlg := by
  have hmem' : d ∈ map' := (SameDomain.mem hkeys).mpr hmem
  unfold OpenbaoKeyManager.checkEncryptAndDecryptParams
  dsimp only
  rw [SameDomain.isEmpty hmem, SameDomain.isEmpty hmem']
  simp only [hmem, hmem']

theorem encrypt_alike (H : KmHost) (h : SameDomain d m m') (hmem : d ∈ m.domainKeyMap)
    (symAlg : CryptoSymAlg) (plaintext : Bytes) :
    Lockstep (Alike d) (m.encrypt H symAlg d plaintext) (m'.encrypt H symAlg d plaintext) := by
  obtain ⟨map', hkeys, rfl⟩ := h.eq_withMap
  unfold OpenbaoKeyManager.encrypt
  rw [checkEncryptAndDecryptParams_withMap hkeys hmem]
  refine Lockstep.locked (.ite (fun _ => .ret (alike _ h)) fun _ => ?_)
  refine .ite (fun _ => .ret (alike _ h)) fun _ => ?_
  refine (getLatestKey_alike H h hmem 0).bind fun a b hab => ?_
  obtain ⟨⟨heq, hsame⟩, hin⟩ := hab
  rw [heq]
  refine .ite (fun _ => ?_) fun _ => sealText_alike H hsame _ _ _ _ _
  refine (createKey_alike H hsame).bind fun a' b' hab' => ?_
  obtain ⟨⟨heq', hsame'⟩, hmade⟩ := hab'
  rw [← heq']
  refine .ite (fun _ => .ret (alike _ hsame')) fun hok => ?_
  refine (getLatestKey_alike H hsame' (hmade (not_not.mp hok)) _).bind fun a'' b'' hab'' => ?_
  obtain ⟨⟨heq'', hsame''⟩, -⟩ := hab''
  rw [heq'']
  exact sealText_alike H hsame'' _ _ _ _ _

/-- A manager that serves one domain refuses no parameters but as invalid ones. -/
theorem checkEncryptAndDecryptParams_invalid {symAlg symAlg' : CryptoSymAlg} {d' : Nat}
    (hparams : m.checkEncryptAndDecryptParams d symAlg = .ok) :
    m.checkEncryptAndDecryptParams d' symAlg' = .ok ∨
      m.checkEncryptAndDecryptParams d' symAlg' = .invalidParam := by
  obtain ⟨hinited, hmem, -, -⟩ := checkEncryptAndDecryptParams_eq_ok.mp hparams
  unfold OpenbaoKeyManager.checkEncryptAndDecryptParams
  rw [if_neg (not_not.mpr hinited), SameDomain.isEmpty hmem, if_neg Bool.false_ne_true]
  split
  · exact .inr rfl
  split
  · exact .inr rfl
  split
  · exact .inr rfl
  · exact .inl rfl

/-- A header of another domain is an invalid parameter, whatever is the matter with it. -/
theorem foreignHeader_refused {rc : KeyManagerRC} {header : CipherHeader} {symAlg : CryptoSymAlg}
    {rest : Km (KeyManagerRC × Bytes)} (hrc : rc = .ok ∨ rc = .invalidParam)
    (hne : header.domainId ≠ d) :
    (if rc ≠ .ok then .ret (rc, [])
      else if header.symAlg ≠ symAlg then .ret (.invalidParam, [])
      else if header.domainId ≠ d then .ret (.invalidParam, [])
      else rest) = (.ret (.invalidParam, []) : Km (KeyManagerRC × Bytes)) := by
  rcases hrc with rfl | rfl
  · rw [if_neg (not_not.mpr rfl), if_pos hne]
    split <;> rfl
  · exact if_pos (by decide)

theorem decrypt_alike (H : KmHost) (h : SameDomain d m m') (hmem : d ∈ m.domainKeyMap)
    (symAlg : CryptoSymAlg) (ciphertext : Bytes) :
    Lockstep Eq (m.decrypt H symAlg d ciphertext) (m'.decrypt H symAlg d ciphertext) := by
  obtain ⟨map', hkeys, rfl⟩ := h.eq_withMap
  have hsame := checkEncryptAndDecryptParams_withMap hkeys hmem symAlg
  unfold OpenbaoKeyManager.decrypt
  rw [hsame]
  refine Lockstep.locked (.ite (fun _ => .ret rfl) fun hparams => ?_)
  have hparams : m.checkEncryptAndDecryptParams d symAlg = .ok := not_not.mp hparams
  refine .ite (fun _ => .ret rfl) fun _ => ?_
  unfold parseCipherHeader
  cases readCipherHeader (bas64DecodeCipherText ciphertext) with
  | none => exact .ret rfl
  | some header =>
    dsimp only
    by_cases hdomain : header.domainId = d
    · rw [hdomain, checkEncryptAndDecryptParams_withMap hkeys hmem, SameDomain.at' hkeys]
      exact .refl _
    · -- the check of such a header may tell them apart, its code does not
      rw [foreignHeader_refused (checkEncryptAndDecryptParams_invalid hparams) hdomain,
        foreignHeader_refused (checkEncryptAndDecryptParams_invalid (hsame.trans hparams)) hdomain]
      exact .ret rfl

theorem displayKey_alike (h : SameDomain d m m') :
    Lockstep Eq (m.displayKey d) (m'.displayKey d) := by
  obtain ⟨map', hkeys, rfl⟩ := h.eq_withMap
  unfold OpenbaoKeyManager.displayKey
  dsimp only
  rw [hkeys]
  exact .refl _

theorem checkDomainKeysExpired_alike (h : SameDomain d m m') (hmem : d ∈ m.domainKeyMap)
    (lead : Nat) :
    Lockstep Eq (m.checkDomainKeysExpired d lead) (m'.checkDomainKeysExpired d lead) := by
  obtain ⟨map', hkeys, rfl⟩ := h.eq_withMap
  have hmem' : d ∈ map' := (SameDomain.mem hkeys).mpr hmem
  unfold OpenbaoKeyManager.checkDomainKeysExpired
  dsimp only
  rw [hkeys, SameDomain.isEmpty hmem, SameDomain.isEmpty hmem']
  exact .refl _

theorem autoUpdateLoop_alike (H : KmHost) (lead : Nat) (time : Int) (keys : List (Nat × Int)) :
    ∀ {m m' : OpenbaoKeyManager}, SameDomain d m m' → Lockstep (Alike d)
      (autoUpdateLoop H d lead time m keys) (autoUpdateLoop H d lead time m' keys) := by
  induction keys with
  | nil => exact fun h => .ret (alike _ h)
  | cons key keys ih =>
    intro m m' h
    obtain ⟨map', hkeys, rfl⟩ := h.eq_withMap
    unfold autoUpdateLoop
    refine .ite (fun _ => .ret (alike _ h)) fun _ => ?_
    refine .ite (fun _ => .ret (alike _ h)) fun _ => ?_
    refine .ite (fun _ => ?_) fun _ => ih h
    refine .bind_same _ fun ret => .ite (fun _ => .ret (alike _ h)) fun _ => ?_
    refine .bind_same _ fun result => .ite (fun _ => .ret (alike _ h)) fun _ => ?_
    refine .bind_same _ fun timeTmp => .ite (fun _ => .ret (alike _ h)) fun _ => ?_
    exact ih (.withMaps m (SameDomain.setTime hkeys))

theorem autoUpdate_alike (H : KmHost) (h : SameDomain d m m') (hmem : d ∈ m.domainKeyMap)
    (lead : Nat) : Lockstep (Alike d) (m.checkDomainKeysExpiredAndAutoUpdate H d lead)
      (m'.checkDomainKeysExpiredAndAutoUpdate H d lead) := by
  obtain ⟨map', hkeys, rfl⟩ := h.eq_withMap
  have hmem' : d ∈ map' := (SameDomain.mem hkeys).mpr hmem
  have hparams : checkDomainKeysExpiredParams { m with domainKeyMap := map' } d lead =
      m.checkDomainKeysExpiredParams d lead := by
    unfold checkDomainKeysExpiredParams
    dsimp only
    rw [SameDomain.isEmpty hmem, SameDomain.isEmpty hmem']
    simp only [hmem, hmem']
  unfold OpenbaoKeyManager.checkDomainKeysExpiredAndAutoUpdate
  dsimp only
  rw [hparams, SameDomain.at' hkeys]
  refine Lockstep.locked (.bind_same _ fun time => .ite (fun _ => .ret (alike _ h)) fun _ => ?_)
  refine .ite (fun _ => .ret (alike _ h)) fun _ => ?_
  exact autoUpdateLoop_alike H lead time _ h

end Alike

/-- The operation is made on a domain that is there, or makes its first key. -/
def Present (m : OpenbaoKeyManager) (d : Nat) (op : Op) : Prop :=
  d ∈ m.domainKeyMap ∨ op = .createKey d

/-- **One operation, one domain, read.** Where two managers agree on the domain, an operation on it
runs the same commands, answers the same and leaves them agreed. -/
theorem prog_alike {H : KmHost} {m m' : OpenbaoKeyManager} {op : Op} {d : Nat}
    (hop : op.domain? = some d) (hpresent : Present m d op) (h : SameDomain d m m') :
    Lockstep (Alike d) (op.prog H m) (op.prog H m') := by
  have hmem : (∀ d', op ≠ .createKey d') → d ∈ m.domainKeyMap := fun hne =>
    hpresent.resolve_right (hne d)
  cases op with
  | createKey d' =>
    obtain rfl := Option.some.inj hop
    exact (createKey_alike H h).bind fun a b hab => .ret ⟨by rw [hab.1.1], hab.1.2⟩
  | removeKey d' k =>
    obtain rfl := Option.some.inj hop
    have hmem := hmem fun _ heq => by cases heq
    exact (removeKey_alike h hmem k).bind fun a b hab => .ret ⟨by rw [hab.1], hab.2⟩
  | displayKey d' =>
    obtain rfl := Option.some.inj hop
    exact (displayKey_alike h).bind fun a b hab => .ret ⟨by rw [hab], h⟩
  | checkDomainKeysExpired d' lead =>
    obtain rfl := Option.some.inj hop
    have hmem := hmem fun _ heq => by cases heq
    exact (checkDomainKeysExpired_alike h hmem lead).bind fun a b hab => .ret ⟨by rw [hab], h⟩
  | checkDomainKeysExpiredAndAutoUpdate d' lead =>
    obtain rfl := Option.some.inj hop
    have hmem := hmem fun _ heq => by cases heq
    exact (autoUpdate_alike H h hmem lead).bind fun a b hab => .ret ⟨by rw [hab.1], hab.2⟩
  | getLatestKey d' id =>
    obtain rfl := Option.some.inj hop
    have hmem := hmem fun _ heq => by cases heq
    exact (getLatestKey_alike H h hmem id).bind fun a b hab =>
      .ret ⟨by rw [hab.1.1], hab.1.2⟩
  | encrypt symAlg d' plaintext =>
    obtain rfl := Option.some.inj hop
    have hmem := hmem fun _ heq => by cases heq
    exact (encrypt_alike H h hmem symAlg plaintext).bind fun a b hab =>
      .ret ⟨by rw [hab.1], hab.2⟩
  | decrypt symAlg d' ciphertext =>
    obtain rfl := Option.some.inj hop
    have hmem := hmem fun _ heq => by cases heq
    exact (decrypt_alike H h hmem symAlg ciphertext).bind fun a b hab => .ret ⟨by rw [hab], h⟩
  | _ => cases hop

end CdfCrypto.KeyManagement
