import CdfCrypto.KeyManagement.Isolation

/-!
# The calls on other domains, taken out of a run

A run of the key manager over its store, seen from one domain: the keys that the manager has
there, and those that the store has under its names (`SameView`). A call on the domain does the
same from any two systems with the same view and leaves them so (`stepOn_sameView`), and a call on
another domain does not change the view (`stepOff_sameView`). So the calls on other domains can be
taken out of a run, and nobody who uses the domain can tell (`purge_of_run`).
-/

namespace CdfCrypto.KeyManagement

open Lib OpenbaoKeyManager

/-! ## The store, seen from a domain -/

/-- Two stores with the same keys under the names of the domain. -/
def SameKeys (d : Nat) (store store' : TransitStore) : Prop :=
  ∀ k, store'.key? d k = store.key? d k

section SameKeys

variable {J : RapidJson} {d d' k : Nat} {store store' other : TransitStore} {ev : KmEvent}
variable {tr : List KmEvent}

/-- What a command does to the domain it names, it does in any store with the same keys there. -/
theorem SameKeys.apply {version : KeyVersion} {cmd : Command} (h : SameKeys d store other)
    (hcmd : cmd.domain? = some d) (happly : store.apply version cmd = some store') :
    ∃ other', other.apply version cmd = some other' ∧ SameKeys d store' other' := by
  cases cmd with
  | list => cases hcmd
  | read d' k =>
    obtain rfl := Option.some.inj hcmd
    obtain ⟨key, hkey, rfl⟩ := Option.map_eq_some_iff.mp happly
    exact ⟨other, Option.map_eq_some_iff.mpr ⟨key, (h k).trans hkey, rfl⟩, h⟩
  | create d' k =>
    obtain rfl := Option.some.inj hcmd
    obtain rfl := Option.some.inj happly
    refine ⟨_, rfl, fun k' => ?_⟩
    rw [key?_insertIfNew, key?_insertIfNew, h k, h k']
  | config d' k flags =>
    obtain rfl := Option.some.inj hcmd
    obtain ⟨key, hkey, rfl⟩ := Option.map_eq_some_iff.mp happly
    refine ⟨_, Option.map_eq_some_iff.mpr ⟨key, (h k).trans hkey, rfl⟩, fun k' => ?_⟩
    rw [key?_insert, key?_insert, h k']
  | delete d' k =>
    obtain rfl := Option.some.inj hcmd
    unfold TransitStore.apply at happly ⊢
    dsimp only at happly ⊢
    rw [h k]
    cases hkey : store.key? d' k with
    | none =>
      rw [hkey] at happly
      cases happly
    | some key =>
      rw [hkey] at happly
      dsimp only at happly ⊢
      split at happly
      next hallowed =>
        obtain rfl := Option.some.inj happly
        refine ⟨_, if_pos hallowed, fun k' => ?_⟩
        rw [key?_erase, key?_erase, h k']
      · cases happly
  | exportKey d' k =>
    obtain rfl := Option.some.inj hcmd
    unfold TransitStore.apply at happly ⊢
    dsimp only at happly ⊢
    rw [h k]
    cases hkey : store.key? d' k with
    | none =>
      rw [hkey] at happly
      cases happly
    | some key =>
      rw [hkey] at happly
      dsimp only at happly ⊢
      split at happly
      next hexportable =>
        obtain rfl := Option.some.inj happly
        exact ⟨other, if_pos hexportable, h⟩
      · cases happly

theorem SameKeys.prints {out : Bytes} {cmd : Command} (h : SameKeys d store other)
    (hcmd : cmd.domain? = some d) (hprints : Prints J store out cmd) : Prints J other out cmd := by
  cases cmd with
  | read d' k =>
    obtain rfl := Option.some.inj hcmd
    exact fun key hkey => hprints key ((h k).symm.trans hkey)
  | exportKey d' k =>
    obtain rfl := Option.some.inj hcmd
    exact fun key hkey => hprints key ((h k).symm.trans hkey)
  | _ => trivial

/-- One event on the domain. -/
theorem SameKeys.step (h : SameKeys d store other) (hev : Confined d ev.1)
    (hstep : TransitStep J store ev store') :
    ∃ other', TransitStep J other ev other' ∧ SameKeys d store' other' := by
  obtain ⟨c, reply⟩ := ev
  cases c with
  | run exePath token cmd =>
    by_cases hs : Succeeded reply
    · obtain ⟨⟨version, happly⟩, hprints⟩ := (if_pos hs).mp hstep
      obtain ⟨other', happly', h'⟩ := h.apply hev happly
      exact ⟨other', transitStep_succeeded hs happly' (h.prints hev hprints), h'⟩
    · obtain rfl := (if_neg hs).mp hstep
      exact ⟨other, transitStep_failed hs, h⟩
  | acquire mode =>
    obtain rfl := hstep
    exact ⟨other, rfl, h⟩
  | release mode =>
    obtain rfl := hstep
    exact ⟨other, rfl, h⟩
  | time =>
    obtain rfl := hstep
    exact ⟨other, rfl, h⟩
  | canonicalPath path =>
    obtain rfl := hstep
    exact ⟨other, rfl, h⟩
  | crypt =>
    obtain rfl := hstep
    exact ⟨other, rfl, h⟩

/-- A trace on the domain. -/
theorem SameKeys.run (hrun : Run (TransitStep J) store tr store') (htr : ConfinedTo d tr) :
    ∀ {other : TransitStore}, SameKeys d store other →
      ∃ other', Run (TransitStep J) other tr other' ∧ SameKeys d store' other' := by
  induction hrun with
  | nil store => exact fun {other} h => ⟨other, .nil other, h⟩
  | cons hstep _ ih =>
    intro other h
    obtain ⟨hfirst, hrest⟩ := confinedTo_cons.mp htr
    obtain ⟨mid, hmid, hsame⟩ := h.step hfirst hstep
    obtain ⟨other', hrun', hsame'⟩ := ih hrest hsame
    exact ⟨other', .cons hmid hrun', hsame'⟩

/-- One event on another domain. -/
theorem sameKeys_of_step (hne : d' ≠ d) (hev : Confined d' ev.1)
    (hstep : TransitStep J store ev store') : SameKeys d store store' := by
  intro k
  cases hstep.change with
  | same _ => rfl
  | created version =>
    obtain rfl := Option.some.inj hev
    rw [key?_insertIfNew, if_neg fun hboth => hne hboth.1.1]
  | configured hkey =>
    obtain rfl := Option.some.inj hev
    rw [key?_insert, if_neg fun hboth => hne hboth.1]
  | deleted hs =>
    obtain rfl := Option.some.inj hev
    rw [key?_erase, if_neg fun hboth => hne hboth.1]

/-- A trace on another domain. -/
theorem sameKeys_of_run (hne : d' ≠ d) (hrun : Run (TransitStep J) store tr store')
    (htr : ConfinedTo d' tr) : SameKeys d store store' := by
  induction hrun with
  | nil store => exact fun k => rfl
  | cons hstep _ ih =>
    obtain ⟨hfirst, hrest⟩ := confinedTo_cons.mp htr
    exact fun k => (ih hrest k).trans (sameKeys_of_step hne hfirst hstep k)

end SameKeys

/-! ## The system, seen from a domain -/

/-- The domain looks the same in both. -/
structure SameView (d : Nat) (s u : KmSystem) : Prop where
  manager : SameDomain d s.manager u.manager
  store : SameKeys d s.store u.store

section SameView

variable {H : KmHost} {d d' : Nat} {s s' t u : KmSystem} {call : KmCall} {calls : List KmCall}

/-- A step that keeps to one domain comes back. -/
theorem returned_of_keepsTo (hkeeps : wp (call.op.prog H s.manager) (KeepsTo H d s.manager))
    (hstep : KmStep H s call s') : ConfinedTo d call.tr ∧ LeavesOthers d s.manager s'.manager ∧
      ∃ answer, call.answer = some answer ∧
        Traces (call.op.prog H s.manager) call.tr (.ret (answer, s'.manager)) ∧
        Run (TransitStep H.json) s.store call.tr s'.store := by
  cases hstep with
  | returned htr hstore =>
    have h := wp_iff.mp hkeeps _ _ htr
    exact ⟨h.confined, h.leaves _ _ rfl, _, rfl, htr, hstore⟩
  | undefined htr hstore =>
    -- the store never prints what would stop one of these
    obtain ⟨ev, hev, hfaults⟩ := (wp_iff.mp hkeeps _ _ htr).defined rfl
    exact absurd hfaults (not_readerFaults_of_run hstore ev hev)

/-- **A call on the domain** does the same from any system with the same view. -/
theorem stepOn_sameView (hop : call.op.domain? = some d) (hpresent : Present s.manager d call.op)
    (hstep : KmStep H s call s') (hview : SameView d s u) :
    ∃ u', KmStep H u call u' ∧ SameView d s' u' := by
  obtain ⟨hconfined, -, answer, hanswer, htr, hstore⟩ :=
    returned_of_keepsTo (prog_keepsTo hop) hstep
  obtain ⟨⟨answer', manager'⟩, htr', heq, hsame⟩ :=
    (prog_alike hop hpresent hview.manager).traces htr
  obtain ⟨store', hstore', hkeys⟩ := SameKeys.run hstore hconfined hview.store
  obtain ⟨op, tr, answer?⟩ := call
  obtain rfl : answer? = some answer := hanswer
  obtain rfl : answer = answer' := heq
  exact ⟨⟨manager', store'⟩, .returned htr' hstore', hsame, hkeys⟩

/-- A call on no domain, or on another one. -/
def Elsewhere (d : Nat) (op : Op) : Prop :=
  (∃ d', d' ≠ d ∧ op.domain? = some d') ∨ op = .displayAllKey

/-- **A call elsewhere** does not change the view. -/
theorem stepOff_sameView (hop : Elsewhere d call.op) (hstep : KmStep H s call s') :
    SameView d s s' := by
  have hoff : ∀ d', d' ≠ d → wp (call.op.prog H s.manager) (KeepsTo H d' s.manager) →
      SameView d s s' := by
    intro d' hne hkeeps
    obtain ⟨hconfined, hleaves, -, -, -, hstore⟩ := returned_of_keepsTo hkeeps hstep
    exact ⟨.of_leavesOthers hleaves hne.symm, sameKeys_of_run hne hstore hconfined⟩
  rcases hop with ⟨d', hne, hdomain⟩ | hall
  · exact hoff d' hne (prog_keepsTo hdomain)
  · refine hoff (d + 1) (Nat.succ_ne_self d) ?_
    rw [hall]
    exact displayAllKey_keepsTo s.manager (d + 1)

theorem SameView.trans (h : SameView d s t) (h' : SameView d t u) : SameView d s u :=
  ⟨h.manager.trans h'.manager, fun k => (h'.store k).trans (h.store k)⟩

theorem SameDomain.symm {m m' : OpenbaoKeyManager} (h : SameDomain d m m') : SameDomain d m' m := by
  obtain ⟨map', hkeys, rfl⟩ := h.eq_withMap
  exact ⟨rfl, hkeys.symm⟩

theorem SameView.symm (h : SameView d s u) : SameView d u s :=
  ⟨h.manager.symm, fun k => (h.store k).symm⟩

/-- The calls that may be made by the users of all domains. -/
def OnDomains (d : Nat) (s : KmSystem) (call : KmCall) : Prop :=
  (call.op.domain? = some d ∧ Present s.manager d call.op) ∨ Elsewhere d call.op

/-- **Purge.** Of a run of calls on any domains, the calls on one of them are a run by
themselves, with the same commands and the same answers, from any system in which this domain looks
the same; and it looks the same at the end. -/
theorem purge_of_run (hrun : Run (Guarded (OnDomains d) (KmStep H)) s calls t)
    (hview : SameView d s u) :
    ∃ v, Run (KmStep H) u (calls.filter fun call => call.op.domain? = some d) v ∧
      SameView d t v := by
  induction hrun generalizing u with
  | nil s => exact ⟨u, .nil u, hview⟩
  | @cons s s' t call calls hl _ ih =>
    obtain ⟨hguard, hstep⟩ := hl
    rcases hguard with ⟨hop, hpresent⟩ | helse
    · obtain ⟨u', hstep', hview'⟩ := stepOn_sameView hop hpresent hstep hview
      obtain ⟨v, hrun, hend⟩ := ih hview'
      rw [List.filter_cons, if_pos (decide_eq_true hop)]
      exact ⟨v, .cons hstep' hrun, hend⟩
    · have hnot : ¬ call.op.domain? = some d := by
        rcases helse with ⟨d', hne, hdomain⟩ | hall
        · exact fun heq => hne (Option.some.inj (hdomain.symm.trans heq))
        · rw [hall]
          exact fun heq => by cases heq
      rw [List.filter_cons, if_neg fun hyes => hnot (of_decide_eq_true hyes)]
      exact ih ((stepOff_sameView helse hstep).symm.trans hview)

end SameView

/-! ## Two users of the sample -/

theorem SameView.refl (d : Nat) (s : KmSystem) : SameView d s s := ⟨.refl s.manager, fun _ => rfl⟩

/-- A key made in domain 1, and then a text sealed in domain 0 with a key the store gives. -/
theorem purge_of_run_sample : ∃ created tr tr' c t v,
    Run (KmStep sampleHost) sampleSystem
      [⟨.createKey 1, tr, created⟩,
        ⟨.encrypt .aes256Gcm 0 (ascii "secret"), tr', some (.bytes .ok c)⟩] t ∧
    usedKey tr' = some (0, 3) ∧
    Run (KmStep sampleHost) sampleSystem
      [⟨.encrypt .aes256Gcm 0 (ascii "secret"), tr', some (.bytes .ok c)⟩] v ∧
    SameView 0 t v := by
  have hnone : sampleStore.key? 1 0 = none := by
    unfold sampleStore
    rw [key?_insert, if_neg (by decide)]
    rfl
  obtain ⟨store', hrun⟩ := run_created hnone createFlags
  have hmade : KmStep sampleHost sampleSystem ⟨.createKey 1, _, _⟩ ⟨_, store'⟩ :=
    .returned (traces_runWith sampleAnswer (Op.prog sampleHost sampleManager (.createKey 1)))
      (.cons rfl hrun)
  have helse : Elsewhere 0 (.createKey 1) := .inl ⟨1, by decide, rfl⟩
  have hsame := stepOff_sameView helse hmade
  -- the text is sealed after that as it was before
  obtain ⟨tr', c, hsealed, hused⟩ := kmStep_encrypt
  have hthere : 0 ∈ sampleManager.domainKeyMap := (sampleManager_holds.mpr ⟨rfl, rfl⟩).mem
  obtain ⟨t, hafter, -⟩ := stepOn_sameView rfl (.inl hthere) hsealed hsame
  have hmem := (SameDomain.mem hsame.manager.keys).mpr hthere
  have hlast : Run (Guarded (OnDomains 0) (KmStep sampleHost)) _ [_] t :=
    .cons ⟨.inl ⟨rfl, .inl hmem⟩, hafter⟩ (.nil _)
  have hcalls := Run.cons ⟨.inr helse, hmade⟩ hlast
  obtain ⟨v, hpurged, hview⟩ := purge_of_run hcalls (.refl 0 sampleSystem)
  exact ⟨_, _, tr', c, t, v, hcalls.mono fun _ _ _ hl => hl.2, hused, hpurged, hview⟩

end CdfCrypto.KeyManagement
