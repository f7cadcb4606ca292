import CdfCrypto.KeyManagement.DeleteAll
import CdfCrypto.KeyManagement.Header
import CdfCrypto.KeyManagement.RoundTrip

/-!
# Domains without keys

Five operations take a domain that is in the map for one that has a key. `RemoveKey` and
`DeleteAllKey` drop a domain with its last key, and `Init` and the automatic update write
only keys; but `GenerateKeyId` and `GetLatestKey` look the domain up with `operator[]`, which
puts it into the map where it is missing. A `CreateKey` that fails then, and a `GetLatestKey`,
leave an empty domain behind.

So no domain is without a key, and a failure leaves the map as it was, in every run in which
neither is called on a domain that is missing, or `CreateKey` makes its key there
(`traceless_of_run`).
-/

namespace CdfCrypto.KeyManagement

open Lib OpenbaoKeyManager

/-! ## The map -/

/-- A domain that is not empty has a last key. -/
theorem exists_mem_of_ne_empty {keys : KeyMap} (h : keys ≠ ∅) : ∃ k, k ∈ keys := by
  cases hlast : lastKey? keys with
  | none => exact absurd (lastKey?_eq_none.mp hlast) h
  | some k => exact ⟨k, (lastKey?_eq_some.mp hlast).1⟩

/-- Every domain of the map has a key. -/
def NoEmptyDomain (map : DomainKeyMap) : Prop := ∀ d ∈ map, ∃ k, map.Holds d k

namespace NoEmptyDomain

variable {map : DomainKeyMap} {d k : Nat} {t : Int}

theorem empty : NoEmptyDomain ∅ := fun _ hmem => absurd hmem Std.ExtTreeMap.not_mem_empty

/-- Writing a domain that has a key then. -/
theorem insert (h : NoEmptyDomain map) {keys : KeyMap} (hkey : k ∈ keys) :
    NoEmptyDomain (Std.ExtTreeMap.insert map d keys) := by
  intro d' hmem
  by_cases heq : d = d'
  · refine ⟨k, ?_⟩
    rw [DomainKeyMap.Holds, DomainKeyMap.at'_insert, if_pos heq]
    exact hkey
  · have hold : d' ∈ map := by simpa [Std.ExtTreeMap.mem_insert, heq] using hmem
    obtain ⟨k', hk'⟩ := h d' hold
    refine ⟨k', ?_⟩
    rw [DomainKeyMap.Holds, DomainKeyMap.at'_insert, if_neg heq]
    exact hk'

theorem addKey (h : NoEmptyDomain map) : NoEmptyDomain (map.addKey d k t) :=
  h.insert (k := k) (by simp [Std.ExtTreeMap.mem_insertIfNew])

theorem setTime (h : NoEmptyDomain map) : NoEmptyDomain (map.setTime d k t) :=
  h.insert (k := k) (by simp [Std.ExtTreeMap.mem_insert])

/-- Taking a key out, and the domain with it where it was the last. -/
theorem removeKey (h : NoEmptyDomain map) : NoEmptyDomain ((map.eraseKey d k).dropIfEmpty d) := by
  intro d' hmem
  have hat : ∀ k', ((map.eraseKey d k).dropIfEmpty d).Holds d' k' ↔
      (map.eraseKey d k).Holds d' k' := fun _ => DomainKeyMap.holds_dropIfEmpty
  simp only [hat]
  unfold DomainKeyMap.dropIfEmpty at hmem
  by_cases hempty : ((map.eraseKey d k).at' d).isEmpty = true
  · -- the domain is gone, and the others are as they were
    rw [if_pos hempty] at hmem
    obtain ⟨hne, hin⟩ := Std.ExtTreeMap.mem_erase.mp hmem
    have hne : d ≠ d' := by simpa using hne
    have hold : d' ∈ map := by simpa [DomainKeyMap.eraseKey, Std.ExtTreeMap.mem_insert, hne] using hin
    obtain ⟨k', hk'⟩ := h d' hold
    exact ⟨k', DomainKeyMap.holds_eraseKey.mpr ⟨fun hboth => hne hboth.1, hk'⟩⟩
  · by_cases heq : d = d'
    · subst heq
      exact exists_mem_of_ne_empty fun hnone => hempty (Std.ExtTreeMap.isEmpty_iff.mpr hnone)
    · rw [if_neg hempty] at hmem
      have hold : d' ∈ map := by
        simpa [DomainKeyMap.eraseKey, Std.ExtTreeMap.mem_insert, heq] using hmem
      obtain ⟨k', hk'⟩ := h d' hold
      exact ⟨k', DomainKeyMap.holds_eraseKey.mpr ⟨fun hboth => heq hboth.1, hk'⟩⟩

/-- An `operator[]` keeps this where it finds the domain. -/
theorem touch_iff (h : NoEmptyDomain map) : NoEmptyDomain (map.touch d) ↔ d ∈ map := by
  constructor
  · intro htouch
    obtain ⟨k, hk⟩ := htouch d (by simp [DomainKeyMap.touch])
    exact (DomainKeyMap.holds_touch.mp hk).mem
  · intro hmem
    rwa [DomainKeyMap.touch_of_mem hmem]

end NoEmptyDomain

/-! ## Operations that write keys only -/

/-- An execution from a map without empty domains comes back with one. -/
def NoEmptyOutcome {α : Type} : Outcome Fault (α × OpenbaoKeyManager) → Prop
  | .ret (_, m') => NoEmptyDomain m'.domainKeyMap
  | .halt _ => True

variable {H : KmHost} {m : OpenbaoKeyManager} {d : Nat}

theorem prepareMapLoop_noEmpty (pairs : List (Nat × Nat)) :
    ∀ {m : OpenbaoKeyManager}, NoEmptyDomain m.domainKeyMap →
      wp (prepareMapLoop H m pairs) fun _ o => NoEmptyOutcome o := by
  induction pairs with
  | nil => exact fun h => h
  | cons pair pairs ih =>
    intro m h
    refine wp_bind_any (fun _ result => ?_) fun _ _ => trivial
    split
    · exact h
    split
    · exact h
    refine wp_bind_any (fun _ time => ?_) fun _ _ => trivial
    split
    · exact ih (m := { m with domainKeyMap := m.domainKeyMap.addKey pair.1 pair.2 time }) h.addKey
    · exact NoEmptyDomain.empty

theorem prepareMap_noEmpty (h : NoEmptyDomain m.domainKeyMap) :
    wp (prepareMap H m) fun _ o => NoEmptyOutcome o := by
  refine wp_bind_any (fun _ result => ?_) fun _ _ => trivial
  split
  · exact h
  split
  · exact h
  split
  · exact h
  · exact h
  · refine wp_bind_of (prepareMapLoop_noEmpty _ h) (fun _ prepared hprepared => ?_)
      fun _ _ _ => trivial
    exact hprepared

/-- Giving the mutex back changes no map. -/
theorem noEmpty_unlocking {α : Type} {mode : LockMode} {tr : List KmEvent}
    {o : Outcome Fault (α × OpenbaoKeyManager)} (h : NoEmptyOutcome o) :
    Unlocking mode (fun _ o => NoEmptyOutcome o) tr o := by
  cases o with
  | ret a => exact h
  | halt x => trivial

theorem init_noEmpty (h : NoEmptyDomain m.domainKeyMap) (exePath accessToken : Bytes)
    (domainCount : Nat) :
    wp (m.init H exePath accessToken domainCount) fun _ o => NoEmptyOutcome o := by
  unfold OpenbaoKeyManager.init
  refine wp_locked.mpr (wp_mono (Q := fun _ o => NoEmptyOutcome o) ?_ fun tr o ho =>
    noEmpty_unlocking ho)
  split
  · exact h
  rw [Prog.perform_bind]
  intro canonical
  cases canonical with
  | none => exact h
  | some exeRealPath =>
    dsimp only
    split
    rotate_left
    · exact h
    split
    · exact h
    split
    · exact h
    refine wp_bind_of (prepareMap_noEmpty (m := withAccess m exeRealPath accessToken) h)
      (fun _ prepared hprepared => ?_) fun _ _ _ => trivial
    split
    · exact hprepared
    split
    · exact hprepared
    · exact hprepared

theorem removeKey_noEmpty (h : NoEmptyDomain m.domainKeyMap) (d k : Nat) :
    wp (m.removeKey d k) fun _ o => NoEmptyOutcome o := by
  refine wp_mono (removeKey_traces m d k) fun tr o htrace => ?_
  cases htrace with
  | refused _ => exact h
  | failed _ => exact h
  | removed _ _ => exact h.removeKey

/-- `DeleteAllKey` comes back with the map it was given, or with none. -/
theorem deleteAllKey_leaves (m : OpenbaoKeyManager) : wp m.deleteAllKey fun _ o =>
    ∀ rc m', o = .ret (rc, m') → m' = m ∨ m' = { m with domainKeyMap := ∅ } := by
  by_cases hinited : m.inited = true
  · refine wp_mono (deleteAllKey_outcome hinited) fun tr o h rc m' ho => ?_
    subst ho
    exact .inr h.2.1
  · unfold OpenbaoKeyManager.deleteAllKey
    rw [wp_locked, if_pos hinited]
    intro rc m' ho
    exact .inl (Prod.mk.inj (Outcome.ret.inj ho)).2.symm

theorem deleteAllKey_noEmpty (h : NoEmptyDomain m.domainKeyMap) :
    wp m.deleteAllKey fun _ o => NoEmptyOutcome o := by
  refine wp_mono (deleteAllKey_leaves m) fun tr o hleaves => ?_
  cases o with
  | halt x => trivial
  | ret a =>
    rcases hleaves a.1 a.2 rfl with heq | heq
    · show NoEmptyDomain a.2.domainKeyMap
      rw [heq]
      exact h
    · show NoEmptyDomain a.2.domainKeyMap
      rw [heq]
      exact NoEmptyDomain.empty

theorem autoUpdateLoop_noEmpty (lead : Nat) (time : Int) (keys : List (Nat × Int)) :
    ∀ {m : OpenbaoKeyManager}, NoEmptyDomain m.domainKeyMap →
      wp (autoUpdateLoop H d lead time m keys) fun _ o => NoEmptyOutcome o := by
  induction keys with
  | nil => exact fun h => h
  | cons key keys ih =>
    intro m h
    unfold autoUpdateLoop
    split
    · exact h
    split
    · exact h
    split
    rotate_left
    · exact ih h
    refine wp_bind_any (fun _ ret => ?_) fun _ _ => trivial
    split
    · exact h
    refine wp_bind_any (fun _ result => ?_) fun _ _ => trivial
    split
    · exact h
    refine wp_bind_any (fun _ timeTmp => ?_) fun _ _ => trivial
    split
    · exact h
    · exact ih (m := { m with domainKeyMap := m.domainKeyMap.setTime d key.1 timeTmp }) h.setTime

theorem autoUpdate_noEmpty (h : NoEmptyDomain m.domainKeyMap) (d lead : Nat) :
    wp (m.checkDomainKeysExpiredAndAutoUpdate H d lead) fun _ o => NoEmptyOutcome o := by
  unfold OpenbaoKeyManager.checkDomainKeysExpiredAndAutoUpdate
  refine wp_locked.mpr (wp_mono (Q := fun _ o => NoEmptyOutcome o) ?_ fun tr o ho =>
    noEmpty_unlocking ho)
  refine wp_perform_bind.mpr fun time => ?_
  split
  · exact h
  split
  · exact h
  · exact autoUpdateLoop_noEmpty lead time _ h

/-! ## `CreateKey` -/

/-- A read came back with the creation time of a key of the domain. -/
def Dates (H : KmHost) (d k : Nat) (time : Int) : KmEvent → Prop
  | ⟨.run _ _ (.read d' k'), reply⟩ => (d' = d ∧ k' = k) ∧ Succeeded reply ∧
    getJsonFieldMaxInt H.json reply.2 = .ok time ∧ time ≠ -1
  | _ => False

/-- The events tell the creation time of a key of the domain. In a `CreateKey` this is the last
of its commands, so all of them went through. -/
def Dated (H : KmHost) (tr : List KmEvent) (d : Nat) : Prop :=
  ∃ ev ∈ tr, ∃ k time, Dates H d k time ev

/-- What `CreateKey` comes to, by what it looked up. -/
def Generates (m : OpenbaoKeyManager) (d : Nat) :
    Outcome Fault ((KeyManagerRC × Nat) × OpenbaoKeyManager) → Prop
  | .ret (r, m') => (m.validateDomain d ≠ .ok → m' = m) ∧
    (m.validateDomain d = .ok → d ∈ m'.domainKeyMap) ∧
    (r.1 = .ok → (m.generateKeyId d).1 = r)
  | .halt _ => True

theorem createKey_generates (H : KmHost) (m : OpenbaoKeyManager) (d : Nat) :
    wp (m.createKey H d) fun _ o => Generates m d o := by
  have htouch : (m.generateKeyId d).2 = touched m d := generateKeyId_map m d
  have hmem : d ∈ (touched m d).domainKeyMap := by simp [touched, DomainKeyMap.touch]
  unfold OpenbaoKeyManager.createKey
  rw [wp_locked]
  split
  next hinvalid =>
    refine ⟨fun _ => rfl, fun hvalid => absurd hvalid hinvalid, fun hrc => absurd hrc hinvalid⟩
  next hvalid =>
  have hfailed : ∀ {r : KeyManagerRC × Nat}, r.1 ≠ .ok → Generates m d (.ret (r, touched m d)) :=
    fun hrc => ⟨fun hno => absurd hno hvalid, fun _ => hmem, fun h => absurd h hrc⟩
  dsimp only
  rw [htouch]
  split
  next hrefused => exact hfailed hrefused
  next hid =>
  refine wp_bind_any (fun _ ret => ?_) fun _ _ => trivial
  split
  · exact hfailed (by decide)
  refine wp_bind_any (fun _ ret => ?_) fun _ _ => trivial
  split
  · exact hfailed (by decide)
  refine wp_bind_any (fun _ result => ?_) fun _ _ => trivial
  split
  · exact hfailed (by decide)
  refine wp_bind_any (fun _ time => ?_) fun _ _ => trivial
  split
  · have hnot : ¬ (touched m d).domainKeyMap.Holds d (m.generateKeyId d).1.2 := by
      rw [touched, DomainKeyMap.holds_touch]
      exact (generateKeyId_spec (not_not.mp hid)).1
    refine wp_bind_of (removeKey_traces_of_not_holds hnot) (fun tr removed hsame => ?_)
      fun _ _ _ => trivial
    obtain ⟨rc, -, hret⟩ := hsame
    obtain rfl := Outcome.ret.inj hret
    exact hfailed (by decide)
  · refine ⟨fun hno => absurd hno hvalid, fun _ => ?_, fun _ => Prod.ext (not_not.mp hid) rfl⟩
    show d ∈ (touched m d).domainKeyMap.addKey d _ time
    simp [DomainKeyMap.addKey]

/-- How `CreateKey` ends. -/
inductive CreateKeyEnd (H : KmHost) (m : OpenbaoKeyManager) (d : Nat) (tr : List KmEvent) :
    Outcome Fault ((KeyManagerRC × Nat) × OpenbaoKeyManager) → Prop
  | refused {r : KeyManagerRC × Nat} (hinvalid : m.validateDomain d ≠ .ok) (hrc : r.1 ≠ .ok)
      (hnot : ¬ Dated H tr d) : CreateKeyEnd H m d tr (.ret (r, m))
  | failed {r : KeyManagerRC × Nat} (hvalid : m.validateDomain d = .ok) (hrc : r.1 ≠ .ok)
      (hnot : ¬ Dated H tr d) : CreateKeyEnd H m d tr (.ret (r, touched m d))
  | created {id : Nat} {time : Int} (hvalid : m.validateDomain d = .ok)
      (hid : (m.generateKeyId d).1 = (.ok, id)) (hdated : Dated H tr d) :
      CreateKeyEnd H m d tr (.ret ((.ok, id),
        { m with domainKeyMap := (m.domainKeyMap.touch d).addKey d id time }))
  | halted {x : Fault} : CreateKeyEnd H m d tr (.halt x)

theorem createKey_ends (H : KmHost) (m : OpenbaoKeyManager) (d : Nat) :
    wp (m.createKey H d) (CreateKeyEnd H m d) := by
  refine wp_mono (wp_and (createKey_traces H m d) (createKey_generates H m d)) fun tr o h => ?_
  obtain ⟨htrace, hgenerates⟩ := h
  -- what leaves the map but for the look-up, by whether there was one
  have hend : ∀ {r : KeyManagerRC × Nat} {m' : OpenbaoKeyManager}, Generates m d (.ret (r, m')) →
      r.1 ≠ .ok → (m' = m ∨ m' = touched m d) → ¬ Dated H tr d →
      CreateKeyEnd H m d tr (.ret (r, m')) := by
    intro r m' hgenerates hrc hm' hnot
    by_cases hvalid : m.validateDomain d = .ok
    · obtain rfl : m' = touched m d := by
        refine hm'.elim (fun heq => ?_) id
        have hmem := hgenerates.2.1 hvalid
        rw [heq] at hmem ⊢
        rw [touched, DomainKeyMap.touch_of_mem hmem]
      exact .failed hvalid hrc hnot
    · obtain rfl := hgenerates.1 hvalid
      exact .refused hvalid hrc hnot
  cases htrace with
  | invalid hrc =>
    exact hend hgenerates hrc (.inl rfl) (by simp [Dated, Dates, acquired, released])
  | refused hrc =>
    exact hend hgenerates hrc (.inr rfl) (by simp [Dated, Dates, acquired, released])
  | createFailed _ =>
    exact hend hgenerates (by decide) (.inr rfl) (by simp [Dated, Dates, acquired, released, ran])
  | configFailed _ _ =>
    exact hend hgenerates (by decide) (.inr rfl) (by simp [Dated, Dates, acquired, released, ran])
  | readFailed _ _ h₃ =>
    exact hend hgenerates (by decide) (.inr rfl)
      (by simp [Dated, Dates, acquired, released, ran, h₃])
  | faulted _ _ _ _ => exact .halted
  | noTime _ _ _ htime =>
    exact hend hgenerates (by decide) (.inr rfl)
      (by simp [Dated, Dates, acquired, released, ran, htime, eq_comm])
  | @created id r₁ r₂ r₃ time hvalid _ _ _ _ h₃ htime hne =>
    refine .created hvalid (hgenerates.2.2 rfl) ⟨ran m (.read d id) r₃, by simp, id, time, ?_⟩
    exact ⟨⟨rfl, rfl⟩, h₃, htime, hne⟩

/-! ## `GetLatestKey` and `Encrypt` -/

/-- What `GetLatestKey` comes to. -/
inductive GetLatestKeyEnd (m : OpenbaoKeyManager) (d : Nat) :
    Outcome Fault ((Bytes × Nat) × OpenbaoKeyManager) → Prop
  | refused {r : Bytes × Nat} (hrefused : m.validateDomain d ≠ .ok ∨ m.domainKeyMap.isEmpty = true) :
      GetLatestKeyEnd m d (.ret (r, m))
  | looked {r : Bytes × Nat} (hvalid : m.validateDomain d = .ok)
      (hsome : m.domainKeyMap.isEmpty ≠ true) : GetLatestKeyEnd m d (.ret (r, touched m d))
  | halted {x : Fault} : GetLatestKeyEnd m d (.halt x)

theorem getLatestKey_ends (H : KmHost) (m : OpenbaoKeyManager) (d id : Nat) :
    wp (m.getLatestKey H d id) fun _ o => GetLatestKeyEnd m d o := by
  unfold OpenbaoKeyManager.getLatestKey
  split
  next h => exact .refused (.inl h)
  next hvalid =>
  split
  next h => exact .refused (.inr h)
  next hsome =>
  have hvalid : m.validateDomain d = .ok := not_not.mp hvalid
  dsimp only
  split
  · exact .looked hvalid hsome
  · exact wp_bind_any (fun _ _ => wp_bind_any (fun _ _ => .looked hvalid hsome) fun _ _ => .halted)
      fun _ _ => .halted

/-- On a domain that is there, `GetLatestKey` changes nothing. -/
theorem GetLatestKeyTrace.unchanged {id : Nat} {tr : List KmEvent} {r : Bytes × Nat}
    {m' : OpenbaoKeyManager} (h : GetLatestKeyTrace H m d id tr (.ret (r, m')))
    (hmem : d ∈ m.domainKeyMap) : m' = m := by
  have htouched : touched m d = m := by rw [touched, DomainKeyMap.touch_of_mem hmem]
  cases h with
  | refused _ => rfl
  | noKey _ => exact htouched
  | noToken _ => exact htouched
  | exported _ _ _ => exact htouched

/-- On a domain that is there, `CreateKey` changes nothing or brings a key. -/
theorem CreateKeyTrace.noEmpty {tr : List KmEvent} {r : KeyManagerRC × Nat}
    {m' : OpenbaoKeyManager} (h : CreateKeyTrace H m d tr (.ret (r, m')))
    (hmem : d ∈ m.domainKeyMap) (hno : NoEmptyDomain m.domainKeyMap) :
    d ∈ m'.domainKeyMap ∧ NoEmptyDomain m'.domainKeyMap := by
  have htouched : touched m d = m := by rw [touched, DomainKeyMap.touch_of_mem hmem]
  cases h with
  | created _ _ _ _ _ _ _ _ =>
    refine ⟨by simp [DomainKeyMap.addKey], ?_⟩
    exact (hno.touch_iff.mpr hmem).addKey
  | _ => first | exact ⟨hmem, hno⟩ | exact htouched.symm ▸ ⟨hmem, hno⟩

/-- `Encrypt` checks that the domain is there before it looks it up. -/
theorem EncryptTrace.noEmpty {symAlg : CryptoSymAlg} {plaintext : Bytes} {tr : List KmEvent}
    {o : Outcome Fault ((KeyManagerRC × Bytes) × OpenbaoKeyManager)}
    (h : EncryptTrace H m symAlg d plaintext tr o) (hno : NoEmptyDomain m.domainKeyMap) :
    NoEmptyOutcome o := by
  have hthere : m.checkEncryptAndDecryptParams d symAlg = .ok → d ∈ m.domainKeyMap :=
    fun hparams => (checkEncryptAndDecryptParams_eq_ok.mp hparams).2.1
  cases h with
  | refused _ _ => exact hno
  | faulted _ _ _ => trivial
  | direct hparams _ _ _ _ => exact hno.touch_iff.mpr (hthere hparams)
  | createFaulted _ _ _ _ => trivial
  | createFailed hparams _ hfirst hcreate =>
    have hmem := hthere hparams
    obtain rfl := hfirst.unchanged hmem
    exact (hcreate.noEmpty hmem hno).2
  | secondFaulted _ _ _ _ _ => trivial
  | @recreated id k rc m₁ m₂ m₃ tr tr₁ tr₂ key w hparams _ hfirst hcreate hsecond =>
    have hmem := hthere hparams
    obtain rfl := hfirst.unchanged hmem
    obtain ⟨hmem₂, hno₂⟩ := hcreate.noEmpty hmem hno
    obtain rfl := hsecond.unchanged hmem₂
    exact hno₂

/-! ## Runs -/

/-- The two operations that look a domain up are called on one that is there, or refuse it, or
make a key in it. -/
def Traceless (H : KmHost) (m : OpenbaoKeyManager) (call : OpCall) : Prop :=
  match call.op with
  | .createKey d => d ∈ m.domainKeyMap ∨ m.validateDomain d ≠ .ok ∨ Dated H call.tr d
  | .getLatestKey d _ =>
    d ∈ m.domainKeyMap ∨ m.validateDomain d ≠ .ok ∨ m.domainKeyMap.isEmpty = true
  | _ => True

/-- A `CreateKey` or a `GetLatestKey` that fails. -/
def FailsLookUp : Op → Answer → Prop
  | .createKey _, .keyId rc _ => rc ≠ .ok
  | .getLatestKey _ _, .key vec _ => vec = []
  | _, _ => False

/-- An operation leaves no domain without a key, and the map as it was where it fails. -/
structure LeavesNoTrace (m : OpenbaoKeyManager) (op : Op) (answer : Answer)
    (m' : OpenbaoKeyManager) : Prop where
  noEmpty : NoEmptyDomain m'.domainKeyMap
  unchanged : FailsLookUp op answer → m'.domainKeyMap = m.domainKeyMap

/-- An operation that looks nothing up, by what it leaves. -/
theorem leavesNoTrace_of_noEmpty {α : Type} {op : Op} {tr : List KmEvent}
    {o : Outcome Fault (α × OpenbaoKeyManager)} {g : α × OpenbaoKeyManager → Answer × OpenbaoKeyManager}
    (hg : ∀ a, (g a).2 = a.2) (h : NoEmptyOutcome o) (htraceless : Traceless H m ⟨op, tr⟩)
    (hnot : ∀ answer, ¬ FailsLookUp op answer) :
    ∀ answer m', o.map g = .ret (answer, m') →
      (LeavesNoTrace m op answer m' ↔ Traceless H m ⟨op, tr⟩) := by
  intro answer m' heq
  cases o with
  | ret a =>
    obtain rfl : a.2 = m' := by
      rw [← hg]
      exact congrArg Prod.snd (Outcome.ret.inj heq)
    exact ⟨fun _ => htraceless, fun _ => ⟨h, fun hfails => absurd hfails (hnot answer)⟩⟩
  | halt x => cases heq

theorem createKey_leavesNoTrace (hno : NoEmptyDomain m.domainKeyMap) (d : Nat) :
    wp (Op.prog H m (.createKey d)) fun tr o => ∀ answer m', o = .ret (answer, m') →
      (LeavesNoTrace m (.createKey d) answer m' ↔ Traceless H m ⟨.createKey d, tr⟩) := by
  refine (wp_bind_ret fun _ => rfl).mpr (wp_mono (createKey_ends H m d) fun tr o h => ?_)
  intro answer m' heq
  cases h with
  | refused hinvalid hrc hnot =>
    obtain ⟨rfl, rfl⟩ := Prod.mk.inj (Outcome.ret.inj heq)
    exact ⟨fun _ => .inr (.inl hinvalid), fun _ => ⟨hno, fun _ => rfl⟩⟩
  | failed hvalid hrc hnot =>
    obtain ⟨rfl, rfl⟩ := Prod.mk.inj (Outcome.ret.inj heq)
    have hiff : Traceless H m ⟨.createKey d, tr⟩ ↔ d ∈ m.domainKeyMap := by
      refine ⟨fun htraceless => ?_, .inl⟩
      rcases htraceless with hmem | hinvalid | hdated
      · exact hmem
      · exact absurd hvalid hinvalid
      · exact absurd hdated hnot
    rw [hiff, ← hno.touch_iff]
    refine ⟨LeavesNoTrace.noEmpty, fun htouch => ⟨htouch, fun _ => ?_⟩⟩
    exact DomainKeyMap.touch_of_mem (hno.touch_iff.mp htouch)
  | created hvalid hid hdated =>
    obtain ⟨rfl, rfl⟩ := Prod.mk.inj (Outcome.ret.inj heq)
    refine ⟨fun _ => .inr (.inr hdated), fun _ => ⟨?_, fun hfails => absurd rfl hfails⟩⟩
    show NoEmptyDomain ((m.domainKeyMap.touch d).addKey d _ _)
    -- the domain was put there without a key, and has one now
    intro d' hmem
    by_cases heq : d = d'
    · exact ⟨_, DomainKeyMap.holds_addKey.mpr (.inl ⟨heq, rfl⟩)⟩
    · have hold : d' ∈ m.domainKeyMap := by
        simpa [DomainKeyMap.addKey, DomainKeyMap.touch, Std.ExtTreeMap.mem_insert,
          Std.ExtTreeMap.mem_insertIfNew, heq] using hmem
      obtain ⟨k, hk⟩ := hno d' hold
      exact ⟨k, DomainKeyMap.holds_addKey.mpr (.inr (DomainKeyMap.holds_touch.mpr hk))⟩
  | halted => cases heq

theorem getLatestKey_leavesNoTrace (hno : NoEmptyDomain m.domainKeyMap) (d id : Nat) :
    wp (Op.prog H m (.getLatestKey d id)) fun tr o => ∀ answer m', o = .ret (answer, m') →
      (LeavesNoTrace m (.getLatestKey d id) answer m' ↔ Traceless H m ⟨.getLatestKey d id, tr⟩) := by
  refine (wp_bind_ret fun _ => rfl).mpr (wp_mono (getLatestKey_ends H m d id) fun tr o h => ?_)
  intro answer m' heq
  cases h with
  | refused hrefused =>
    obtain ⟨rfl, rfl⟩ := Prod.mk.inj (Outcome.ret.inj heq)
    exact ⟨fun _ => .inr hrefused, fun _ => ⟨hno, fun _ => rfl⟩⟩
  | looked hvalid hsome =>
    obtain ⟨rfl, rfl⟩ := Prod.mk.inj (Outcome.ret.inj heq)
    have hiff : Traceless H m ⟨.getLatestKey d id, tr⟩ ↔ d ∈ m.domainKeyMap := by
      refine ⟨fun htraceless => ?_, .inl⟩
      rcases htraceless with hmem | hinvalid | hempty
      · exact hmem
      · exact absurd hvalid hinvalid
      · exact absurd hempty hsome
    rw [hiff, ← hno.touch_iff]
    refine ⟨LeavesNoTrace.noEmpty, fun htouch => ⟨htouch, fun _ => ?_⟩⟩
    exact DomainKeyMap.touch_of_mem (hno.touch_iff.mp htouch)
  | halted => cases heq

/-- The operations that return the manager they are given. -/
theorem leavesNoTrace_of_same {α : Type} {p : Km α} {f : α → Answer} {op : Op}
    (hno : NoEmptyDomain m.domainKeyMap) (htraceless : ∀ tr, Traceless H m ⟨op, tr⟩)
    (hnot : ∀ answer, ¬ FailsLookUp op answer) :
    wp (p >>= fun a => .ret (f a, m)) fun tr o => ∀ answer m', o = .ret (answer, m') →
      (LeavesNoTrace m op answer m' ↔ Traceless H m ⟨op, tr⟩) := by
  refine (wp_bind_ret fun _ => rfl).mpr (wp_iff.mpr fun tr o _ answer m' heq => ?_)
  cases o with
  | ret a =>
    obtain rfl : m = m' := congrArg Prod.snd (Outcome.ret.inj heq)
    exact ⟨fun _ => htraceless tr, fun _ => ⟨hno, fun hfails => absurd hfails (hnot answer)⟩⟩
  | halt x => cases heq

/-- **One operation**, from a map without empty domains. -/
theorem prog_leavesNoTrace (hno : NoEmptyDomain m.domainKeyMap) (op : Op) :
    wp (op.prog H m) fun tr o => ∀ answer m', o = .ret (answer, m') →
      (LeavesNoTrace m op answer m' ↔ Traceless H m ⟨op, tr⟩) := by
  cases op with
  | init exePath accessToken domainCount =>
    refine wp_bind_of (init_noEmpty hno exePath accessToken domainCount) ?_
      (fun tr x h answer m' heq => nomatch heq)
    intro tr result h
    -- whatever the code, the map is the one `Init` has made
    have hresult : ∀ answer m', (Outcome.ret (answer, result.2) : Outcome Fault _) = .ret (answer, m') →
        (LeavesNoTrace m (.init exePath accessToken domainCount) answer m' ↔ True) := by
      intro answer m' heq
      obtain rfl : result.2 = m' := congrArg Prod.snd (Outcome.ret.inj heq)
      exact ⟨fun _ => trivial, fun _ => ⟨h, fun hfails => hfails.elim⟩⟩
    split
    · intro answer m' heq
      obtain ⟨rfl, rfl⟩ := Prod.mk.inj (Outcome.ret.inj heq)
      exact hresult _ _ rfl
    · intro answer m' heq
      obtain ⟨rfl, rfl⟩ := Prod.mk.inj (Outcome.ret.inj heq)
      exact hresult _ _ rfl
  | unInit =>
    intro answer m' heq
    obtain ⟨rfl, rfl⟩ := Prod.mk.inj (Outcome.ret.inj heq)
    exact ⟨fun _ => trivial, fun _ => ⟨NoEmptyDomain.empty, fun hfails => hfails.elim⟩⟩
  | setType type =>
    intro answer m' heq
    obtain ⟨rfl, rfl⟩ := Prod.mk.inj (Outcome.ret.inj heq)
    exact ⟨fun _ => trivial, fun _ => ⟨hno, fun hfails => hfails.elim⟩⟩
  | createKey d => exact createKey_leavesNoTrace hno d
  | removeKey d k =>
    refine (wp_bind_ret fun _ => rfl).mpr (wp_mono (removeKey_noEmpty hno d k) fun tr o h => ?_)
    exact leavesNoTrace_of_noEmpty (fun _ => rfl) h trivial fun _ => id
  | deleteAllKey =>
    refine (wp_bind_ret fun _ => rfl).mpr (wp_mono (deleteAllKey_noEmpty hno) fun tr o h => ?_)
    exact leavesNoTrace_of_noEmpty (fun _ => rfl) h trivial fun _ => id
  | displayKey d => exact leavesNoTrace_of_same hno (fun _ => trivial) fun _ => id
  | displayAllKey => exact leavesNoTrace_of_same hno (fun _ => trivial) fun _ => id
  | checkDomainKeysExpired d lead => exact leavesNoTrace_of_same hno (fun _ => trivial) fun _ => id
  | checkDomainKeysExpiredAndAutoUpdate d lead =>
    refine (wp_bind_ret fun _ => rfl).mpr (wp_mono (autoUpdate_noEmpty hno d lead) fun tr o h => ?_)
    exact leavesNoTrace_of_noEmpty (fun _ => rfl) h trivial fun _ => id
  | getLatestKey d id => exact getLatestKey_leavesNoTrace hno d id
  | encrypt symAlg d plaintext =>
    refine (wp_bind_ret fun _ => rfl).mpr
      (wp_mono (encrypt_traces H m symAlg d plaintext) fun tr o h => ?_)
    exact leavesNoTrace_of_noEmpty (fun _ => rfl) (h.noEmpty hno) trivial fun _ => id
  | decrypt symAlg d ciphertext => exact leavesNoTrace_of_same hno (fun _ => trivial) fun _ => id

/-- **No trace of a failure.** In a run from a fresh manager in which the two operations that look
a domain up did so only where it was there, or refused it, or made a key in it, no domain is
without a key, and the next operation keeps it so, and the map as it was where it fails, exactly
where it is of that kind. -/
theorem traceless_of_run {calls : List OpCall}
    (hrun : Run (Guarded (Traceless H) (OpStep H)) {} calls m) :
    NoEmptyDomain m.domainKeyMap ∧ ∀ call answer m',
      Traces (call.op.prog H m) call.tr (.ret (answer, m')) →
        (LeavesNoTrace m call.op answer m' ↔ Traceless H m call) := by
  have hno : NoEmptyDomain m.domainKeyMap := by
    refine Run.invariant (I := fun m => NoEmptyDomain m.domainKeyMap) ?_ hrun NoEmptyDomain.empty
    intro m call m' hno hstep
    obtain ⟨htraceless, answer, htr⟩ := hstep
    have hiff := wp_iff.mp (prog_leavesNoTrace hno call.op) _ _ htr answer m' rfl
    exact (hiff.mpr htraceless).noEmpty
  refine ⟨hno, fun call answer m' htr => ?_⟩
  exact wp_iff.mp (prog_leavesNoTrace hno call.op) _ _ htr answer m' rfl

/-! ## A key the vault does not make -/

/-- The vault has no keys and makes none. -/
def barrenAnswer : (c : Call) → c.Reply
  | .run _ _ .list => (0, ascii "{}\n")
  | .run _ _ _ => (2, [])
  | c => sampleAnswer c

/-- `Init` on the empty vault. -/
def barrenInit : OpCall where
  op := .init (ascii "/bao") (ascii "token") 2
  tr := (Prog.runWith barrenAnswer
    (Op.prog sampleHost {} (.init (ascii "/bao") (ascii "token") 2))).1

/-- It succeeds, and a `CreateKey` in domain 0 fails then and leaves the domain there. -/
theorem barren_createKey : ∃ m answer m', OpStep sampleHost {} barrenInit m ∧
    Traces (Op.prog sampleHost m (.createKey 0))
      (Prog.runWith barrenAnswer (Op.prog sampleHost m (.createKey 0))).1 (.ret (answer, m')) ∧
    0 ∉ m.domainKeyMap ∧ 0 ∈ m'.domainKeyMap ∧ (m'.domainKeyMap.at' 0).isEmpty = true := by
  have hrun : ((managerAfter (Prog.runWith barrenAnswer
      (Op.prog sampleHost {} barrenInit.op)).2).bind fun m =>
        (managerAfter (Prog.runWith barrenAnswer (Op.prog sampleHost m (.createKey 0))).2).map
          fun m' => decide (0 ∉ m.domainKeyMap ∧ 0 ∈ m'.domainKeyMap ∧
            (m'.domainKeyMap.at' 0).isEmpty = true)) = some true := by decide +kernel
  obtain ⟨m, hinit, hcreate⟩ := Option.bind_eq_some_iff.mp hrun
  obtain ⟨m', hafter, hdecide⟩ := Option.map_eq_some_iff.mp hcreate
  obtain ⟨answer₀, hret₀⟩ := managerAfter_eq_some hinit
  obtain ⟨answer, hret⟩ := managerAfter_eq_some hafter
  have htr₀ := traces_runWith barrenAnswer (Op.prog sampleHost {} barrenInit.op)
  have htr := traces_runWith barrenAnswer (Op.prog sampleHost m (.createKey 0))
  rw [hret₀] at htr₀
  rw [hret] at htr
  exact ⟨m, answer, m', ⟨answer₀, htr₀⟩, htr, of_decide_eq_true hdecide⟩

theorem createKey_leaves_trace : ¬ ∀ (H : KmHost) (calls : List OpCall) (m : OpenbaoKeyManager),
    Run (OpStep H) {} calls m → NoEmptyDomain m.domainKeyMap ∧
      ∀ (call : OpCall) (answer : Answer) (m' : OpenbaoKeyManager),
        Traces (call.op.prog H m) call.tr (.ret (answer, m')) → FailsLookUp call.op answer →
          m'.domainKeyMap = m.domainKeyMap := by
  intro hall
  obtain ⟨m, answer, m', hinit, hcreate, -, hmem, hempty⟩ := barren_createKey
  have hrun := Run.cons hinit (Run.cons (l := ⟨.createKey 0, _⟩) ⟨answer, hcreate⟩ (Run.nil m'))
  obtain ⟨k, hk⟩ := (hall sampleHost _ m' hrun).1 0 hmem
  rw [DomainKeyMap.Holds, Std.ExtTreeMap.isEmpty_iff.mp hempty] at hk
  exact Std.ExtTreeMap.not_mem_empty hk

theorem traceless_of_run_barren : ∃ m answer m', NoEmptyDomain m.domainKeyMap ∧
    ¬ LeavesNoTrace m (.createKey 0) answer m' ∧
    (LeavesNoTrace m (.createKey 0) answer m' ↔ Traceless sampleHost m ⟨.createKey 0,
      (Prog.runWith barrenAnswer (Op.prog sampleHost m (.createKey 0))).1⟩) := by
  obtain ⟨m, answer, m', hinit, hcreate, -, hmem, hempty⟩ := barren_createKey
  obtain ⟨hno, hnext⟩ := traceless_of_run (H := sampleHost)
    (Run.cons (l := barrenInit) ⟨trivial, hinit⟩ (Run.nil m))
  refine ⟨m, answer, m', hno, fun hleaves => ?_, hnext ⟨.createKey 0, _⟩ answer m' hcreate⟩
  obtain ⟨k, hk⟩ := hleaves.noEmpty 0 hmem
  rw [DomainKeyMap.Holds, Std.ExtTreeMap.isEmpty_iff.mp hempty] at hk
  exact Std.ExtTreeMap.not_mem_empty hk

end CdfCrypto.KeyManagement
