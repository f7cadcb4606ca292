import CdfCrypto.KeyManagement.Listing
import CdfCrypto.KeyManagement.Mirror
import CdfCrypto.KeyManagement.Dispatch

/-!
# Ids that fit the header

A ciphertext header has two bytes for the domain and two for the key id. A domain below
`domainCount_` fits; an id fits when it is at most 65535, and `RemoveKey` refuses any
larger one. `CreateKey` makes no larger id, and no other operation brings a new id into
the map, except `Init`, which takes whatever 32-bit id stands in the listing.

So the map can be written into headers and read back, and its keys can be removed, in
every run in which no `Init` is told of a wider id, and not after one is
(`lossless_of_run`).
-/

namespace CdfCrypto.KeyManagement

open Lib OpenbaoKeyManager

/-! ## Removing a key that is shown -/

/-- A ready manager has a token. -/
def HasToken (m : OpenbaoKeyManager) : Prop := m.inited = true → m.accessToken ≠ []

/-- `DisplayKey` and `DisplayAllKey` show the keys of a manager that is inited. -/
def Shows (m : OpenbaoKeyManager) (d k : Nat) : Prop := m.inited = true ∧ m.domainKeyMap.Holds d k

/-- **A key whose id fits is removed**, unless the vault refuses to delete it. -/
theorem removeKey_of_shows {m : OpenbaoKeyManager} {d k : Nat} (htoken : HasToken m)
    (hshows : Shows m d k) (hd : d < m.domainCount.1) (hk : k ≤ 65535) :
    wp (m.removeKey d k) fun tr o => (∀ ev ∈ tr, ¬ FailsDelete ev) → ∃ m', o = .ret (.ok, m') := by
  obtain ⟨hinited, hholds⟩ := hshows
  obtain ⟨subMap, hsub⟩ : ∃ subMap, m.domainKeyMap[d]? = some subMap :=
    Option.isSome_iff_exists.mp (Std.ExtTreeMap.mem_iff_isSome_getElem?.mp hholds.mem)
  have hmem : k ∈ subMap := by
    have hat : m.domainKeyMap.at' d = subMap := by
      rw [DomainKeyMap.at', Std.ExtTreeMap.getD_eq_getD_getElem?, hsub, Option.getD_some]
    rw [← hat]
    exact hholds
  unfold OpenbaoKeyManager.removeKey
  rw [wp_locked, if_neg (by simp [hinited]), if_neg (by simp [hholds.not_isEmpty]),
    if_neg (by omega), if_neg (by omega), hsub]
  dsimp only
  rw [if_neg (not_not.mpr hmem)]
  refine wp_bind.mpr (wp_runCommandAndCheck ?_ ?_ ?_)
  · intro hnone
    exact absurd hnone (htoken hinited)
  · intro _ reply _
    rw [then_ret, if_neg (by decide)]
    exact fun _ => ⟨_, rfl⟩
  · intro _ reply hfails
    rw [then_ret, if_pos (by decide)]
    intro hnot
    refine absurd ?_ (hnot (ran m (.delete d k) reply) (by simp [ran]))
    exact hfails

/-- What the map should be good for. -/
structure Lossless (m : OpenbaoKeyManager) : Prop where
  ids : ∀ d k, m.domainKeyMap.Holds d k → k ≤ 65535
  header : ∀ (symAlg : CryptoSymAlg) d k, symAlg.toNat < 256 → d < m.domainCount.1 →
    m.domainKeyMap.Holds d k → ∀ rest ≠ [],
      readCipherHeader (constructCipherHeader symAlg d k ++ rest) = some ⟨symAlg, d, k⟩
  removable : ∀ d k, Shows m d k → d < m.domainCount.1 → ∀ tr rc m',
    Traces (m.removeKey d k) tr (.ret (rc, m')) → (∀ ev ∈ tr, ¬ FailsDelete ev) → rc = .ok

/-- It is good for all that as soon as the ids fit. -/
theorem lossless_iff {m : OpenbaoKeyManager} (htoken : HasToken m) :
    Lossless m ↔ ∀ d k, m.domainKeyMap.Holds d k → k ≤ 65535 := by
  refine ⟨Lossless.ids, fun hids => ⟨hids, ?_, ?_⟩⟩
  · intro symAlg d k halg hd hholds rest hrest
    have hcount : m.domainCount.1 ≤ 1023 := m.domainCount.2.2
    have hk := hids d k hholds
    exact readCipherHeader_constructCipherHeader halg (by omega) (by omega) hrest
  · intro d k hshows hd tr rc m' htr hnot
    have hremove := removeKey_of_shows htoken hshows hd (hids d k hshows.2)
    obtain ⟨_, heq⟩ := wp_iff.mp hremove _ _ htr hnot
    exact (Prod.mk.inj (Outcome.ret.inj heq)).1

/-! ## Where the ids of the map come from -/

/-- Every key of the map was there, or has an id that fits. -/
structure Inherits (m m' : OpenbaoKeyManager) : Prop where
  sameButMap : SameButMap m m'
  origin : ∀ d k, m'.domainKeyMap.Holds d k → m.domainKeyMap.Holds d k ∨ k ≤ 65535

theorem Inherits.refl (m : OpenbaoKeyManager) : Inherits m m := ⟨.refl m, fun _ _ => .inl⟩

theorem Inherits.trans {m m₁ m₂ : OpenbaoKeyManager} (h₁ : Inherits m m₁) (h₂ : Inherits m₁ m₂) :
    Inherits m m₂ where
  sameButMap := h₁.sameButMap.trans h₂.sameButMap
  origin d k hholds := (h₂.origin d k hholds).elim (h₁.origin d k) .inr

theorem inherits_touched (m : OpenbaoKeyManager) (d : Nat) : Inherits m (touched m d) :=
  ⟨rfl, fun _ _ hholds => .inl (DomainKeyMap.holds_touch.mp hholds)⟩

/-- The same of an execution. -/
def InheritsOutcome {α : Type} (m : OpenbaoKeyManager) :
    Outcome Fault (α × OpenbaoKeyManager) → Prop
  | .ret (_, m') => Inherits m m'
  | .halt _ => True

variable {H : KmHost} {m : OpenbaoKeyManager} {d : Nat} {tr : List KmEvent}

theorem CreateKeyTrace.inherits {o : Outcome Fault ((KeyManagerRC × Nat) × OpenbaoKeyManager)}
    (h : CreateKeyTrace H m d tr o) : InheritsOutcome m o := by
  cases h with
  | invalid _ => exact .refl m
  | refused _ => exact inherits_touched m d
  | createFailed _ => exact inherits_touched m d
  | configFailed _ _ => exact inherits_touched m d
  | readFailed _ _ _ => exact inherits_touched m d
  | faulted _ _ _ _ => trivial
  | noTime _ _ _ _ => exact inherits_touched m d
  | created _ _ hid _ _ _ _ _ =>
    refine ⟨rfl, fun d' k' hholds => ?_⟩
    rcases DomainKeyMap.holds_addKey.mp hholds with ⟨-, rfl⟩ | hold
    · exact .inr hid
    · exact .inl (DomainKeyMap.holds_touch.mp hold)

theorem GetLatestKeyTrace.inherits {id : Nat} {o : Outcome Fault ((Bytes × Nat) × OpenbaoKeyManager)}
    (h : GetLatestKeyTrace H m d id tr o) : InheritsOutcome m o := by
  cases h with
  | refused _ => exact .refl m
  | noKey _ => exact inherits_touched m d
  | noToken _ => exact inherits_touched m d
  | faulted _ _ _ => trivial
  | exported _ _ _ => exact inherits_touched m d

theorem EncryptTrace.inherits {symAlg : CryptoSymAlg} {plaintext : Bytes}
    {o : Outcome Fault ((KeyManagerRC × Bytes) × OpenbaoKeyManager)}
    (h : EncryptTrace H m symAlg d plaintext tr o) : InheritsOutcome m o := by
  cases h with
  | refused _ _ => exact .refl m
  | faulted _ _ _ => trivial
  | direct _ _ _ _ _ => exact inherits_touched m d
  | createFaulted _ _ _ _ => trivial
  | createFailed _ _ hfirst hcreate => exact hfirst.inherits.trans hcreate.inherits
  | secondFaulted _ _ _ _ _ => trivial
  | recreated _ _ hfirst hcreate hsecond =>
    exact (hfirst.inherits.trans hcreate.inherits).trans hsecond.inherits

theorem RemoveKeyTrace.inherits {k : Nat} {o : Outcome Fault (KeyManagerRC × OpenbaoKeyManager)}
    (h : RemoveKeyTrace m d k tr o) : InheritsOutcome m o := by
  cases h with
  | refused _ => exact .refl m
  | failed _ => exact .refl m
  | removed _ _ =>
    refine ⟨rfl, fun d' k' hholds => .inl ?_⟩
    exact (DomainKeyMap.holds_eraseKey.mp (DomainKeyMap.holds_dropIfEmpty.mp hholds)).2

/-- Giving the mutex back changes no manager. -/
theorem InheritsOutcome.unlocking {α : Type} {mode : LockMode}
    {o : Outcome Fault (α × OpenbaoKeyManager)} (h : InheritsOutcome m o) :
    Unlocking mode (fun _ o => InheritsOutcome m o) tr o := by
  cases o with
  | ret a => exact h
  | halt x => trivial

theorem deleteAllKey_inherits (m : OpenbaoKeyManager) :
    wp m.deleteAllKey fun _ o => InheritsOutcome m o := by
  unfold OpenbaoKeyManager.deleteAllKey
  refine wp_locked.mpr (wp_mono (Q := fun _ o => InheritsOutcome m o) ?_ fun _ _ h => h.unlocking)
  split
  · exact .refl m
  split
  · exact .refl m
  refine wp_bind_of (deleteOuter_loses _ m) (fun tr m' h => ?_) fun _ _ _ => trivial
  exact ⟨h.1.sameButMap, fun d k hholds => .inl (h.1.origin d k hholds).1⟩

/-- The automatic update sets times of keys that are there. -/
theorem autoUpdateLoop_inherits (H : KmHost) (d lead : Nat) (time : Int)
    (keys : List (Nat × Int)) : ∀ m : OpenbaoKeyManager,
      (∀ key ∈ keys, m.domainKeyMap.Holds d key.1) →
        wp (autoUpdateLoop H d lead time m keys) fun _ o => InheritsOutcome m o := by
  induction keys with
  | nil => exact fun m _ => .refl m
  | cons key keys ih =>
    intro m hkeys
    have hrest : ∀ key ∈ keys, m.domainKeyMap.Holds d key.1 := fun key' hmem =>
      hkeys key' (List.mem_cons_of_mem _ hmem)
    unfold autoUpdateLoop
    split
    · exact .refl m
    split
    · exact .refl m
    split
    rotate_left
    · exact ih m hrest
    refine wp_bind_any (fun _ ret => ?_) fun _ _ => trivial
    split
    · exact .refl m
    refine wp_bind_any (fun _ result => ?_) fun _ _ => trivial
    split
    · exact .refl m
    refine wp_bind_any (fun _ timeTmp => ?_) fun _ _ => trivial
    split
    · exact .refl m
    have hset : Inherits m { m with domainKeyMap := m.domainKeyMap.setTime d key.1 timeTmp } := by
      refine ⟨rfl, fun d' k' hholds => .inl ?_⟩
      rcases DomainKeyMap.holds_setTime.mp hholds with ⟨rfl, rfl⟩ | hold
      · exact hkeys key List.mem_cons_self
      · exact hold
    refine wp_mono (ih _ fun key' hmem => DomainKeyMap.holds_setTime.mpr (.inr (hrest key' hmem)))
      fun tr o h => ?_
    cases o with
    | ret a => exact hset.trans h
    | halt x => trivial

theorem autoUpdate_inherits (H : KmHost) (m : OpenbaoKeyManager) (d lead : Nat) :
    wp (m.checkDomainKeysExpiredAndAutoUpdate H d lead) fun _ o => InheritsOutcome m o := by
  unfold OpenbaoKeyManager.checkDomainKeysExpiredAndAutoUpdate
  refine wp_locked.mpr (wp_mono (Q := fun _ o => InheritsOutcome m o) ?_ fun _ _ h => h.unlocking)
  rw [Prog.perform_bind]
  intro time
  dsimp only
  split
  · exact .refl m
  split
  · exact .refl m
  refine autoUpdateLoop_inherits H d lead time _ m fun key hmem => ?_
  have hget := Std.ExtTreeMap.mem_toList_iff_getElem?_eq_some.mp hmem
  exact Std.ExtTreeMap.mem_iff_isSome_getElem?.mpr (by simp [hget])

/-! ## Runs -/

/-- One operation with the calls it makes. -/
structure OpCall where
  op : Op
  tr : List KmEvent

/-- An operation that comes to an end. -/
def OpStep (H : KmHost) (m : OpenbaoKeyManager) (call : OpCall) (m' : OpenbaoKeyManager) : Prop :=
  ∃ answer, Traces (call.op.prog H m) call.tr (.ret (answer, m'))

/-- An `Init` is told of no id that does not fit; one that cannot read a creation time drops
all it was told. -/
def NarrowIds (H : KmHost) (call : OpCall) : Prop :=
  match call.op with
  | .init _ _ _ => (¬ ∃ ev ∈ call.tr, ReportsNoTime H ev) →
    ∀ d k t, Reported H call.tr d k t → k ≤ 65535
  | _ => True

/-- What one operation does to the ids. -/
structure KeepsIds (H : KmHost) (m : OpenbaoKeyManager) (call : OpCall) (m' : OpenbaoKeyManager) :
    Prop where
  token : HasToken m → HasToken m'
  narrow : NarrowIds H call → (∀ d k, m.domainKeyMap.Holds d k → k ≤ 65535) →
    ∀ d k, m'.domainKeyMap.Holds d k → k ≤ 65535
  wide : ¬ NarrowIds H call → ∃ d k, m'.domainKeyMap.Holds d k ∧ 65535 < k

/-- An operation other than `Init` that only inherits. -/
theorem Inherits.keepsIds {m' : OpenbaoKeyManager} {call : OpCall} (h : Inherits m m')
    (hcall : NarrowIds H call) : KeepsIds H m call m' where
  token htoken hinited := by
    rw [h.sameButMap.accessToken]
    exact htoken (h.sameButMap.inited ▸ hinited)
  narrow _ hids d k hholds := (h.origin d k hholds).elim (hids d k) id
  wide hwide := absurd hcall hwide

/-- What the body of an `Init` makes of the map, whatever it returns. -/
theorem InitTrace.gathers {m' : OpenbaoKeyManager} {exePath accessToken : Bytes} {domainCount : Nat}
    {rc : Except StdException KeyManagerRC}
    (h : InitTrace H m exePath accessToken domainCount tr (.ret (rc, m'))) :
    ((∃ ev ∈ tr, ReportsNoTime H ev) → m'.domainKeyMap = ∅) ∧
      ((¬ ∃ ev ∈ tr, ReportsNoTime H ev) → Gathers H m tr m') := by
  cases rc with
  | error e =>
    cases h with
    | @thrown p reply _ _ _ _ _ =>
      refine ⟨by simp [ReportsNoTime, ran], fun _ => ?_⟩
      have hgathers : Gathers H m [⟨.canonicalPath exePath, some p⟩,
          ran (withAccess m p accessToken) .list reply] m := .of_none (by simp [Reports, ran])
      exact hgathers.congr rfl rfl fun _ _ _ => Iff.rfl
  | ok rc =>
    by_cases hrc : rc = .ok
    · exact ⟨fun hno => absurd hno (h.ends.ok_iff.mp hrc).times, fun _ => h.ends.ok hrc⟩
    · exact ⟨(h.ends.failed hrc).emptied, (h.ends.failed hrc).gathers⟩

/-- Only an `Init` that returns OK makes the manager ready. -/
theorem InitTrace.ok_of_inited {m' : OpenbaoKeyManager} {exePath accessToken : Bytes}
    {domainCount : Nat} {rc : Except StdException KeyManagerRC} (hnot : m.inited = false)
    (h : InitTrace H m exePath accessToken domainCount tr (.ret (rc, m')))
    (hinited : m'.inited = true) : rc = .ok .ok := by
  cases rc with
  | error e =>
    cases h with
    | thrown _ _ _ _ => exact absurd (hinited.symm.trans hnot) (by decide)
  | ok rc =>
    by_cases hrc : rc = .ok
    · rw [hrc]
    · have hsame := (h.ends.failed hrc).inited
      exact absurd (hinited.symm.trans (hsame.trans hnot)) (by decide)

theorem init_keepsIds (H : KmHost) (m : OpenbaoKeyManager) (exePath accessToken : Bytes)
    (domainCount : Nat) :
    wp (m.init H exePath accessToken domainCount) fun tr o => ∀ rc m', o = .ret (rc, m') →
      KeepsIds H m ⟨.init exePath accessToken domainCount, tr⟩ m' := by
  by_cases hinited : m.inited = true
  · -- a manager that is ready is left alone
    unfold OpenbaoKeyManager.init
    rw [if_pos hinited]
    intro _ _ rc m' heq
    cases heq
    refine (Inherits.refl m).keepsIds ?_
    intro _ d k t hboth
    obtain ⟨ev, hev, hreports⟩ := hboth
    simp only [List.mem_cons, List.not_mem_nil, or_false] at hev
    rcases hev with rfl | rfl <;> exact hreports.elim
  have hnot : m.inited = false := by simpa using hinited
  refine wp_mono (wp_and (init_traces H hnot exePath accessToken domainCount)
    (init_leaves H m exePath accessToken domainCount)) fun es o h => ?_
  intro rc m' heq
  subst heq
  obtain ⟨⟨tr, haround, htrace⟩, hleaves⟩ := h
  obtain ⟨hemptied, hgathers⟩ := htrace.gathers
  have hno : (∃ ev ∈ es, ReportsNoTime H ev) ↔ ∃ ev ∈ tr, ReportsNoTime H ev :=
    haround.exists_iff id id
  have hreported : ∀ d k t, Reported H es d k t ↔ Reported H tr d k t := fun _ _ _ =>
    haround.exists_iff id id
  constructor
  · intro _ hinited'
    exact (hleaves.2.2 hnot (htrace.ok_of_inited hnot hinited')).2
  · intro hnarrow hids d k hholds
    by_cases hnone : ∃ ev ∈ tr, ReportsNoTime H ev
    · rw [hemptied hnone] at hholds
      exact absurd hholds Std.ExtTreeMap.not_mem_empty
    · obtain ⟨t, ht⟩ := DomainKeyMap.holds_iff_time?.mp hholds
      rcases (hgathers hnone).origin d k t ht with hold | hnew
      · exact hids d k (DomainKeyMap.holds_iff_time?.mpr ⟨t, hold⟩)
      · exact hnarrow (mt hno.mp hnone) d k t ((hreported d k t).mpr hnew)
  · intro hwide
    -- an id that does not fit has been reported, and is in the map now
    obtain ⟨hnone, d, k, t, hnew, hk⟩ : (¬ ∃ ev ∈ es, ReportsNoTime H ev) ∧
        ∃ d k t, Reported H es d k t ∧ ¬ k ≤ 65535 := by
      simpa [NarrowIds] using hwide
    refine ⟨d, k, (hgathers (mt hno.mpr hnone)).added d k t ((hreported d k t).mp hnew), ?_⟩
    omega

/-- Dressing up the answer of an operation that inherits. -/
theorem keepsIds_of_inherits {α : Type} {op : Op} {o : Outcome Fault (α × OpenbaoKeyManager)}
    {g : α × OpenbaoKeyManager → Answer × OpenbaoKeyManager} (hg : ∀ a, (g a).2 = a.2)
    (h : InheritsOutcome m o) (hcall : NarrowIds H ⟨op, tr⟩) :
    ∀ answer m', o.map g = .ret (answer, m') → KeepsIds H m ⟨op, tr⟩ m' := by
  intro answer m' heq
  cases o with
  | ret a =>
    obtain rfl : a.2 = m' := by
      rw [← hg]
      exact congrArg Prod.snd (Outcome.ret.inj heq)
    exact Inherits.keepsIds h hcall
  | halt x => cases heq

/-- **One operation.** -/
theorem prog_keepsIds (H : KmHost) (m : OpenbaoKeyManager) (op : Op) :
    wp (op.prog H m) fun tr o => ∀ answer m', o = .ret (answer, m') → KeepsIds H m ⟨op, tr⟩ m' := by
  -- the operations that return the manager they are given
  have hsame : ∀ {α : Type} {p : Km α} {f : α → Answer} {op : Op}, (∀ tr, NarrowIds H ⟨op, tr⟩) →
      wp (p >>= fun a => .ret (f a, m)) fun tr o => ∀ answer m', o = .ret (answer, m') →
        KeepsIds H m ⟨op, tr⟩ m' := by
    intro α p f op hop
    refine (wp_bind_ret fun _ => rfl).mpr (wp_iff.mpr fun tr o _ answer m' heq => ?_)
    cases o with
    | ret a =>
      obtain rfl : m = m' := congrArg Prod.snd (Outcome.ret.inj heq)
      exact (Inherits.refl m).keepsIds (hop tr)
    | halt x => cases heq
  cases op with
  | init exePath accessToken domainCount =>
    refine wp_bind_of (init_keepsIds H m exePath accessToken domainCount) ?_
      (fun tr x h answer m' heq => nomatch heq)
    intro tr result h
    obtain ⟨rc, m₁⟩ := result
    have hkeeps := h rc m₁ rfl
    cases rc with
    | error e =>
      intro answer m' hret
      cases hret
      rw [List.append_nil]
      exact hkeeps
    | ok rc =>
      intro answer m' hret
      cases hret
      rw [List.append_nil]
      exact hkeeps
  | unInit =>
    intro answer m' hret
    cases hret
    refine ⟨fun _ h => (nomatch h), fun _ _ d k hholds => ?_, fun hwide => absurd trivial hwide⟩
    exact absurd hholds Std.ExtTreeMap.not_mem_empty
  | setType type =>
    intro answer m' hret
    cases hret
    exact ⟨id, fun _ hids => hids, fun hwide => absurd trivial hwide⟩
  | createKey d =>
    refine (wp_bind_ret fun _ => rfl).mpr (wp_mono (createKey_traces H m d) fun tr o h => ?_)
    exact keepsIds_of_inherits (fun _ => rfl) h.inherits trivial
  | removeKey d k =>
    refine (wp_bind_ret fun _ => rfl).mpr (wp_mono (removeKey_traces m d k) fun tr o h => ?_)
    exact keepsIds_of_inherits (fun _ => rfl) h.inherits trivial
  | deleteAllKey =>
    refine (wp_bind_ret fun _ => rfl).mpr (wp_mono (deleteAllKey_inherits m) fun tr o h => ?_)
    exact keepsIds_of_inherits (fun _ => rfl) h trivial
  | displayKey d => exact hsame fun _ => trivial
  | displayAllKey => exact hsame fun _ => trivial
  | checkDomainKeysExpired d lead => exact hsame fun _ => trivial
  | checkDomainKeysExpiredAndAutoUpdate d lead =>
    refine (wp_bind_ret fun _ => rfl).mpr (wp_mono (autoUpdate_inherits H m d lead) fun tr o h => ?_)
    exact keepsIds_of_inherits (fun _ => rfl) h trivial
  | getLatestKey d id =>
    refine (wp_bind_ret fun _ => rfl).mpr (wp_mono (getLatestKey_traces H m d id) fun tr o h => ?_)
    exact keepsIds_of_inherits (fun _ => rfl) h.inherits trivial
  | encrypt symAlg d plaintext =>
    refine (wp_bind_ret fun _ => rfl).mpr
      (wp_mono (encrypt_traces H m symAlg d plaintext) fun tr o h => ?_)
    exact keepsIds_of_inherits (fun _ => rfl) h.inherits trivial
  | decrypt symAlg d ciphertext => exact hsame fun _ => trivial

/-- What a run keeps while no `Init` is told of a wider id. -/
structure FitsHeader (m : OpenbaoKeyManager) : Prop where
  token : HasToken m
  ids : ∀ d k, m.domainKeyMap.Holds d k → k ≤ 65535

theorem FitsHeader.step {m' : OpenbaoKeyManager} {call : OpCall} (h : FitsHeader m)
    (hcall : NarrowIds H call) (hstep : OpStep H m call m') : FitsHeader m' := by
  obtain ⟨answer, htr⟩ := hstep
  have hkeeps := wp_iff.mp (prog_keepsIds H m call.op) _ _ htr answer m' rfl
  exact ⟨hkeeps.token h.token, hkeeps.narrow hcall h.ids⟩

/-- **Losslessness.** In a run from a fresh manager in which no `Init` was told of an id that
does not fit, the header loses nothing, and the next operation keeps it so exactly where it is
not an `Init` that is told of one. -/
theorem lossless_of_run {calls : List OpCall}
    (hrun : Run (Guarded (fun _ => NarrowIds H) (OpStep H)) {} calls m) :
    Lossless m ∧ ∀ call m', OpStep H m call m' → (Lossless m' ↔ NarrowIds H call) := by
  have hfresh : FitsHeader {} :=
    ⟨fun h => (nomatch h), fun _ _ h => absurd h Std.ExtTreeMap.not_mem_empty⟩
  have hfits : FitsHeader m :=
    Run.invariant (I := FitsHeader) (fun s call s' hs hstep => hs.step hstep.1 hstep.2) hrun hfresh
  refine ⟨(lossless_iff hfits.token).mpr hfits.ids, ?_⟩
  intro call m' hboth
  obtain ⟨answer, htr⟩ := hboth
  have hkeeps := wp_iff.mp (prog_keepsIds H m call.op) _ _ htr answer m' rfl
  rw [lossless_iff (hkeeps.token hfits.token)]
  refine ⟨fun hids => ?_, fun hcall => hkeeps.narrow hcall hfits.ids⟩
  by_contra hwide
  obtain ⟨d, k, hholds, hk⟩ := hkeeps.wide hwide
  have := hids d k hholds
  omega

/-! ## An id of seventeen bits -/

/-- A listing with one wide id, and the reply to its `read`. -/
def wideParse (text : Bytes) : Option JsonValue :=
  if text = ascii "list" then some (.array [.string (keyName 0 65536)]) else sampleParse text

def wideHost : KmHost where
  json := { parse := wideParse, write := fun _ => [] }
  ciphers := sampleCiphers

def wideAnswer : (c : Call) → c.Reply
  | .run _ _ .list => (0, ascii "list")
  | .run _ _ _ => (0, ascii "time")
  | .acquire _ => ()
  | .release _ => ()
  | .time => 1800000000
  | .canonicalPath path => some path
  | .crypt => sampleWorld

/-- The manager an execution leaves. -/
def managerAfter : Outcome Fault (Answer × OpenbaoKeyManager) → Option OpenbaoKeyManager
  | .ret (_, m) => some m
  | .halt _ => none

theorem managerAfter_eq_some {o : Outcome Fault (Answer × OpenbaoKeyManager)}
    {m : OpenbaoKeyManager} (h : managerAfter o = some m) : ∃ answer, o = .ret (answer, m) := by
  unfold managerAfter at h
  split at h
  next answer m' =>
    obtain rfl := Option.some.inj h
    exact ⟨answer, rfl⟩
  next => cases h

/-- The wide id gets into the map. -/
theorem wide_init : ∃ tr m', OpStep wideHost {} ⟨.init (ascii "/bao") (ascii "token") 2, tr⟩ m' ∧
    m'.domainKeyMap.Holds 0 65536 := by
  have hrun : (managerAfter (Prog.runWith wideAnswer
      (Op.prog wideHost {} (.init (ascii "/bao") (ascii "token") 2))).2).map
        (fun m => decide (65536 ∈ m.domainKeyMap.at' 0)) = some true := by decide +kernel
  obtain ⟨m', hafter, hdecide⟩ := Option.map_eq_some_iff.mp hrun
  have hholds : 65536 ∈ m'.domainKeyMap.at' 0 := of_decide_eq_true hdecide
  obtain ⟨answer, hret⟩ := managerAfter_eq_some hafter
  have htr := traces_runWith wideAnswer
    (Op.prog wideHost {} (.init (ascii "/bao") (ascii "token") 2))
  rw [hret] at htr
  exact ⟨_, m', ⟨answer, htr⟩, hholds⟩

theorem init_loses_header : ¬ ∀ (H : KmHost) (calls : List OpCall) (m : OpenbaoKeyManager),
    Run (OpStep H) {} calls m → Lossless m := by
  intro hall
  obtain ⟨tr, m', hstep, hholds⟩ := wide_init
  have hids := (hall wideHost _ m' (Run.cons hstep (Run.nil m'))).ids 0 65536 hholds
  exact absurd hids (by decide)

theorem lossless_of_run_wide : Lossless {} ∧ ∃ tr m',
    OpStep wideHost {} ⟨.init (ascii "/bao") (ascii "token") 2, tr⟩ m' ∧
      (Lossless m' ↔ NarrowIds wideHost ⟨.init (ascii "/bao") (ascii "token") 2, tr⟩) := by
  -- an `Init` whose path is refused comes first
  have hrefused : OpStep wideHost {} ⟨.init [] [] 2, [acquired .exclusive,
      ⟨.canonicalPath [], none⟩, released .exclusive]⟩ {} := by
    exact ⟨_, traces_runWith refusingAnswer (Op.prog wideHost {} (.init [] [] 2))⟩
  have hnarrow : NarrowIds wideHost ⟨.init [] [] 2, [acquired .exclusive,
      ⟨.canonicalPath [], none⟩, released .exclusive]⟩ := by
    intro _ d k t h
    simp [Reported, Reports, acquired, released] at h
  obtain ⟨hlossless, hnext⟩ := lossless_of_run (Run.cons ⟨hnarrow, hrefused⟩ (Run.nil _))
  obtain ⟨tr, m', hstep, -⟩ := wide_init
  exact ⟨hlossless, tr, m', hstep, hnext _ m' hstep⟩

end CdfCrypto.KeyManagement
