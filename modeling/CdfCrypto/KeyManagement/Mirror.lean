import CdfCrypto.KeyManagement.RoundTrip
import CdfCrypto.KeyManagement.TransitStore

/-!
# The map against the store

The manager's map should hold no key that the store lacks, or that it would refuse to
export or to delete (`Mirrors`). Each operation that changes the map or the store is
described by what the keys it leaves in the map come from (`Tracks`): a key that was in
the map and that no event deleted, or a key that the events themselves have made usable.

`CreateKey` and `RemoveKey` keep to this whatever fails. `DeleteAllKey` does as long as
no delete fails; after one that does, its iterators have no meaning. The automatic update
does not: it deletes a key, makes it again and sets only one of the two flags, and any of
these may fail with the key still in the map. So the mirror is kept in every run in which
no delete of `DeleteAllKey` fails and no delete of an automatic update succeeds
(`mirrors_of_run`), and no weaker condition would do (`mirrors_step_iff`).
-/

namespace CdfCrypto.KeyManagement

open Lib OpenbaoKeyManager

/-! ## The relation -/

/-- The store has the key, and would export it and delete it. -/
def Usable (store : TransitStore) (d k : Nat) : Prop :=
  ∃ key, store.key? d k = some key ∧ key.exportable = true ∧ key.deletionAllowed = true

def Mirrors (s : KmSystem) : Prop :=
  ∀ d k, s.manager.domainKeyMap.Holds d k → Usable s.store d k

/-- The manager is ready, with the token that `Init` demands. -/
structure Serving (m : OpenbaoKeyManager) : Prop where
  inited : m.inited = true
  accessToken : m.accessToken ≠ []

/-- An `Init` that returns OK leaves a manager that serves. -/
theorem serving_of_init {H : KmHost} {m m' : OpenbaoKeyManager} {exePath accessToken : Bytes}
    {domainCount : Nat} {tr : List KmEvent} (hnot : m.inited = false)
    (htr : Traces (m.init H exePath accessToken domainCount) tr (.ret (.ok .ok, m'))) :
    Serving m' := by
  have hleaves := wp_iff.mp (init_leaves H m exePath accessToken domainCount) _ _ htr
  obtain ⟨hinited, htoken⟩ := hleaves.2.2 hnot rfl
  exact ⟨hinited, htoken⟩

theorem Serving.of_sameButMap {m m' : OpenbaoKeyManager} (h : Serving m) (hsame : SameButMap m m') :
    Serving m' :=
  ⟨hsame.inited.trans h.inited, fun hnil => h.accessToken (hsame.accessToken.symm.trans hnil)⟩

variable {store store' : TransitStore} {d k : Nat}

theorem Usable.of_run {J : RapidJson} {tr : List KmEvent} (h : Usable store d k)
    (hrun : Run (TransitStep J) store tr store') (hnot : ∀ ev ∈ tr, ¬ Deletes d k ev) :
    Usable store' d k := by
  obtain ⟨key, hkey, hexportable, hdeletion⟩ := h
  obtain ⟨key', hkey', hgrows⟩ := grows_of_run hrun hkey hnot
  exact ⟨key', hkey', hgrows.exportable hexportable, hgrows.deletionAllowed hdeletion⟩

/-! ## What the keys of the map come from -/

/-- The events make the key usable, whatever the store was. -/
def Establishes (J : RapidJson) (tr : List KmEvent) (d k : Nat) : Prop :=
  ∀ store store', Run (TransitStep J) store tr store' → Usable store' d k

structure Tracks (H : KmHost) (m : OpenbaoKeyManager) (tr : List KmEvent) (m' : OpenbaoKeyManager) :
    Prop where
  sameButMap : SameButMap m m'
  origin : ∀ d k, m'.domainKeyMap.Holds d k →
    (m.domainKeyMap.Holds d k ∧ ∀ ev ∈ tr, ¬ Deletes d k ev) ∨ Establishes H.json tr d k

/-- The same of an execution; only output that no store prints stops it. -/
def TracksOutcome {α : Type} (H : KmHost) (m : OpenbaoKeyManager) (tr : List KmEvent) :
    Outcome Fault (α × OpenbaoKeyManager) → Prop
  | .ret (_, m') => Tracks H m tr m'
  | .halt _ => ∃ ev ∈ tr, ReaderFaults H ev

/-- The relation along a tracked execution. -/
theorem Tracks.mirrors {H : KmHost} {m m' : OpenbaoKeyManager} {tr : List KmEvent}
    (h : Tracks H m tr m') (hmirrors : Mirrors ⟨m, store⟩)
    (hrun : Run (TransitStep H.json) store tr store') : Mirrors ⟨m', store'⟩ := by
  intro d k hholds
  rcases h.origin d k hholds with ⟨hold, hnot⟩ | hestablishes
  · exact (hmirrors d k hold).of_run hrun hnot
  · exact hestablishes store store' hrun

/-- Events that delete nothing, with the keys of the map left as they are. -/
theorem Tracks.of_noDelete {H : KmHost} {m m' : OpenbaoKeyManager} {tr : List KmEvent}
    (hsame : SameButMap m m') (hholds : ∀ d k, m'.domainKeyMap.Holds d k → m.domainKeyMap.Holds d k)
    (hnot : ∀ ev ∈ tr, ∀ d k, ¬ Deletes d k ev) : Tracks H m tr m' :=
  ⟨hsame, fun d k h => .inl ⟨hholds d k h, fun ev hev => hnot ev hev d k⟩⟩

/-! ## `CreateKey` and `RemoveKey` -/

/-- The commands of `CreateKey` make its key usable. -/
theorem establishes_created {J : RapidJson} {m : OpenbaoKeyManager} {d id : Nat}
    {r₁ r₂ r₃ : Int × Bytes} (h₂ : Succeeded r₂) :
    Establishes J [acquired .exclusive, ran m (.create d id) r₁, ran m (.config d id createFlags) r₂,
      ran m (.read d id) r₃, released .exclusive] d id := by
  intro store store' hrun
  obtain ⟨store₁, -, hrun⟩ := Run.split [_, _] _ hrun
  cases hrun with
  | @cons _ store₂ _ _ _ hconfig hrest =>
    obtain ⟨⟨version, happly⟩, -⟩ := (if_pos h₂).mp hconfig
    obtain ⟨key, hkey, rfl⟩ := Option.map_eq_some_iff.mp happly
    have husable : Usable (store₁.insert (keyName d id) (createFlags.foldl TransitKey.setFlag key))
        d id := by
      refine ⟨createFlags.foldl TransitKey.setFlag key, ?_, rfl, rfl⟩
      rw [key?_insert, if_pos ⟨rfl, rfl⟩]
    refine husable.of_run hrest ?_
    simp [Deletes, ran, released]

theorem createKey_tracks (H : KmHost) (m : OpenbaoKeyManager) (d : Nat) :
    wp (m.createKey H d) (TracksOutcome H m) := by
  have htouched : ∀ {tr : List KmEvent}, (∀ ev ∈ tr, ∀ d k, ¬ Deletes d k ev) →
      Tracks H m tr (touched m d) := fun hnot =>
    .of_noDelete rfl (fun _ _ h => DomainKeyMap.holds_touch.mp h) hnot
  refine wp_mono (createKey_traces H m d) fun tr o h => ?_
  cases h with
  | invalid _ => exact .of_noDelete (.refl m) (fun _ _ => id) (by simp [Deletes, acquired, released])
  | refused _ => exact htouched (by simp [Deletes, acquired, released])
  | createFailed _ => exact htouched (by simp [Deletes, acquired, released, ran])
  | configFailed _ _ => exact htouched (by simp [Deletes, acquired, released, ran])
  | readFailed _ _ _ => exact htouched (by simp [Deletes, acquired, released, ran])
  | @faulted id r₁ r₂ r₃ x _ _ h₃ htime =>
    exact ⟨ran m (.read d id) r₃, by simp, h₃, x, htime⟩
  | noTime _ _ _ _ => exact htouched (by simp [Deletes, acquired, released, ran])
  | @created id r₁ r₂ r₃ time _ _ _ _ h₂ _ _ _ =>
    refine ⟨rfl, fun d' k' hholds => ?_⟩
    rcases DomainKeyMap.holds_addKey.mp hholds with ⟨rfl, rfl⟩ | hold
    · exact .inr (establishes_created h₂)
    · refine .inl ⟨DomainKeyMap.holds_touch.mp hold, ?_⟩
      simp [Deletes, acquired, released, ran]

theorem removeKey_tracks (H : KmHost) (m : OpenbaoKeyManager) (d k : Nat) :
    wp (m.removeKey d k) (TracksOutcome H m) := by
  refine wp_mono (removeKey_traces m d k) fun tr o h => ?_
  cases h with
  | refused _ => exact .of_noDelete (.refl m) (fun _ _ => id) (by simp [Deletes, acquired, released])
  | failed hdelete =>
    refine .of_noDelete (.refl m) (fun _ _ => id) ?_
    simp [Deletes, acquired, released, ran, hdelete]
  | removed _ _ =>
    refine ⟨rfl, fun d' k' hholds => .inl ?_⟩
    obtain ⟨hne, hold⟩ := DomainKeyMap.holds_eraseKey.mp (DomainKeyMap.holds_dropIfEmpty.mp hholds)
    refine ⟨hold, ?_⟩
    simp only [List.mem_cons, List.not_mem_nil, or_false]
    intro ev hmem
    obtain rfl | rfl | rfl := hmem
    · exact id
    · exact fun hdel => hne hdel.1
    · exact id

/-! ## `DeleteAllKey` -/

/-- A delete that failed. -/
def FailsDelete : KmEvent → Prop
  | ⟨.run _ _ (.delete _ _), reply⟩ => ¬ Succeeded reply
  | _ => False

/-- The keys left in the map were there, and no event deleted them. -/
structure Loses (m : OpenbaoKeyManager) (tr : List KmEvent) (m' : OpenbaoKeyManager) : Prop where
  sameButMap : SameButMap m m'
  origin : ∀ d k, m'.domainKeyMap.Holds d k →
    m.domainKeyMap.Holds d k ∧ ∀ ev ∈ tr, ¬ Deletes d k ev

theorem Loses.append {m m₁ m₂ : OpenbaoKeyManager} {tr₁ tr₂ : List KmEvent} (h₁ : Loses m tr₁ m₁)
    (h₂ : Loses m₁ tr₂ m₂) : Loses m (tr₁ ++ tr₂) m₂ := by
  refine ⟨h₁.sameButMap.trans h₂.sameButMap, fun d k hholds => ?_⟩
  obtain ⟨hold₁, hnot₂⟩ := h₂.origin d k hholds
  obtain ⟨hold, hnot₁⟩ := h₁.origin d k hold₁
  refine ⟨hold, fun ev hev => ?_⟩
  rcases List.mem_append.mp hev with hev | hev
  · exact hnot₁ ev hev
  · exact hnot₂ ev hev

/-- One delete with the key taken out of the map. -/
theorem loses_eraseKey (m : OpenbaoKeyManager) (d k : Nat) (reply : Int × Bytes) :
    Loses m [ran m (.delete d k) reply]
      { m with domainKeyMap := m.domainKeyMap.eraseKey d k } := by
  refine ⟨rfl, fun d' k' hholds => ?_⟩
  obtain ⟨hne, hold⟩ := DomainKeyMap.holds_eraseKey.mp hholds
  refine ⟨hold, fun ev hev => ?_⟩
  obtain rfl := List.mem_singleton.mp hev
  exact fun hdel => hne hdel.1

/-- An execution that loses keys, unless a delete fails in it. -/
def LosesOutcome (m : OpenbaoKeyManager) (tr : List KmEvent) :
    Outcome Fault OpenbaoKeyManager → Prop
  | .ret m' => Loses m tr m' ∧ ∀ ev ∈ tr, ¬ FailsDelete ev
  | .halt x => x = .undefined ∧ (m.accessToken = [] ∨ ∃ ev ∈ tr, FailsDelete ev)

/-- Two executions that lose keys, one after the other. -/
theorem LosesOutcome.append {m m₁ : OpenbaoKeyManager} {tr₁ tr₂ : List KmEvent}
    {o : Outcome Fault OpenbaoKeyManager} (h₁ : Loses m tr₁ m₁) (hnot : ∀ ev ∈ tr₁, ¬ FailsDelete ev)
    (h₂ : LosesOutcome m₁ tr₂ o) : LosesOutcome m (tr₁ ++ tr₂) o := by
  cases o with
  | ret m' =>
    refine ⟨h₁.append h₂.1, fun ev hev => ?_⟩
    rcases List.mem_append.mp hev with hev | hev
    · exact hnot ev hev
    · exact h₂.2 ev hev
  | halt x =>
    refine ⟨h₂.1, h₂.2.imp (fun hnil => h₁.sameButMap.accessToken.symm.trans hnil) ?_⟩
    intro h
    obtain ⟨ev, hev, hfails⟩ := h
    exact ⟨ev, List.mem_append_right _ hev, hfails⟩

theorem deleteInner_loses (d : Nat) (keys : List Nat) :
    ∀ m, wp (deleteInner d m keys) (LosesOutcome m) := by
  induction keys with
  | nil => exact fun m => ⟨⟨.refl m, fun _ _ h => ⟨h, by simp⟩⟩, by simp⟩
  | cons k keys ih =>
    intro m
    unfold deleteInner
    refine wp_bind.mpr (wp_runCommandAndCheck ?_ ?_ ?_)
    · intro hnone
      exact ⟨rfl, .inl hnone⟩
    · intro _ reply hs
      rw [then_ret, if_neg (by decide)]
      -- the key is gone from the map before the rest of the loop
      refine wp_mono (ih { m with domainKeyMap := m.domainKeyMap.eraseKey d k }) fun tr o h => ?_
      refine LosesOutcome.append (loses_eraseKey m d k reply) (fun ev hev => ?_) h
      obtain rfl := List.mem_singleton.mp hev
      exact not_not.mpr hs
    · intro _ reply hfails
      exact ⟨rfl, .inr ⟨_, List.mem_singleton.mpr rfl, hfails⟩⟩

theorem deleteOuter_loses (domains : List Nat) :
    ∀ m, wp (deleteOuter m domains) (LosesOutcome m) := by
  induction domains with
  | nil => exact fun m => ⟨⟨.refl m, fun _ _ h => ⟨h, by simp⟩⟩, by simp⟩
  | cons d domains ih =>
    intro m
    refine wp_bind_of (deleteInner_loses d _ m) (fun tr m₁ hinner => ?_) fun tr x h => h
    have hdrop : Loses m₁ [] { m₁ with domainKeyMap := m₁.domainKeyMap.dropIfEmpty d } :=
      ⟨rfl, fun _ _ h => ⟨DomainKeyMap.holds_dropIfEmpty.mp h, by simp⟩⟩
    have hfirst := hinner.1.append hdrop
    rw [List.append_nil] at hfirst
    refine wp_mono (ih { m₁ with domainKeyMap := m₁.domainKeyMap.dropIfEmpty d }) fun tr' o h => ?_
    exact LosesOutcome.append hfirst hinner.2 h

/-- What `DeleteAllKey` leaves: it has a meaning exactly where no delete fails. -/
def DeletedAll (H : KmHost) (m : OpenbaoKeyManager) (tr : List KmEvent) :
    Outcome Fault (KeyManagerRC × OpenbaoKeyManager) → Prop
  | .ret (_, m') => Tracks H m tr m' ∧ ∀ ev ∈ tr, ¬ FailsDelete ev
  | .halt x => x = .undefined ∧ (m.accessToken = [] ∨ ∃ ev ∈ tr, FailsDelete ev)

theorem deleteAllKey_tracks (H : KmHost) (m : OpenbaoKeyManager) :
    wp m.deleteAllKey (DeletedAll H m) := by
  have hsame : DeletedAll H m [acquired .exclusive, released .exclusive] (.ret (.uninited, m)) := by
    refine ⟨.of_noDelete (.refl m) (fun _ _ => id) ?_, ?_⟩
    · simp [Deletes, acquired, released]
    · simp [FailsDelete, acquired, released]
  unfold OpenbaoKeyManager.deleteAllKey
  rw [wp_locked]
  split
  · exact hsame
  split
  · exact hsame
  refine wp_bind_of (deleteOuter_loses _ m) (fun tr m' h => ?_) fun tr x h => ?_
  · obtain ⟨hloses, hnofail⟩ := h
    have hmem : ∀ {P : KmEvent → Prop}, P (acquired .exclusive) → (∀ ev ∈ tr, P ev) →
        P (released .exclusive) →
        ∀ ev ∈ acquired .exclusive :: (tr ++ [] ++ [released .exclusive]), P ev := by
      intro P hfirst htr hlast ev hev
      simp only [List.append_nil, List.mem_cons, List.mem_append, List.not_mem_nil, or_false] at hev
      rcases hev with rfl | hev | rfl
      · exact hfirst
      · exact htr ev hev
      · exact hlast
    refine ⟨⟨hloses.sameButMap, fun d k hholds => .inl ?_⟩, hmem id hnofail id⟩
    obtain ⟨hold, hnot⟩ := hloses.origin d k hholds
    exact ⟨hold, hmem id hnot id⟩
  · refine ⟨h.1, h.2.imp id ?_⟩
    intro hboth
    obtain ⟨ev, hev, hfails⟩ := hboth
    exact ⟨ev, List.mem_cons_of_mem _ hev, hfails⟩

/-! ## The automatic update -/

/-- What an automatic update leaves. Keys stay in the map whatever happened to them in the
store, and nothing changes before the first delete that succeeds. -/
structure Updated (m : OpenbaoKeyManager) (tr : List KmEvent) (m' : OpenbaoKeyManager) : Prop where
  sameButMap : SameButMap m m'
  kept : ∀ d k, m.domainKeyMap.Holds d k → m'.domainKeyMap.Holds d k
  unchanged : (∀ ev ∈ tr, ∀ d k, ¬ Deletes d k ev) → m' = m

theorem Updated.refl (m : OpenbaoKeyManager) (tr : List KmEvent) : Updated m tr m :=
  ⟨.refl m, fun _ _ => id, fun _ => rfl⟩

/-- The time of a key set after its delete. -/
theorem Updated.setTime {m m' : OpenbaoKeyManager} {d k : Nat} {time : Int} {r₁ : Int × Bytes}
    {tr tr' : List KmEvent} (h₁ : Succeeded r₁)
    (h : Updated { m with domainKeyMap := m.domainKeyMap.setTime d k time } tr m') :
    Updated m (ran m (.delete d k) r₁ :: tr') m' where
  sameButMap := by
    have hset : SameButMap m { m with domainKeyMap := m.domainKeyMap.setTime d k time } := rfl
    exact hset.trans h.sameButMap
  kept d' k' hholds := h.kept d' k' (DomainKeyMap.holds_setTime.mpr (.inr hholds))
  unchanged hnot := absurd ⟨⟨rfl, rfl⟩, h₁⟩ (hnot _ List.mem_cons_self d k)

def UpdatedOutcome {α : Type} (H : KmHost) (m : OpenbaoKeyManager) (tr : List KmEvent) :
    Outcome Fault (α × OpenbaoKeyManager) → Prop
  | .ret (_, m') => Updated m tr m'
  | .halt _ => ∃ ev ∈ tr, ReaderFaults H ev

theorem autoUpdateLoop_updated (H : KmHost) (d lead : Nat) (time : Int) (keys : List (Nat × Int)) :
    ∀ m, wp (autoUpdateLoop H d lead time m keys) (UpdatedOutcome H m) := by
  induction keys with
  | nil => exact fun m => .refl m _
  | cons key keys ih =>
    intro m
    unfold autoUpdateLoop
    split
    · exact .refl m _
    split
    · exact .refl m _
    split
    rotate_left
    · exact ih m
    refine wp_bind_of (handleCommand_traces m d key.1) (fun tr ret hcommand => ?_)
      fun tr x hcommand => by cases hcommand
    generalize ho : (Outcome.ret ret : Outcome Fault KeyManagerRC) = o at hcommand
    by_cases hret : ret ≠ .ok
    · rw [if_pos hret]
      exact .refl m _
    rw [if_neg hret]
    -- a round that goes on has deleted and made the key
    cases hcommand with
    | noToken _ => exact absurd (Outcome.ret.inj ho) fun h => hret (by rw [h]; decide)
    | deleteFailed _ => exact absurd (Outcome.ret.inj ho) fun h => hret (by rw [h]; decide)
    | createFailed _ _ => exact absurd (Outcome.ret.inj ho) fun h => hret (by rw [h]; decide)
    | configFailed _ _ _ => exact absurd (Outcome.ret.inj ho) fun h => hret (by rw [h]; decide)
    | remade h₁ h₂ h₃ =>
      refine wp_bind.mpr (wp_runCommandAndGetResult ?_ ?_)
      · intro _
        exact .refl m _
      intro _ reply
      rw [then_ret]
      by_cases hs : (commandResult reply).1 ≠ .ok
      · rw [if_pos hs]
        exact .refl m _
      rw [if_neg hs]
      have hs : Succeeded reply := not_not.mp hs
      rw [commandResult_of_succeeded hs]
      refine wp_ofExcept_bind (fun timeTmp _ => ?_) fun x hx => ?_
      · by_cases hminus : timeTmp = -1
        · rw [if_pos hminus]
          exact .refl m _
        rw [if_neg hminus]
        refine wp_mono (ih _) fun tr' o h => ?_
        cases o with
        | ret a => exact Updated.setTime h₁ h
        | halt x =>
          obtain ⟨ev, hev, hfaults⟩ := h
          refine ⟨ev, ?_, hfaults⟩
          exact List.mem_append_right _ (List.mem_cons_of_mem _ hev)
      · exact ⟨ran m (.read d key.1) reply, by simp [ran], hs, x, hx⟩

theorem autoUpdate_updated (H : KmHost) (m : OpenbaoKeyManager) (d lead : Nat) :
    wp (m.checkDomainKeysExpiredAndAutoUpdate H d lead) (UpdatedOutcome H m) := by
  unfold OpenbaoKeyManager.checkDomainKeysExpiredAndAutoUpdate
  rw [wp_locked, Prog.perform_bind]
  intro time
  dsimp only
  split
  · exact .refl m _
  split
  · exact .refl m _
  refine wp_mono (autoUpdateLoop_updated H d lead time _ m) fun tr o h => ?_
  cases o with
  | ret a =>
    refine ⟨h.sameButMap, h.kept, fun hnot => h.unchanged fun ev hev => hnot ev ?_⟩
    exact List.mem_cons_of_mem _ (List.mem_cons_of_mem _ (List.mem_append_left _ hev))
  | halt x =>
    obtain ⟨ev, hev, hfaults⟩ := h
    exact ⟨ev, List.mem_cons_of_mem _ (List.mem_cons_of_mem _ hev), hfaults⟩

/-- The calls of an automatic update: it deletes keys of the map only, and makes none
exportable. -/
def UpdateCall (m : OpenbaoKeyManager) : Call → Prop
  | .run _ _ (.delete d k) => m.domainKeyMap.Holds d k
  | .run _ _ (.config _ _ flags) => .exportable ∉ flags
  | _ => True

theorem UpdateCall.not_setsExportable {m : OpenbaoKeyManager} {c : Call} (h : UpdateCall m c) :
    ¬ SetsExportable c := by
  intro hsets
  unfold SetsExportable at hsets
  split at hsets
  · exact h hsets
  · exact hsets

theorem UpdateCall.holds {m : OpenbaoKeyManager} {ev : KmEvent} {d k : Nat} (h : UpdateCall m ev.1)
    (hdel : Deletes d k ev) : m.domainKeyMap.Holds d k := by
  unfold Deletes at hdel
  split at hdel
  · obtain ⟨⟨rfl, rfl⟩, -⟩ := hdel
    exact h
  · exact hdel.elim

theorem calls_autoUpdate (H : KmHost) (m : OpenbaoKeyManager) (d lead : Nat) :
    Calls (UpdateCall m) (m.checkDomainKeysExpiredAndAutoUpdate H d lead) := by
  refine calls_locked trivial trivial (Calls.bind (calls_perform trivial) fun time => ?_)
  split
  · trivial
  split
  · trivial
  refine calls_autoUpdateLoop (fun key hmem => ?_) m
  have hget := Std.ExtTreeMap.mem_toList_iff_getElem?_eq_some.mp hmem
  have hholds : m.domainKeyMap.Holds d key.1 :=
    Std.ExtTreeMap.mem_iff_isSome_getElem?.mpr (by simp [hget])
  exact ⟨fun _ _ => hholds, fun _ _ => trivial, fun _ _ => by simp [UpdateCall], fun _ _ => trivial⟩

/-- A key that an automatic update has deleted was in the map, stays there, and is not exported
again, whatever became of the commands that make it anew. -/
theorem autoUpdate_loses {H : KmHost} {s s' : KmSystem} {d' lead : Nat} {tr : List KmEvent}
    {answer : Answer}
    (hstep : KmStep H s ⟨.checkDomainKeysExpiredAndAutoUpdate d' lead, tr, some answer⟩ s')
    {d k : Nat} (hdeleted : ∃ ev ∈ tr, Deletes d k ev) :
    s'.manager.domainKeyMap.Holds d k ∧ Refuses s'.store d k := by
  cases hstep with
  | returned htr hstore =>
    have hupdated : wp (Op.prog H s.manager (.checkDomainKeysExpiredAndAutoUpdate d' lead))
        fun tr o => UpdatedOutcome H s.manager tr o := by
      refine (wp_bind_ret fun _ => rfl).mpr (wp_mono (autoUpdate_updated H s.manager d' lead) ?_)
      intro tr o h
      cases o with
      | ret a => exact h
      | halt x => exact h
    have hcalls : Calls (UpdateCall s.manager)
        (Op.prog H s.manager (.checkDomainKeysExpiredAndAutoUpdate d' lead)) :=
      (calls_autoUpdate H s.manager d' lead).bind fun _ => trivial
    have hquiet := wp_iff.mp hcalls.trace _ _ htr
    constructor
    · obtain ⟨ev, hev, hdel⟩ := hdeleted
      exact (wp_iff.mp hupdated _ _ htr).kept d k ((hquiet ev hev).holds hdel)
    · exact refuses_of_deleted hstore hdeleted fun ev hev => (hquiet ev hev).not_setsExportable

/-! ## Steps and runs -/

/-- The operations that maintain the keys. -/
def Maintains : Op → Prop
  | .createKey _ => True
  | .removeKey _ _ => True
  | .deleteAllKey => True
  | .checkDomainKeysExpiredAndAutoUpdate _ _ => True
  | _ => False

/-- No delete of a `DeleteAllKey` fails, and none of an automatic update succeeds. -/
def StaysMirrored (call : KmCall) : Prop :=
  match call.op with
  | .deleteAllKey => ∀ ev ∈ call.tr, ¬ FailsDelete ev
  | .checkDomainKeysExpiredAndAutoUpdate _ _ => ∀ ev ∈ call.tr, ∀ d k, ¬ Deletes d k ev
  | _ => True

theorem TracksOutcome.map {α β : Type} {H : KmHost} {m : OpenbaoKeyManager} {tr : List KmEvent}
    {o : Outcome Fault (α × OpenbaoKeyManager)} {g : α × OpenbaoKeyManager → β × OpenbaoKeyManager}
    (hg : ∀ a, (g a).2 = a.2) (h : TracksOutcome H m tr o) : TracksOutcome H m tr (o.map g) := by
  cases o with
  | ret a =>
    show Tracks H m tr (g a).2
    rw [hg]
    exact h
  | halt x => exact h

theorem prog_tracks {H : KmHost} {m : OpenbaoKeyManager} {op : Op} (hserving : Serving m)
    (hop : Maintains op) :
    wp (op.prog H m) fun tr o => StaysMirrored ⟨op, tr, none⟩ → TracksOutcome H m tr o := by
  cases op with
  | createKey d =>
    refine (wp_bind_ret fun _ => rfl).mpr (wp_mono (createKey_tracks H m d) fun tr o h _ => ?_)
    exact h.map fun _ => rfl
  | removeKey d k =>
    refine (wp_bind_ret fun _ => rfl).mpr (wp_mono (removeKey_tracks H m d k) fun tr o h _ => ?_)
    exact h.map fun _ => rfl
  | deleteAllKey =>
    refine (wp_bind_ret fun _ => rfl).mpr (wp_mono (deleteAllKey_tracks H m) fun tr o h hstays => ?_)
    refine TracksOutcome.map (fun _ => rfl) ?_
    cases o with
    | ret a => exact h.1
    | halt x =>
      rcases h.2 with hnone | ⟨ev, hev, hfails⟩
      · exact absurd hnone hserving.accessToken
      · exact absurd hfails (hstays ev hev)
  | checkDomainKeysExpiredAndAutoUpdate d lead =>
    refine (wp_bind_ret fun _ => rfl).mpr (wp_mono (autoUpdate_updated H m d lead) fun tr o h hstays => ?_)
    refine TracksOutcome.map (fun _ => rfl) ?_
    cases o with
    | ret a =>
      show Tracks H m tr a.2
      rw [h.unchanged hstays]
      exact .of_noDelete (.refl m) (fun _ _ => id) hstays
    | halt x => exact h
  | _ => exact hop.elim

theorem mirrors_step {H : KmHost} {s s' : KmSystem} {call : KmCall} (hserving : Serving s.manager)
    (hmirrors : Mirrors s) (hop : Maintains call.op) (hstays : StaysMirrored call)
    (hstep : KmStep H s call s') : Serving s'.manager ∧ Mirrors s' := by
  cases hstep with
  | returned htr hstore =>
    have htracks := wp_iff.mp (prog_tracks hserving hop) _ _ htr hstays
    exact ⟨hserving.of_sameButMap htracks.sameButMap, htracks.mirrors hmirrors hstore⟩
  | undefined htr hstore =>
    -- the store never prints what would stop one of these
    obtain ⟨ev, hev, hfaults⟩ := wp_iff.mp (prog_tracks hserving hop) _ _ htr hstays
    exact absurd hfaults (not_readerFaults_of_run hstore ev hev)

/-- A system whose map is ahead of its store. -/
def unmirrored : KmSystem where
  manager := { domainKeyMap := DomainKeyMap.addKey ∅ 0 0 0 }
  store := ∅

theorem not_mirrors_unmirrored : ¬ Mirrors unmirrored := by
  intro hmirrors
  obtain ⟨key, hkey, -⟩ := hmirrors 0 0 (DomainKeyMap.holds_addKey.mpr (.inl ⟨rfl, rfl⟩))
  simp [unmirrored, TransitStore.key?] at hkey

/-- **One call, exactly.** Every outcome of the call leaves the map mirrored if and only if the
call meets the condition. -/
theorem mirrors_step_iff {H : KmHost} {s : KmSystem} {call : KmCall} (hserving : Serving s.manager)
    (hmirrors : Mirrors s) (hop : Maintains call.op) (hstep : ∃ s', KmStep H s call s') :
    (∀ s', KmStep H s call s' → Mirrors s') ↔ StaysMirrored call := by
  constructor
  · intro hall
    obtain ⟨s', hstep⟩ := hstep
    obtain ⟨op, tr, answer⟩ := call
    cases op with
    | deleteAllKey =>
      have hdeleted : wp (Op.prog H s.manager .deleteAllKey) fun tr o =>
          ∀ a, o = .ret a → ∀ ev ∈ tr, ¬ FailsDelete ev := by
        refine (wp_bind_ret fun _ => rfl).mpr (wp_mono (deleteAllKey_tracks H s.manager) ?_)
        intro tr o h a ha
        cases o with
        | ret b => exact h.2
        | halt x => cases ha
      cases hstep with
      | returned htr hstore => exact wp_iff.mp hdeleted _ _ htr _ rfl
      | undefined htr hstore => exact absurd (hall _ (.undefined htr hstore)) not_mirrors_unmirrored
    | checkDomainKeysExpiredAndAutoUpdate d lead =>
      cases hstep with
      | returned htr hstore =>
        intro ev hev d' k' hdel
        obtain ⟨hholds, hrefuses⟩ := autoUpdate_loses (.returned htr hstore) ⟨ev, hev, hdel⟩
        obtain ⟨key, hkey, hexportable, -⟩ := hall _ (.returned htr hstore) d' k' hholds
        cases (hrefuses key hkey).symm.trans hexportable
      | undefined htr hstore => exact absurd (hall _ (.undefined htr hstore)) not_mirrors_unmirrored
    | _ => trivial
  · exact fun hstays s' hstep => (mirrors_step hserving hmirrors hop hstays hstep).2

/-- **The mirror in every run.** While no delete of a `DeleteAllKey` fails and no delete of an
automatic update succeeds, every key of the map is in the store, exportable and deletable. -/
theorem mirrors_of_run {H : KmHost} {s s' : KmSystem} {calls : List KmCall}
    (hserving : Serving s.manager) (hmirrors : Mirrors s)
    (hrun : Run (Guarded (fun _ call => Maintains call.op ∧ StaysMirrored call) (KmStep H))
      s calls s') : Mirrors s' := by
  refine (Run.invariant (I := fun s => Serving s.manager ∧ Mirrors s) ?_ hrun
    ⟨hserving, hmirrors⟩).2
  intro s call s' h hboth
  obtain ⟨hserving, hmirrors⟩ := h
  obtain ⟨⟨hop, hstays⟩, hstep⟩ := hboth
  exact mirrors_step hserving hmirrors hop hstays hstep

/-! ## A store with one key -/

def sampleVersion : KeyVersion := ⟨1, 1700000000, List.replicate 32 7⟩

/-- The key of `sampleManager`, as `CreateKey` leaves it. -/
def sampleStore : TransitStore :=
  Std.ExtTreeMap.insert ∅ (keyName 0 3) (createFlags.foldl TransitKey.setFlag (.fresh sampleVersion))

def sampleSystem : KmSystem := ⟨sampleManager, sampleStore⟩

theorem serving_sampleManager : Serving sampleManager := ⟨rfl, by decide⟩

theorem sampleStore_key? : sampleStore.key? 0 3 =
    some (createFlags.foldl TransitKey.setFlag (.fresh sampleVersion)) := by
  unfold sampleStore
  rw [key?_insert, if_pos ⟨rfl, rfl⟩]

theorem mirrors_sampleSystem : Mirrors sampleSystem := by
  intro d k hholds
  obtain ⟨rfl, rfl⟩ := sampleManager_holds.mp hholds
  exact ⟨_, sampleStore_key?, rfl, rfl⟩

/-- A key made under a name the store does not have, then configured and read. -/
theorem run_created {store : TransitStore} {d k : Nat} (hnone : store.key? d k = none)
    (flags : List KeyFlag) :
    ∃ store', Run (TransitStep sampleHost.json) store
      [ran sampleManager (.create d k) (0, []), ran sampleManager (.config d k flags) (0, []),
        ran sampleManager (.read d k) (0, ascii "time"), released .exclusive] store' := by
  let fresh := TransitKey.fresh sampleVersion
  let made : TransitStore := store.insertIfNew (keyName d k) fresh
  let configured : TransitStore := made.insert (keyName d k) (flags.foldl TransitKey.setFlag fresh)
  have hmade : made.key? d k = some fresh := by
    rw [key?_insertIfNew, if_pos ⟨⟨rfl, rfl⟩, hnone⟩]
  have hconfigured : configured.key? d k = some (flags.foldl TransitKey.setFlag fresh) := by
    rw [key?_insert, if_pos ⟨rfl, rfl⟩]
  have hconfig : made.apply sampleVersion (.config d k flags) = some configured := by
    show Option.map _ (made.key? d k) = _
    rw [hmade]
    rfl
  have hread : configured.apply sampleVersion (.read d k) = some configured := by
    show Option.map _ (configured.key? d k) = _
    rw [hconfigured]
    rfl
  have hprints : Prints sampleHost.json configured (ascii "time") (.read d k) := by
    intro key hkey
    obtain rfl := Option.some.inj (hconfigured.symm.trans hkey)
    rw [(TransitKey.grows_setFlags flags fresh).versions]
    rfl
  have hcreate : TransitStep sampleHost.json store (ran sampleManager (.create d k) (0, [])) made :=
    transitStep_succeeded (by decide) rfl trivial
  exact ⟨configured, .cons hcreate (.cons (transitStep_succeeded (by decide) hconfig trivial)
    (.cons (transitStep_succeeded (by decide) hread hprints) (.cons rfl (.nil _))))⟩

/-- `CreateKey` on the sample, with every command a success. -/
theorem kmStep_createKey :
    ∃ tr answer s', KmStep sampleHost sampleSystem ⟨.createKey 0, tr, answer⟩ s' := by
  have hnone : sampleStore.key? 0 4 = none := by
    unfold sampleStore
    rw [key?_insert, if_neg (by decide)]
    rfl
  obtain ⟨store', hrun⟩ := run_created hnone createFlags
  exact ⟨_, _, ⟨_, store'⟩,
    .returned (traces_runWith sampleAnswer (Op.prog sampleHost sampleManager (.createKey 0)))
      (.cons rfl hrun)⟩

/-- An automatic update 700 days ahead on the sample, with every command a success. -/
theorem kmStep_autoUpdate : ∃ tr answer s', ran sampleManager (.delete 0 3) (0, []) ∈ tr ∧
    KmStep sampleHost sampleSystem
      ⟨.checkDomainKeysExpiredAndAutoUpdate 0 700, tr, some answer⟩ s' := by
  have hdelete : sampleStore.apply sampleVersion (.delete 0 3) =
      some (Std.ExtTreeMap.erase sampleStore (keyName 0 3)) := by
    unfold TransitStore.apply
    dsimp only
    rw [sampleStore_key?]
    rfl
  have hnone : TransitStore.key? (sampleStore.erase (keyName 0 3)) 0 3 = none := by
    rw [key?_erase, if_pos ⟨rfl, rfl⟩]
  obtain ⟨store', hrun⟩ := run_created hnone [.deletionAllowed]
  refine ⟨_, _, ⟨_, store'⟩, ?_, .returned
    (traces_runWith sampleAnswer
      (Op.prog sampleHost sampleManager (.checkDomainKeysExpiredAndAutoUpdate 0 700)))
      (.cons rfl (.cons rfl (.cons (transitStep_succeeded ?_ hdelete trivial) hrun)))⟩
  · exact List.mem_cons_of_mem _ (List.mem_cons_of_mem _ List.mem_cons_self)
  · decide

/-- The update leaves a key in the map that the store refuses to export. -/
theorem autoUpdate_unmirrors : ¬ ∀ (H : KmHost) (s s' : KmSystem) (calls : List KmCall),
    Serving s.manager → Mirrors s →
    Run (Guarded (fun _ call => Maintains call.op) (KmStep H)) s calls s' → Mirrors s' := by
  intro hall
  obtain ⟨tr, answer, s', hmem, hstep⟩ := kmStep_autoUpdate
  let call : KmCall := ⟨.checkDomainKeysExpiredAndAutoUpdate 0 700, tr, some answer⟩
  have hop : Maintains call.op := trivial
  have hmirrors : ∀ s', KmStep sampleHost sampleSystem call s' → Mirrors s' := fun s' hstep =>
    hall sampleHost sampleSystem s' [call] serving_sampleManager mirrors_sampleSystem
      (.cons ⟨hop, hstep⟩ (.nil _))
  have hstays : StaysMirrored call := (mirrors_step_iff serving_sampleManager mirrors_sampleSystem
    hop ⟨s', hstep⟩).mp hmirrors
  exact hstays _ hmem 0 3 ⟨⟨rfl, rfl⟩, by decide⟩

theorem mirrors_of_run_createKey : ∃ tr answer s',
    KmStep sampleHost sampleSystem ⟨.createKey 0, tr, answer⟩ s' ∧ Mirrors s' := by
  obtain ⟨tr, answer, s', hstep⟩ := kmStep_createKey
  have hrun : Run (Guarded (fun _ call => Maintains call.op ∧ StaysMirrored call)
      (KmStep sampleHost)) sampleSystem [⟨.createKey 0, tr, answer⟩] s' :=
    .cons ⟨⟨trivial, trivial⟩, hstep⟩ (.nil _)
  exact ⟨tr, answer, s', hstep, mirrors_of_run serving_sampleManager mirrors_sampleSystem hrun⟩

end CdfCrypto.KeyManagement
