import CdfCrypto.KeyManagement.Mirror
import CdfCrypto.KeyManagement.RoundTrip
import Mathlib.Data.List.Nodup

/-!
# `DeleteAllKey`

The loops run over the domains and, in each, over its keys. Where every delete
succeeds, they issue one command for each pair of the map, in order, and leave
the map empty. After a delete that fails the inner loop goes on with an iterator
of the domain it has left, so the call has no meaning: what it is for
(`DeletesExactly`) holds exactly where no delete of a pair in the map fails.
-/

namespace CdfCrypto.KeyManagement

open Lib OpenbaoKeyManager

/-- The pair a call deletes. -/
def deletedPair? : Call → Option (Nat × Nat)
  | .run _ _ (.delete d k) => some (d, k)
  | _ => none

/-- The pairs of the delete commands in a trace, in order. -/
def deletedPairs (tr : List KmEvent) : List (Nat × Nat) := (tr.map (·.1)).filterMap deletedPair?

/-- A delete of the pair succeeded in the trace. -/
def Deleted (tr : List KmEvent) (d k : Nat) : Prop := ∃ ev ∈ tr, Deletes d k ev

/-- What `DeleteAllKey` is for. A domain stays in the map exactly where one of its keys does. -/
structure DeletesExactly.Done (m : OpenbaoKeyManager) (tr : List KmEvent) (rc : KeyManagerRC)
    (m' : OpenbaoKeyManager) : Prop where
  once : (deletedPairs tr).Nodup
  present : ∀ pair ∈ deletedPairs tr, m.domainKeyMap.Holds pair.1 pair.2
  sameButMap : SameButMap m m'
  removed : ∀ d k, Deleted tr d k → ¬m'.domainKeyMap.Holds d k
  kept : ∀ d k, ¬Deleted tr d k → (m'.domainKeyMap.at' d)[k]? = (m.domainKeyMap.at' d)[k]?
  domains : ∀ d, d ∈ m'.domainKeyMap ↔ ∃ k, m'.domainKeyMap.Holds d k
  code : rc = .ok ↔ ∀ d k, m.domainKeyMap.Holds d k → Deleted tr d k

/-- The call comes back, having done so. -/
def DeletesExactly (m : OpenbaoKeyManager) (tr : List KmEvent) :
    Outcome Fault (KeyManagerRC × OpenbaoKeyManager) → Prop
  | .ret (rc, m') => DeletesExactly.Done m tr rc m'
  | .halt _ => False

/-! ## The loops -/

/-- The command for a pair. -/
def deleteCall (m : OpenbaoKeyManager) (pair : Nat × Nat) : Call :=
  .run m.exePath m.accessToken (.delete pair.1 pair.2)

/-- The pairs of some domains, in the order of the loops. -/
def pairsOf (map : DomainKeyMap) (domains : List Nat) : List (Nat × Nat) :=
  domains.flatMap fun d => (map.at' d).keys.map fun k => (d, k)

theorem mem_pairsOf {map : DomainKeyMap} {domains : List Nat} {pair : Nat × Nat} :
    pair ∈ pairsOf map domains ↔ pair.1 ∈ domains ∧ map.Holds pair.1 pair.2 := by
  obtain ⟨d, k⟩ := pair
  simp only [pairsOf, List.mem_flatMap, List.mem_map, Prod.mk.injEq, Std.ExtTreeMap.mem_keys,
    DomainKeyMap.Holds]
  constructor
  · intro h
    obtain ⟨d', hd, k', hk, rfl, rfl⟩ := h
    exact ⟨hd, hk⟩
  · intro h
    obtain ⟨hd, hk⟩ := h
    exact ⟨d, hd, k, hk, rfl, rfl⟩

theorem nodup_pairsOf (map : DomainKeyMap) {domains : List Nat} (h : domains.Nodup) :
    (pairsOf map domains).Nodup := by
  refine List.nodup_flatMap.mpr ⟨fun d _ => ?_, h.imp fun hne => ?_⟩
  · exact Std.ExtTreeMap.nodup_keys.map fun _ _ heq => (Prod.mk.inj heq).2
  · intro pair hpair hpair'
    obtain ⟨k, -, rfl⟩ := List.mem_map.mp hpair
    obtain ⟨k', -, heq⟩ := List.mem_map.mp hpair'
    exact hne (Prod.mk.inj heq).1.symm

/-- The commands of the trace are those for `pairs`, and none failed. -/
structure DeletedInTurn (m : OpenbaoKeyManager) (pairs : List (Nat × Nat)) (tr : List KmEvent) :
    Prop where
  calls : tr.map (·.1) = pairs.map (deleteCall m)
  succeeded : ∀ ev ∈ tr, ¬FailsDelete ev
  token : pairs ≠ [] → m.accessToken ≠ []

theorem DeletedInTurn.nil (m : OpenbaoKeyManager) : DeletedInTurn m [] [] :=
  ⟨rfl, by simp, fun h => absurd rfl h⟩

theorem DeletedInTurn.append {m m₁ : OpenbaoKeyManager} {pairs pairs' : List (Nat × Nat)}
    {tr tr' : List KmEvent} (h : DeletedInTurn m pairs tr) (hsame : SameButMap m m₁)
    (h' : DeletedInTurn m₁ pairs' tr') : DeletedInTurn m (pairs ++ pairs') (tr ++ tr') := by
  have hcall : deleteCall m₁ = deleteCall m := by
    unfold deleteCall
    rw [hsame.exePath, hsame.accessToken]
  refine ⟨?_, fun ev hev => ?_, fun hne => ?_⟩
  · rw [List.map_append, List.map_append, h.calls, h'.calls, hcall]
  · rcases List.mem_append.mp hev with hev | hev
    · exact h.succeeded ev hev
    · exact h'.succeeded ev hev
  · by_cases hnil : pairs = []
    · rw [hnil, List.nil_append] at hne
      rw [← hsame.accessToken]
      exact h'.token hne
    · exact h.token hnil

/-- The pairs of the commands. -/
theorem DeletedInTurn.pairs_eq {m : OpenbaoKeyManager} {pairs : List (Nat × Nat)}
    {tr : List KmEvent} (h : DeletedInTurn m pairs tr) : deletedPairs tr = pairs := by
  have hpair : deletedPair? ∘ deleteCall m = some := rfl
  rw [deletedPairs, h.calls, List.filterMap_map, hpair,
    List.filterMap_some]

/-- The delete of one of the pairs failed, or could not be issued. -/
def SomeDeleteFails (m : OpenbaoKeyManager) (pairs : List (Nat × Nat)) (tr : List KmEvent) : Prop :=
  ∃ pair ∈ pairs, m.accessToken = [] ∨
    ∃ reply, ⟨deleteCall m pair, reply⟩ ∈ tr ∧ ¬Succeeded reply

/-- What the inner loop leaves of the map. -/
structure Emptied (m : OpenbaoKeyManager) (d : Nat) (keys : List Nat) (m' : OpenbaoKeyManager) :
    Prop where
  sameButMap : SameButMap m m'
  holds : ∀ k, m'.domainKeyMap.Holds d k ↔ m.domainKeyMap.Holds d k ∧ k ∉ keys
  others : ∀ d', d ≠ d' → m'.domainKeyMap[d']? = m.domainKeyMap[d']?

/-- How the inner loop ends. -/
def InnerOutcome (m : OpenbaoKeyManager) (d : Nat) (keys : List Nat) (tr : List KmEvent) :
    Outcome Fault OpenbaoKeyManager → Prop
  | .ret m' => Emptied m d keys m' ∧ DeletedInTurn m (keys.map fun k => (d, k)) tr
  | .halt _ => SomeDeleteFails m (keys.map fun k => (d, k)) tr

theorem deleteInner_outcome (d : Nat) (keys : List Nat) :
    ∀ m, wp (deleteInner d m keys) (InnerOutcome m d keys) := by
  induction keys with
  | nil => exact fun m => ⟨⟨.refl m, by simp, fun _ _ => rfl⟩, .nil m⟩
  | cons k keys ih =>
    intro m
    unfold deleteInner
    refine wp_bind.mpr (wp_runCommandAndCheck ?_ ?_ ?_)
    · intro hnone
      exact ⟨(d, k), List.mem_cons_self, .inl hnone⟩
    · intro htoken reply hs
      rw [then_ret, if_neg (by decide)]
      have hfirst : DeletedInTurn m [(d, k)] [ran m (.delete d k) reply] := by
        refine ⟨rfl, fun ev hev => ?_, fun _ => htoken⟩
        obtain rfl := List.mem_singleton.mp hev
        exact not_not.mpr hs
      have hsame : SameButMap m { m with domainKeyMap := m.domainKeyMap.eraseKey d k } := rfl
      refine wp_mono (ih { m with domainKeyMap := m.domainKeyMap.eraseKey d k }) fun tr o h => ?_
      cases o with
      | ret m' =>
        obtain ⟨hempty, hturn⟩ := h
        refine ⟨⟨hsame.trans hempty.sameButMap, fun k' => ?_, fun d' hne => ?_⟩,
          hfirst.append hsame hturn⟩
        · rw [hempty.holds, DomainKeyMap.holds_eraseKey, List.mem_cons]
          constructor
          · intro hboth
            obtain ⟨⟨hne, hold⟩, hnot⟩ := hboth
            exact ⟨hold, fun h => h.elim (fun heq => hne ⟨rfl, heq.symm⟩) hnot⟩
          · intro hboth
            obtain ⟨hold, hnot⟩ := hboth
            exact ⟨⟨fun h => hnot (.inl h.2.symm), hold⟩, fun h => hnot (.inr h)⟩
        · rw [hempty.others d' hne]
          show (m.domainKeyMap.insert d _)[d']? = _
          rw [Std.ExtTreeMap.getElem?_insert, if_neg (by simpa using hne)]
      | halt x =>
        obtain ⟨pair, hpair, hfails⟩ := h
        refine ⟨pair, List.mem_cons_of_mem _ hpair, hfails.imp_right ?_⟩
        intro hboth
        obtain ⟨reply', hev, hnot⟩ := hboth
        exact ⟨reply', List.mem_cons_of_mem _ hev, hnot⟩
    · intro _ reply hfails
      exact ⟨(d, k), List.mem_cons_self, .inr ⟨reply, List.mem_singleton.mpr rfl, hfails⟩⟩

/-- A domain that the inner loop has emptied goes. -/
theorem Emptied.dropIfEmpty {m m' : OpenbaoKeyManager} {d : Nat}
    (h : Emptied m d (m.domainKeyMap.at' d).keys m') :
    m'.domainKeyMap.dropIfEmpty d = m.domainKeyMap.erase d := by
  have hempty : m'.domainKeyMap.at' d = ∅ := by
    refine Std.ExtTreeMap.eq_empty_iff_forall_not_mem.mpr fun k hk => ?_
    obtain ⟨hold, hnot⟩ := (h.holds k).mp hk
    exact hnot (Std.ExtTreeMap.mem_keys.mpr hold)
  unfold DomainKeyMap.dropIfEmpty
  rw [if_pos (Std.ExtTreeMap.isEmpty_iff.mpr hempty)]
  refine Std.ExtTreeMap.ext_getElem? fun d' => ?_
  rw [Std.ExtTreeMap.getElem?_erase, Std.ExtTreeMap.getElem?_erase]
  split
  · rfl
  next hne => exact h.others d' (by simpa using hne)

/-- How the outer loop ends. -/
def OuterOutcome (m : OpenbaoKeyManager) (domains : List Nat) (tr : List KmEvent) :
    Outcome Fault OpenbaoKeyManager → Prop
  | .ret m' => m' = { m with domainKeyMap := domains.foldl Std.ExtTreeMap.erase m.domainKeyMap } ∧
      DeletedInTurn m (pairsOf m.domainKeyMap domains) tr
  | .halt _ => SomeDeleteFails m (pairsOf m.domainKeyMap domains) tr

/-- The pairs of domains other than the erased one. -/
theorem pairsOf_erase {map : DomainKeyMap} {d : Nat} {domains : List Nat} (h : d ∉ domains) :
    pairsOf (map.erase d) domains = pairsOf map domains := by
  refine List.flatMap_congr fun d' hd' => ?_
  have hne : d ≠ d' := by
    intro heq
    subst heq
    exact h hd'
  have hat : DomainKeyMap.at' (map.erase d) d' = map.at' d' := by
    unfold DomainKeyMap.at'
    rw [Std.ExtTreeMap.getD_erase, if_neg (by simpa using hne)]
  rw [hat]

theorem deleteOuter_outcome (domains : List Nat) :
    ∀ m, domains.Nodup → wp (deleteOuter m domains) (OuterOutcome m domains) := by
  induction domains with
  | nil => exact fun m _ => ⟨rfl, .nil m⟩
  | cons d domains ih =>
    intro m hnodup
    obtain ⟨hnot, hnodup⟩ := List.nodup_cons.mp hnodup
    have hpairs : pairsOf m.domainKeyMap (d :: domains) =
        ((m.domainKeyMap.at' d).keys.map fun k => (d, k)) ++ pairsOf m.domainKeyMap domains :=
      List.flatMap_cons
    refine wp_bind_of (deleteInner_outcome d _ m) (fun tr m₁ hinner => ?_) fun tr x h => ?_
    · obtain ⟨hempty, hturn⟩ := hinner
      -- from here on the manager is the first one without the domain
      have hnext : { m₁ with domainKeyMap := m₁.domainKeyMap.dropIfEmpty d } =
          { m with domainKeyMap := m.domainKeyMap.erase d } := by
        rw [hempty.dropIfEmpty, hempty.sameButMap]
      rw [hnext]
      have hsame : SameButMap m { m with domainKeyMap := m.domainKeyMap.erase d } := rfl
      refine wp_mono (ih _ hnodup) fun tr' o h => ?_
      cases o with
      | ret m' =>
        obtain ⟨rfl, hrest⟩ := h
        rw [pairsOf_erase hnot] at hrest
        refine ⟨rfl, ?_⟩
        rw [hpairs]
        exact hturn.append hsame hrest
      | halt x =>
        obtain ⟨pair, hpair, hfails⟩ := h
        rw [pairsOf_erase hnot] at hpair
        refine ⟨pair, hpairs ▸ List.mem_append_right _ hpair, hfails.imp_right ?_⟩
        intro hboth
        obtain ⟨reply, hev, hreply⟩ := hboth
        exact ⟨reply, List.mem_append_right _ hev, hreply⟩
    · obtain ⟨pair, hpair, hfails⟩ := h
      exact ⟨pair, hpairs ▸ List.mem_append_left _ hpair, hfails⟩

/-- Nothing is left once every domain is erased. -/
theorem foldl_erase_keys (map : DomainKeyMap) :
    map.keys.foldl Std.ExtTreeMap.erase map = ∅ := by
  have hmem : ∀ (domains : List Nat) (map : DomainKeyMap) (d : Nat),
      d ∈ domains.foldl Std.ExtTreeMap.erase map → d ∈ map ∧ d ∉ domains := by
    intro domains
    induction domains with
    | nil => exact fun map d h => ⟨h, List.not_mem_nil⟩
    | cons d' domains ih =>
      intro map d h
      obtain ⟨hold, hnot⟩ := ih (map.erase d') d h
      obtain ⟨hne, hold⟩ := Std.ExtTreeMap.mem_erase.mp hold
      refine ⟨hold, fun hmem => ?_⟩
      rcases List.mem_cons.mp hmem with rfl | hmem
      · exact hne (Std.ReflCmp.compare_self)
      · exact hnot hmem
  refine Std.ExtTreeMap.eq_empty_iff_forall_not_mem.mpr fun d hd => ?_
  obtain ⟨hold, hnot⟩ := hmem _ _ _ hd
  exact hnot (Std.ExtTreeMap.mem_keys.mpr hold)

/-! ## The call -/

/-- How the call ends on an initialised manager. -/
def DeleteAllOutcome (m : OpenbaoKeyManager) (tr : List KmEvent) :
    Outcome Fault (KeyManagerRC × OpenbaoKeyManager) → Prop
  | .ret (rc, m') => rc = .ok ∧ m' = { m with domainKeyMap := ∅ } ∧
      ∃ deletes, tr = acquired .exclusive :: (deletes ++ [released .exclusive]) ∧
        DeletedInTurn m (pairsOf m.domainKeyMap m.domainKeyMap.keys) deletes
  | .halt _ => SomeDeleteFails m (pairsOf m.domainKeyMap m.domainKeyMap.keys) tr

/-- **All or no meaning.** -/
theorem deleteAllKey_outcome {m : OpenbaoKeyManager} (hinited : m.inited = true) :
    wp m.deleteAllKey (DeleteAllOutcome m) := by
  unfold OpenbaoKeyManager.deleteAllKey
  rw [wp_locked, if_neg (not_not.mpr hinited)]
  by_cases hempty : m.domainKeyMap.isEmpty
  · rw [if_pos hempty]
    have hnone := Std.ExtTreeMap.isEmpty_iff.mp hempty
    refine ⟨rfl, ?_, [], rfl, ?_⟩
    · rw [← hnone]
    · have hpairs : pairsOf m.domainKeyMap m.domainKeyMap.keys = [] := by
        refine List.eq_nil_iff_forall_not_mem.mpr fun pair hpair => ?_
        have hfull := (mem_pairsOf.mp hpair).2.not_isEmpty
        rw [hempty] at hfull
        cases hfull
      rw [hpairs]
      exact .nil m
  · rw [if_neg hempty]
    refine wp_bind_of (deleteOuter_outcome _ m Std.ExtTreeMap.nodup_keys)
      (fun tr m' h => ?_) fun tr x h => ?_
    · obtain ⟨rfl, hturn⟩ := h
      rw [foldl_erase_keys]
      refine ⟨by simp, rfl, tr, by simp, hturn⟩
    · obtain ⟨pair, hpair, hfails⟩ := h
      refine ⟨pair, hpair, hfails.imp_right ?_⟩
      intro hboth
      obtain ⟨reply, hev, hreply⟩ := hboth
      exact ⟨reply, List.mem_cons_of_mem _ hev, hreply⟩

/-- The delete of each of the pairs is in the trace, and succeeded. -/
theorem DeletedInTurn.deleted {m : OpenbaoKeyManager} {pairs : List (Nat × Nat)}
    {tr : List KmEvent} (h : DeletedInTurn m pairs tr) {d k : Nat} (hpair : (d, k) ∈ pairs) :
    Deleted tr d k := by
  have hcall : deleteCall m (d, k) ∈ tr.map (·.1) := by
    rw [h.calls]
    exact List.mem_map_of_mem hpair
  obtain ⟨⟨call, reply⟩, hev, rfl⟩ := List.mem_map.mp hcall
  exact ⟨_, hev, ⟨rfl, rfl⟩, not_not.mp (h.succeeded _ hev)⟩

/-- Where the call has a meaning, it does what it is for. -/
theorem DeletedInTurn.done {m : OpenbaoKeyManager} {deletes : List KmEvent}
    (h : DeletedInTurn m (pairsOf m.domainKeyMap m.domainKeyMap.keys) deletes) :
    DeletesExactly.Done m (acquired .exclusive :: (deletes ++ [released .exclusive])) .ok
      { m with domainKeyMap := ∅ } := by
  have hpairs : deletedPairs (acquired .exclusive :: (deletes ++ [released .exclusive])) =
      pairsOf m.domainKeyMap m.domainKeyMap.keys := by
    rw [← h.pairs_eq]
    unfold deletedPairs
    rw [List.map_cons, List.map_append, List.filterMap_cons_none rfl, List.filterMap_append]
    exact List.append_nil _
  have hnone : ∀ d k, ¬DomainKeyMap.Holds ∅ d k := fun d k hholds => by simpa using hholds.mem
  have hdeleted : ∀ d k, m.domainKeyMap.Holds d k →
      Deleted (acquired .exclusive :: (deletes ++ [released .exclusive])) d k := by
    intro d k hholds
    obtain ⟨ev, hev, hdel⟩ := h.deleted (mem_pairsOf.mpr
      ⟨Std.ExtTreeMap.mem_keys.mpr hholds.mem, hholds⟩)
    exact ⟨ev, List.mem_cons_of_mem _ (List.mem_append_left _ hev), hdel⟩
  constructor
  case once =>
    rw [hpairs]
    exact nodup_pairsOf _ Std.ExtTreeMap.nodup_keys
  case present =>
    intro pair hpair
    rw [hpairs] at hpair
    exact (mem_pairsOf.mp hpair).2
  case sameButMap => rfl
  case removed => exact fun d k _ => hnone d k
  case kept =>
    intro d k hnot
    have hold : k ∉ m.domainKeyMap.at' d := fun hholds => hnot (hdeleted d k hholds)
    rw [Std.ExtTreeMap.getElem?_eq_none hold, Std.ExtTreeMap.getElem?_eq_none (hnone d k)]
  case domains =>
    intro d
    exact ⟨fun hmem => absurd hmem (by simp), fun ⟨k, hk⟩ => absurd hk (hnone d k)⟩
  case code => exact ⟨fun _ => hdeleted, fun _ => rfl⟩

/-- **`DeleteAllKey` deletes exactly**, for every map and every way the deletes turn out, where
and only where each delete of a pair in the map can be issued and succeeds. -/
theorem deletesExactly_iff {m : OpenbaoKeyManager} (hinited : m.inited = true)
    (answer : (e : Call) → e.Reply) :
    DeletesExactly m (m.deleteAllKey.runWith answer).1 (m.deleteAllKey.eval answer) ↔
      ∀ d k, m.domainKeyMap.Holds d k → m.accessToken ≠ [] ∧
        Succeeded (answer (deleteCall m (d, k))) := by
  have houtcome := wp_eval answer (deleteAllKey_outcome hinited)
  have hanswered : ∀ {call : Call} {reply : call.Reply},
      (⟨call, reply⟩ : KmEvent) ∈ (m.deleteAllKey.runWith answer).1 → reply = answer call :=
    fun hev => eq_of_heq (Sigma.mk.inj (mem_runWith hev)).2
  generalize (m.deleteAllKey.runWith answer).1 = tr at houtcome hanswered ⊢
  cases ho : m.deleteAllKey.eval answer with
  | ret result =>
    obtain ⟨rc, m'⟩ := result
    rw [ho] at houtcome
    obtain ⟨rfl, rfl, deletes, rfl, hturn⟩ := houtcome
    refine ⟨fun _ d k hholds => ?_, fun _ => hturn.done⟩
    have hpair : (d, k) ∈ pairsOf m.domainKeyMap m.domainKeyMap.keys :=
      mem_pairsOf.mpr ⟨Std.ExtTreeMap.mem_keys.mpr hholds.mem, hholds⟩
    refine ⟨hturn.token (List.ne_nil_of_mem hpair), ?_⟩
    have hcall : deleteCall m (d, k) ∈ deletes.map (·.1) := by
      rw [hturn.calls]
      exact List.mem_map_of_mem hpair
    obtain ⟨⟨call, reply⟩, hev, rfl⟩ := List.mem_map.mp hcall
    have hsucceeded := not_not.mp (hturn.succeeded _ hev)
    rwa [hanswered (List.mem_cons_of_mem _ (List.mem_append_left _ hev))] at hsucceeded
  | halt x =>
    rw [ho] at houtcome
    obtain ⟨pair, hpair, hfails⟩ := houtcome
    refine ⟨fun h => h.elim, fun hall => ?_⟩
    obtain ⟨htoken, hreply⟩ := hall pair.1 pair.2 (mem_pairsOf.mp hpair).2
    rcases hfails with hnone | ⟨reply, hev, hnot⟩
    · exact htoken hnone
    · rw [hanswered hev] at hnot
      exact hnot hreply

/-- Two domains, the first with two keys. -/
def crowdedManager : OpenbaoKeyManager :=
  { sampleManager with
    domainKeyMap := DomainKeyMap.addKey
      (DomainKeyMap.addKey (DomainKeyMap.addKey ∅ 0 3 1700000000) 0 4 1700000500) 1 2 1700000900 }

/-- Each of the three deletes succeeds. -/
theorem deletesExactly_iff_sample :
    DeletesExactly crowdedManager (crowdedManager.deleteAllKey.runWith sampleAnswer).1
        (crowdedManager.deleteAllKey.eval sampleAnswer) ∧
      deletedPairs (crowdedManager.deleteAllKey.runWith sampleAnswer).1 =
        [(0, 3), (0, 4), (1, 2)] :=
  ⟨(deletesExactly_iff (m := crowdedManager) rfl sampleAnswer).mpr fun _ _ _ => ⟨by decide, rfl⟩,
    by rfl⟩

/-- The vault refuses every delete. -/
def keepingAnswer : (c : Call) → c.Reply
  | .run _ _ (.delete _ _) => (2, [])
  | call => sampleAnswer call

/-- After the one delete has failed, the loop reads the end of the domains. -/
theorem deleteAllKey_runs_off :
    sampleManager.deleteAllKey.eval keepingAnswer = .halt .undefined ∧
      ¬DeletesExactly sampleManager (sampleManager.deleteAllKey.runWith keepingAnswer).1
        (sampleManager.deleteAllKey.eval keepingAnswer) := by
  have hrun : sampleManager.deleteAllKey.eval keepingAnswer = .halt .undefined := by rfl
  refine ⟨hrun, fun h => ?_⟩
  rw [hrun] at h
  exact h

end CdfCrypto.KeyManagement
