import CdfCrypto.Lib.Run
import CdfCrypto.PskManagement.Manager

/-!
# Ids and the quota

`curPskMaxId_` is both the next id and the count that is compared with the
limit: a create or an import takes the counter as its id while it is at most
`pskMaxCount`, and moves it on. `Audit` keeps beside a run what the manager does
not keep: the limit given to the `Init` in force, how many PSKs were created,
imported or loaded since, and which ids were issued, each with the state it was
issued in.

With the counter between 1 and that limit at every create, every id is new and
the count stays within the limit (`quotaKept_of_run`): everything stored and
everything issued lies below the counter (`Audited.below`). Two things take it
out of that range. `LoadAllPsk` first resets the options, and with them the
limit, to their defaults, and never compares the length of its list with
anything; and with a limit of `2 ^ 32 - 1` the counter wraps to 0, where the
comparison lets it start over.
-/

namespace CdfCrypto.PskManagement

open Lib

/-- What happened since the last `Init` or `LoadAllPsk`. -/
structure Audit where
  /-- `pskMaxCount` of the `Init` in force. -/
  limit : Nat := 0
  /-- The PSKs created, imported or loaded, deleted ones included. -/
  created : Nat := 0
  /-- The ids issued by creates and imports, with the state each was issued in. -/
  issued : List (Nat × PskManager) := []

/-- The audit of a create or an import in state `s` answered with `r`. -/
def Audit.issue (s : PskManager) (r : Reply) (a : Audit) : Audit :=
  match r.rc, r.psk with
  | .ok, some psk => { a with created := a.created + 1, issued := (psk.pskId, s) :: a.issued }
  | _, _ => a

/-- The audit after a call made in state `s` and answered with `r`. -/
def Audit.record (H : Host) (s : PskManager) (l : Call × World) (r : Reply) (a : Audit) : Audit :=
  match l.1 with
  | .init opt => if s.checkInited = false ∧ r.rc = .ok then { limit := opt.pskMaxCount } else a
  | .unInit => if wrapInt32 (s.initCount - 1) = 0 ∧ r.rc = .ok then {} else a
  | .generatePsk _ | .importPsk _ _ => a.issue s r
  | .loadAllPsk pskList =>
    if s.checkInited = true ∧ pskList ≠ [] then
      { a with created := (loadedEntries H l.2 {} 0 pskList).length, issued := [] }
    else a
  | .updatePsk _ _ | .deletePsk _ => a

/-- One call with its audit. -/
def auditStep (H : Host) (p : PskManager × Audit) (l : Call × World) (p' : PskManager × Audit) :
    Prop :=
  ∃ r, exec H l.2 p.1 l.1 = some (p'.1, r) ∧ p'.2 = p.2.record H p.1 l r

/-- The ids issued are pairwise different, none was in the id map when it was
issued, and the limit given to `Init` is kept. -/
structure QuotaKept (a : Audit) : Prop where
  distinct : (a.issued.map Prod.fst).Nodup
  fresh : ∀ p ∈ a.issued, p.2.pskIdMap[p.1]? = none
  quota : a.created ≤ a.limit

/-- The calls within the limit of the `Init` in force: a create or an import that
goes through finds the counter between 1 and that limit, and a load does not
bring more PSKs than it. -/
def WithinLimit (H : Host) (p : PskManager × Audit) (l : Call × World) : Prop :=
  match l.1 with
  | .generatePsk pskParam => ∀ content cipher,
      generatePskContent l.2 pskParam.pskLength = .ok content →
      Created H l.2 p.1 pskParam content cipher →
      1 ≤ p.1.curPskMaxId ∧ p.1.curPskMaxId ≤ p.2.limit
  | .importPsk pskParam content => ∀ cipher,
      Created H l.2 p.1 pskParam content cipher →
      1 ≤ p.1.curPskMaxId ∧ p.1.curPskMaxId ≤ p.2.limit
  | .loadAllPsk pskList => p.1.checkInited = true →
      (loadedEntries H l.2 {} 0 pskList).length ≤ p.2.limit
  | .init _ | .unInit | .updatePsk _ _ | .deletePsk _ => True

/-- The invariant. A counter of 0 has wrapped: it issues nothing any more, so
nothing needs to lie below it. -/
structure Audited (s : PskManager) (a : Audit) : Prop extends QuotaKept a where
  limit : a.limit < 2 ^ 32
  ids : ∀ (i : Nat) (psk : Psk), s.pskIdMap[i]? = some psk → psk.pskId = i
  below : 1 ≤ s.curPskMaxId →
    (∀ (i : Nat) (psk : Psk), s.pskIdMap[i]? = some psk → i < s.curPskMaxId) ∧
    (∀ p ∈ a.issued, p.1 < s.curPskMaxId) ∧ a.created < s.curPskMaxId

theorem audited_empty : Audited {} {} where
  distinct := List.nodup_nil
  fresh p h := by simp at h
  quota := Nat.le_refl 0
  limit := by simp
  ids i psk h := by simp at h
  below _ := ⟨fun i psk h => by simp at h, fun p h => by simp at h, by simp⟩

/-! ## One step -/

theorem Audit.issue_of_failed {s : PskManager} {r : Reply} (a : Audit) (h : r.rc ≠ .ok) :
    a.issue s r = a := by
  unfold Audit.issue
  split
  · next hrc _ => exact absurd hrc h
  · rfl

theorem Audit.record_loadAllPsk {H : Host} {w : World} {s : PskManager} {pskList : List Bytes}
    {r : Reply} {a : Audit} (hin : s.checkInited = true) (hne : pskList ≠ []) :
    a.record H s (.loadAllPsk pskList, w) r =
      { a with created := (loadedEntries H w {} 0 pskList).length, issued := [] } :=
  if_pos ⟨hin, hne⟩

/-- The part of the invariant about the state depends on its id map and counter
alone, and a map with fewer ids keeps it. -/
theorem Audited.frame {s s' : PskManager} {a : Audit} (h : Audited s a)
    (hids : ∀ (i : Nat) (psk : Psk), s'.pskIdMap[i]? = some psk →
      psk.pskId = i ∧ ∃ psk', s.pskIdMap[i]? = some psk')
    (hcounter : s'.curPskMaxId = s.curPskMaxId) : Audited s' a where
  toQuotaKept := h.toQuotaKept
  limit := h.limit
  ids i psk hi := (hids i psk hi).1
  below hpos := by
    rw [hcounter] at hpos ⊢
    obtain ⟨hstored, hissued⟩ := h.below hpos
    refine ⟨fun i psk hi => ?_, hissued⟩
    obtain ⟨-, psk', hi'⟩ := hids i psk hi
    exact hstored i psk' hi'

/-- **A create within the limit issues a new id.** -/
theorem Audited.addPsk {s : PskManager} {a : Audit} (h : Audited s a) {psk : Psk}
    (hid : psk.pskId = s.curPskMaxId) (hpos : 1 ≤ s.curPskMaxId) (hle : s.curPskMaxId ≤ a.limit) :
    Audited (s.addPsk psk)
      { a with created := a.created + 1, issued := (psk.pskId, s) :: a.issued } := by
  obtain ⟨hstored, hissued, hcreated⟩ := h.below hpos
  have hlimit := h.limit
  have hcounter : (s.addPsk psk).curPskMaxId = (s.curPskMaxId + 1) % 2 ^ 32 := rfl
  refine ⟨⟨?_, ?_, ?_⟩, hlimit, ?_, ?_⟩
  · -- every id issued is below the counter, and the new one is the counter
    refine List.nodup_cons.mpr ⟨?_, h.distinct⟩
    intro hmem
    obtain ⟨p, hp, heq⟩ := List.mem_map.mp hmem
    have := hissued p hp
    omega
  · intro p hp
    rcases List.mem_cons.mp hp with rfl | hp
    · refine Option.eq_none_iff_forall_ne_some.mpr fun psk' hpsk' => ?_
      have := hstored _ _ hpsk'
      omega
    · exact h.fresh p hp
  · dsimp only
    omega
  · intro i psk' hi
    rcases getElem?_insertIfNew_some hi with ⟨rfl, rfl⟩ | hi
    · rfl
    · exact h.ids i psk' hi
  · -- the counter has moved on, or wrapped to 0
    intro hpos'
    rw [hcounter] at hpos' ⊢
    -- it is not 0 afterwards, so it has not wrapped
    have hnext : (s.curPskMaxId + 1) % 2 ^ 32 = s.curPskMaxId + 1 := by omega
    rw [hnext]
    refine ⟨fun i psk' hi => ?_, fun p hp => ?_, by dsimp only; omega⟩
    · rcases getElem?_insertIfNew_some hi with ⟨rfl, rfl⟩ | hi
      · omega
      · have := hstored i psk' hi
        omega
    · rcases List.mem_cons.mp hp with rfl | hp
      · dsimp only
        omega
      · have := hissued p hp
        omega

/-- A load within the limit. -/
theorem audited_load {s : PskManager} {a : Audit} (hlimit : a.limit < 2 ^ 32) {n : Nat}
    (hloaded : LoadedIds s n) (hn : n ≤ a.limit) :
    Audited s { a with created := n, issued := [] } where
  distinct := List.nodup_nil
  fresh p h := by simp at h
  quota := hn
  limit := hlimit
  ids i psk hi := (hloaded.ids i psk hi).1
  below hpos := by
    have hcounter := hloaded.counter
    have hwhole : s.curPskMaxId = 1 + n := by omega
    refine ⟨fun i psk hi => ?_, fun p hp => by simp at hp, by dsimp only; omega⟩
    obtain ⟨-, k, hk, rfl⟩ := hloaded.ids i psk hi
    omega

theorem Audited.init {w : World} {s s' : PskManager} {a : Audit} {opt : PsKManagerInitOptions}
    {r : Reply} (h : Audited s a) (hexec : init w s opt = some (s', r)) (H : Host) :
    Audited s' (a.record H s (.init opt, w) r) := by
  unfold Audit.record
  rcases init_cases hexec with ⟨hin, -, rfl⟩ | ⟨-, hrc, _, rfl⟩ | ⟨hin, hrc, hvalid, rfl⟩
  · simp only [hin, Bool.true_eq_false, false_and, if_false]
    exact h.frame (fun i psk hi => ⟨h.ids i psk hi, psk, hi⟩) rfl
  · simp only [hrc, and_false, if_false]
    exact h.frame (fun i psk hi => ⟨h.ids i psk hi, psk, hi⟩) rfl
  · -- the limit in force is the new one, and nothing was issued under it
    have hlimit : opt.pskMaxCount < 2 ^ 32 := by
      have := (validateInitOptions_ok hvalid).2.2.2.2
      unfold pskMaxCountLimitMax at this
      omega
    simp only [hin, hrc, and_self, if_true]
    exact ⟨⟨List.nodup_nil, fun p hp => by simp at hp, Nat.zero_le _⟩,
      hlimit, h.ids,
      fun hpos => ⟨(h.below hpos).1, fun p hp => by simp at hp, hpos⟩⟩

theorem Audited.unInit {w : World} {s s' : PskManager} {a : Audit} {r : Reply} (h : Audited s a)
    (hexec : unInit w s = some (s', r)) (H : Host) :
    Audited s' (a.record H s (.unInit, w) r) := by
  unfold Audit.record
  rcases unInit_cases hexec with ⟨hc, _, rfl⟩ | ⟨hzero, hrc, rfl⟩
  · simp only [hc, if_false]
    exact h.frame (fun i psk hi => ⟨h.ids i psk hi, psk, hi⟩) rfl
  · -- the last owner is gone, and everything with it
    simp only [hzero, hrc, and_self, if_true]
    exact audited_empty

/-- A create or an import that failed issued nothing. -/
theorem Audited.issue_failed {s : PskManager} {a : Audit} {r : Reply} (h : Audited s a)
    (hrc : r.rc ≠ .ok) : Audited s (a.issue s r) := by
  rwa [a.issue_of_failed hrc]

/-- A renewed PSK keeps its id. -/
theorem Audited.updatePsk {H : Host} {w : World} {s s' : PskManager} {a : Audit} {pskId : Nat}
    {content : Bytes} {r : Reply} (h : Audited s a)
    (hexec : updatePsk H w s pskId content = some (s', r)) : Audited s' a := by
  rcases updatePsk_cases hexec with
    ⟨rfl, -⟩ | ⟨prePsk, newContent, cipher, -, hfind, -, -, -, rfl, -⟩
  · exact h
  · obtain ⟨i, hstored⟩ := findPrePsk_ok hfind
    refine h.frame (fun j psk hj => ?_) rfl
    rcases getElem?_insertIfNew_some hj with ⟨rfl, rfl⟩ | hj
    · refine ⟨rfl, prePsk, ?_⟩
      have := h.ids i prePsk hstored
      simpa [renewedPsk, this] using hstored
    · have hj := getElem?_erase_some hj
      exact ⟨h.ids j psk hj, psk, hj⟩

theorem Audited.deletePsk {w : World} {s s' : PskManager} {a : Audit} {pskId : Nat} {r : Reply}
    (h : Audited s a) (hexec : deletePsk w s pskId = some (s', r)) : Audited s' a := by
  rcases deletePsk_cases hexec with ⟨rfl, -⟩ | ⟨psk, -, -, -, rfl, -⟩
  · exact h
  · refine h.frame (fun j psk hj => ?_) rfl
    have hj := getElem?_erase_some hj
    exact ⟨h.ids j psk hj, psk, hj⟩

theorem Audited.loadAllPsk {H : Host} {w : World} {s s' : PskManager} {a : Audit}
    {pskList : List Bytes} {r : Reply} (h : Audited s a)
    (hcond : s.checkInited = true → (loadedEntries H w {} 0 pskList).length ≤ a.limit)
    (hexec : loadAllPsk H w s pskList = some (s', r)) :
    Audited s' (a.record H s (.loadAllPsk pskList, w) r) := by
  rcases loadAllPsk_cases hexec with ⟨rfl, -, hno⟩ | ⟨hin, hne, rfl, -⟩
  · unfold Audit.record
    simpa only [hno, if_false] using h
  · -- a load starts the count again, from what was loaded
    rw [Audit.record_loadAllPsk hin hne]
    have hloaded := LoadedIds.foldl (loadedEntries H w {} 0 pskList) (loadedIds_clearAllData s)
    rw [Nat.zero_add] at hloaded
    exact audited_load h.limit hloaded (hcond hin)

/-- **Every call within the limit keeps the invariant.** -/
theorem auditStep_audited {H : Host} {s s' : PskManager} {a a' : Audit} {l : Call × World}
    (h : Audited s a) (hcond : WithinLimit H (s, a) l) (hstep : auditStep H (s, a) l (s', a')) :
    Audited s' a' := by
  obtain ⟨call, w⟩ := l
  obtain ⟨r, hexec, hrec⟩ := hstep
  dsimp only at hexec hrec
  subst hrec
  cases call with
  | init opt => exact h.init hexec H
  | unInit => exact h.unInit hexec H
  | generatePsk pskParam =>
    rcases generatePsk_cases hexec with ⟨rfl, hrc, -⟩ | ⟨content, cipher, hgen, hcreated, rfl, rfl⟩
    · exact h.issue_failed hrc
    · obtain ⟨hpos, hle⟩ := hcond content cipher hgen hcreated
      exact h.addPsk rfl hpos hle
  | importPsk pskParam content =>
    rcases importPsk_cases hexec with ⟨rfl, hrc, -⟩ | ⟨cipher, hcreated, rfl, rfl⟩
    · exact h.issue_failed hrc
    · obtain ⟨hpos, hle⟩ := hcond cipher hcreated
      exact h.addPsk rfl hpos hle
  | updatePsk pskId content => exact h.updatePsk hexec
  | deletePsk pskId => exact h.deletePsk hexec
  | loadAllPsk pskList => exact h.loadAllPsk hcond hexec

/-! ## Runs -/

/-- **Ids and quota.** In every run from the fresh manager whose calls keep within
the limit of the `Init` in force, the ids issued since the last load are
pairwise different and were new, and no more PSKs exist than the limit. -/
theorem quotaKept_of_run {H : Host} {ls : List (Call × World)} {s : PskManager} {a : Audit}
    (hrun : Run (Guarded (WithinLimit H) (auditStep H)) ({}, {}) ls (s, a)) : QuotaKept a := by
  have hinv := Run.invariant (I := fun p : PskManager × Audit => Audited p.1 p.2)
    (fun _ _ _ h ⟨hcond, hstep⟩ => auditStep_audited h hcond hstep) hrun audited_empty
  exact hinv.toQuotaKept

/-- The manager after an `Init` with a limit of one. -/
def limitOne : PskManager :=
  { options := { sampleOptions with pskMaxCount := 1 }, initCount := 1 }

theorem auditStep_limitOne : auditStep sampleHost ({}, {}) (.init limitOne.options, quietWorld)
    (limitOne, { limit := 1 }) :=
  ⟨_, rfl, rfl⟩

/-- A run within the limit: one PSK under a limit of one. -/
theorem quotaKept_of_run_generate :
    ∃ s a, Run (Guarded (WithinLimit sampleHost) (auditStep sampleHost)) ({}, {})
        [(.init limitOne.options, quietWorld), (.generatePsk sampleParam, quietWorld)] (s, a) ∧
      s.curPskMaxId = 2 ∧ QuotaKept a := by
  have hgen : (exec sampleHost quietWorld limitOne (.generatePsk sampleParam)).map
      (fun p => p.1.curPskMaxId) = some 2 := by
    decide +kernel
  obtain ⟨⟨s, r⟩, hexec, hcount⟩ := Option.map_eq_some_iff.mp hgen
  have hwithin : WithinLimit sampleHost (limitOne, { limit := 1 })
      (.generatePsk sampleParam, quietWorld) := fun _ _ _ _ => by decide
  have hrun : Run (Guarded (WithinLimit sampleHost) (auditStep sampleHost)) ({}, {})
      [(.init limitOne.options, quietWorld), (.generatePsk sampleParam, quietWorld)] (s, _) :=
    Run.cons ⟨trivial, auditStep_limitOne⟩ (Run.cons ⟨hwithin, r, hexec, rfl⟩ (Run.nil _))
  exact ⟨s, _, hrun, hcount, quotaKept_of_run hrun⟩

/-- Two tokens of one PSK each, as `quietWorld` encrypts them. -/
def twoTokens : List Bytes :=
  [concatenatePskToken (List.replicate 256 7) sampleMetaJson,
   concatenatePskToken (List.replicate 256 8) sampleMetaJson]

/-- A load brings two PSKs under a limit of one. -/
theorem loadAllPsk_exceeds_limit :
    ¬ ∀ (H : Host) (ls : List (Call × World)) (s : PskManager) (a : Audit),
      Run (auditStep H) ({}, {}) ls (s, a) → QuotaKept a := by
  intro hall
  have hlen : (loadedEntries sampleHost quietWorld {} 0 twoTokens).length = 2 := by
    decide +kernel
  obtain ⟨⟨s, r⟩, hexec⟩ := loadAllPsk_returns sampleHost quietWorld limitOne twoTokens
  have hin : limitOne.checkInited = true := rfl
  have hne : twoTokens ≠ [] := List.cons_ne_nil _ _
  have hrecord : Audit.record sampleHost limitOne (.loadAllPsk twoTokens, quietWorld) r
      { limit := 1 } = { limit := 1, created := 2, issued := [] } := by
    rw [Audit.record_loadAllPsk hin hne, hlen]
  have hstep : auditStep sampleHost (limitOne, { limit := 1 }) (.loadAllPsk twoTokens, quietWorld)
      (s, { limit := 1, created := 2, issued := [] }) := ⟨r, hexec, hrecord.symm⟩
  have hquota := (hall _ _ _ _ (Run.cons auditStep_limitOne (Run.cons hstep (Run.nil _)))).quota
  exact absurd hquota (by decide)

end CdfCrypto.PskManagement
