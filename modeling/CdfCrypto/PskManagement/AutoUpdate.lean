import CdfCrypto.PskManagement.RefCount
import CdfCrypto.PskManagement.WellFormed

/-!
# Updating expired PSKs from several threads

`CheckPskValidAndAutoUpdate` holds the lock twice: once to look at the PSK, and
again inside the `UpdatePsk` it calls when the PSK has expired. Between the two
regions it holds nothing, and the second does not look again.

`RegionStep` takes each region as one step, for any number of callers and with
other `UpdatePsk` calls in between, and keeps the time. Beside it, `Renewals`
notes for every caller that is between its regions until when the last
replacement of its PSK since its first region is valid. That is all there is to
it: `replacesExpired_iff_of_run` says that the update a caller goes on to
replaces an expired PSK if and only if there was no replacement in between, or
the last one has itself run out.
-/

namespace CdfCrypto.PskManagement

open Lib

/-! ## The two regions -/

/-- The first region of `CheckPskValidAndAutoUpdate`. On `pskHasExpired` the call
goes on to its update, and has that result whatever the update does. -/
def checkRegion (w : World) (s : PskManager) (pskId : Nat) : PskManagerRC :=
  if ¬ s.checkInited then .uninited
  else
    match s.pskIdMap[pskId]? with
    | none => .pskNotExist
    | some psk => if w.time ≤ psk.endTime then .ok else .pskHasExpired

/-- The second region: `UpdatePsk(pskId, {}, psk)`. -/
def autoUpdateRegion (H : Host) (w : World) (s : PskManager) (pskId : Nat) : Outcome :=
  updatePsk H w s pskId []

theorem checkRegion_expired {w : World} {s : PskManager} {pskId : Nat}
    (h : checkRegion w s pskId = .pskHasExpired) :
    ∃ psk, s.pskIdMap[pskId]? = some psk ∧ psk.endTime < w.time := by
  unfold checkRegion at h
  split at h
  · cases h
  · split at h
    · cases h
    · next psk hpsk =>
      split at h
      · cases h
      · next htime => exact ⟨psk, hpsk, by omega⟩

/-! ## Interleavings -/

/-- The manager, and for every caller between its two regions the id it is to
update; `clock` is the time of the last step. -/
structure Callers where
  manager : PskManager
  pending : Nat → Option Nat
  clock : Int

/-- For every caller between its regions, until when the last replacement of its
PSK since its first region is valid, if there was one. -/
abbrev Renewals := Nat → Option Int

inductive Region
  | check (caller pskId : Nat)
  | autoUpdate (caller : Nat)
  | updatePsk (pskId : Nat) (pskContent : Bytes)

/-- A replacement is news for every caller that is about to update the same PSK. -/
def Renewals.record (pending : Nat → Option Nat) (r : Reply) (renewals : Renewals) : Renewals :=
  fun caller =>
    match r.rc, r.psk with
    | .ok, some psk =>
      if pending caller = some psk.pskId then some psk.endTime else renewals caller
    | _, _ => renewals caller

/-- One region, executed under the lock at a time that is not before the last. -/
inductive RegionStep (H : Host) :
    Callers × Renewals → Region × World → Callers × Renewals → Prop
  | check {c : Callers} {renewals : Renewals} {w : World} {caller pskId : Nat}
      (htime : c.clock ≤ w.time) (hidle : c.pending caller = none) :
      RegionStep H (c, renewals) (.check caller pskId, w)
        ({ c with
            pending := Function.update c.pending caller
              (if checkRegion w c.manager pskId = .pskHasExpired then some pskId else none)
            clock := w.time },
          Function.update renewals caller none)
  | autoUpdate {c : Callers} {renewals : Renewals} {w : World} {caller pskId : Nat}
      {s' : PskManager} {r : Reply} (htime : c.clock ≤ w.time)
      (hpending : c.pending caller = some pskId)
      (hupdate : autoUpdateRegion H w c.manager pskId = some (s', r)) :
      RegionStep H (c, renewals) (.autoUpdate caller, w)
        ({ manager := s', pending := Function.update c.pending caller none, clock := w.time },
          renewals.record c.pending r)
  | updatePsk {c : Callers} {renewals : Renewals} {w : World} {pskId : Nat} {content : Bytes}
      {s' : PskManager} {r : Reply} (htime : c.clock ≤ w.time)
      (hupdate : updatePsk H w c.manager pskId content = some (s', r)) :
      RegionStep H (c, renewals) (.updatePsk pskId content, w)
        ({ c with manager := s', clock := w.time }, renewals.record c.pending r)

/-- A caller that finds its PSK expired goes on. -/
theorem RegionStep.expired {H : Host} {c : Callers} {renewals : Renewals} {w : World}
    {caller pskId : Nat} (htime : c.clock ≤ w.time) (hidle : c.pending caller = none)
    (hexpired : checkRegion w c.manager pskId = .pskHasExpired) :
    RegionStep H (c, renewals) (.check caller pskId, w)
      ({ c with pending := Function.update c.pending caller (some pskId), clock := w.time },
        Function.update renewals caller none) := by
  have hstep : RegionStep H (c, renewals) (.check caller pskId, w) _ :=
    RegionStep.check htime hidle
  rwa [if_pos hexpired] at hstep

/-- No caller is between its regions. -/
def Callers.start (s : PskManager) (clock : Int) : Callers × Renewals :=
  ({ manager := s, pending := fun _ => none, clock }, fun _ => none)

/-! ## What an automatic update replaces -/

/-- An update of `prePsk` that goes through: what it drew and encrypted. -/
structure Renewed (H : Host) (w : World) (s : PskManager) (pskId : Nat) (content : Bytes)
    (prePsk : Psk) (newContent cipher : Bytes) : Prop where
  inited : s.checkInited = true
  found : findPrePsk s pskId content = .ok prePsk
  drawn : generatePskContent w prePsk.pskLength = .ok newContent
  encrypted : buildAndEncryptPskToken H w s.options (renewedPsk w prePsk newContent) =
    some (.ok cipher)
  accepted : (triggerUpdatePskCallback w prePsk.pskId cipher).1 = .ok

/-- If this step replaces the PSK of a caller between its regions, the PSK stored
under its id has expired. -/
def ReplacesExpired (H : Host) (c : Callers) (l : Region × World) : Prop :=
  match l.1 with
  | .autoUpdate caller => ∀ pskId s' r, c.pending caller = some pskId →
      autoUpdateRegion H l.2 c.manager pskId = some (s', r) → r.rc = .ok →
      ∃ psk, c.manager.pskIdMap[pskId]? = some psk ∧ psk.endTime < l.2.time
  | .check _ _ | .updatePsk _ _ => True

/-- If this step replaces the PSK of a caller between its regions, either nothing
replaced it since its first region or the last replacement has run out. -/
def Undisturbed (H : Host) (p : Callers × Renewals) (l : Region × World) : Prop :=
  match l.1 with
  | .autoUpdate caller => ∀ pskId prePsk newContent cipher, p.1.pending caller = some pskId →
      Renewed H l.2 p.1.manager pskId [] prePsk newContent cipher →
      ∀ validUntil, p.2 caller = some validUntil → validUntil < l.2.time
  | .check _ _ | .updatePsk _ _ => True

theorem updatePsk_of_renewed {H : Host} {w : World} {s : PskManager} {pskId : Nat}
    {content : Bytes} {prePsk : Psk} {newContent cipher : Bytes}
    (h : Renewed H w s pskId content prePsk newContent cipher) :
    ∃ s' r, updatePsk H w s pskId content = some (s', r) ∧ r.rc = .ok := by
  have haccepted := h.accepted
  unfold updatePsk
  rw [if_neg (by simp [h.inited]), h.found]
  dsimp only
  rw [h.drawn]
  dsimp only
  rw [h.encrypted]
  dsimp only
  split
  · exact ⟨_, _, rfl, rfl⟩
  · next calls hrc htrig =>
    rw [show (renewedPsk w prePsk newContent).pskId = prePsk.pskId from rfl] at htrig
    rw [htrig] at haccepted
    exact absurd haccepted hrc

theorem renewed_of_updatePsk {H : Host} {w : World} {s s' : PskManager} {pskId : Nat}
    {content : Bytes} {r : Reply} (h : updatePsk H w s pskId content = some (s', r))
    (hrc : r.rc = .ok) :
    ∃ prePsk newContent cipher, Renewed H w s pskId content prePsk newContent cipher ∧
      s' = s.replacePsk prePsk (renewedPsk w prePsk newContent) ∧
      r.psk = some (renewedPsk w prePsk newContent) := by
  rcases updatePsk_cases h with
    ⟨-, hne, -⟩ | ⟨prePsk, newContent, cipher, hin, hfind, hgen, henc, htrig, hs, -, -, hpsk⟩
  · exact absurd hrc hne
  · exact ⟨prePsk, newContent, cipher, ⟨hin, hfind, hgen, henc, htrig⟩, hs, hpsk⟩

/-! ## The invariant -/

/-- Every PSK is stored under its own id. -/
def OwnIds (s : PskManager) : Prop :=
  ∀ (id : Nat) (psk : Psk), s.pskIdMap[id]? = some psk → psk.pskId = id

/-- Every PSK is stored under its own id, and every caller between its regions is
about to update a stored PSK: one that had expired before the last step, or
the last replacement since. -/
structure Watched (c : Callers) (renewals : Renewals) : Prop where
  ids : OwnIds c.manager
  pending : ∀ caller pskId : Nat, c.pending caller = some pskId →
    ∃ psk, c.manager.pskIdMap[pskId]? = some psk ∧
      (renewals caller = none → psk.endTime < c.clock) ∧
      ∀ validUntil, renewals caller = some validUntil → psk.endTime = validUntil

theorem step_ownIds {H : Host} {s s' : PskManager} {l : Call × World} (h : OwnIds s)
    (hstep : step H s l s') : OwnIds s' :=
  step_stores (P := fun id psk => psk.pskId = id) h (fun _ => rfl) (fun _ _ => rfl)
    (fun _ _ _ _ _ _ => rfl) hstep

theorem ownIds_of_run {H : Host} {ls : List (Call × World)} {s : PskManager}
    (hrun : Run (step H) {} ls s) : OwnIds s :=
  Run.invariant (I := OwnIds) (fun _ _ _ h hstep => step_ownIds h hstep) hrun
    (stores_empty (P := fun id psk => psk.pskId = id))

theorem watched_start {s : PskManager} (h : OwnIds s) (clock : Int) :
    Watched (Callers.start s clock).1 (Callers.start s clock).2 where
  ids := h
  pending caller pskId hpending := by cases hpending

/-- Time passing. -/
theorem Watched.later {c : Callers} {renewals : Renewals} (h : Watched c renewals) {time : Int}
    (htime : c.clock ≤ time) : Watched { c with clock := time } renewals where
  ids := h.ids
  pending caller pskId hpending := by
    obtain ⟨psk, hpsk, hold, hnew⟩ := h.pending caller pskId hpending
    exact ⟨psk, hpsk, fun hnone => Int.lt_of_lt_of_le (hold hnone) htime, hnew⟩

/-- A caller that gives up, or is through. -/
theorem Watched.idle {c : Callers} {renewals : Renewals} (h : Watched c renewals) (caller : Nat) :
    Watched { c with pending := Function.update c.pending caller none } renewals where
  ids := h.ids
  pending caller' pskId hpending := by
    by_cases heq : caller' = caller
    · subst heq
      simp at hpending
    · refine h.pending caller' pskId ?_
      simpa [heq] using hpending

/-- **An update is noted by every caller it concerns**, and concerns no other. -/
theorem Watched.updatePsk {H : Host} {w : World} {c : Callers} {renewals : Renewals}
    {pskId : Nat} {content : Bytes} {s' : PskManager} {r : Reply} (h : Watched c renewals)
    (hupdate : updatePsk H w c.manager pskId content = some (s', r)) :
    Watched { c with manager := s' } (renewals.record c.pending r) := by
  by_cases hrc : r.rc = .ok
  · obtain ⟨prePsk, newContent, cipher, hrenewed, rfl, hpsk⟩ := renewed_of_updatePsk hupdate hrc
    obtain ⟨id, hstored⟩ := findPrePsk_ok hrenewed.found
    obtain rfl := h.ids id prePsk hstored
    -- the callers that are about to update this PSK see a new one
    refine ⟨Stores.replacePsk h.ids rfl rfl, fun caller pskId hpending => ?_⟩
    have hrecord : renewals.record c.pending r caller =
        if pskId = prePsk.pskId then some (renewedPsk w prePsk newContent).endTime
        else renewals caller := by
      simp only [Renewals.record, hrc, hpsk]
      rw [show c.pending caller = some pskId from hpending]
      simp [renewedPsk]
    rw [hrecord]
    dsimp only
    have hsame : (renewedPsk w prePsk newContent).pskId = prePsk.pskId := rfl
    rw [PskManager.replacePsk_getElem? hsame]
    by_cases heq : pskId = prePsk.pskId
    · -- the caller's own PSK was replaced, and its end is the one recorded
      subst heq
      rw [Function.update_self, if_pos rfl]
      exact ⟨_, rfl, by simp, by simp⟩
    · rw [Function.update_of_ne heq, if_neg heq]
      exact h.pending caller pskId hpending
  · -- a failed update changes nothing and is not recorded
    have hs : s' = c.manager := by
      rcases updatePsk_cases hupdate with ⟨hs, -⟩ | ⟨_, _, _, -, -, -, -, -, -, hok, -⟩
      · exact hs
      · exact absurd hok hrc
    have hrecord : renewals.record c.pending r = renewals := by
      funext caller
      unfold Renewals.record
      split
      · next hok _ => exact absurd hok hrc
      · rfl
    rw [hs, hrecord]
    exact h

/-- **Every region keeps the invariant.** -/
theorem regionStep_watched {H : Host} {p p' : Callers × Renewals} {l : Region × World}
    (h : Watched p.1 p.2) (hstep : RegionStep H p l p') : Watched p'.1 p'.2 := by
  cases hstep with
  | @check c renewals w caller pskId htime hidle =>
    refine ⟨h.ids, fun caller' pskId' hpending => ?_⟩
    by_cases heq : caller' = caller
    · subst heq
      dsimp only at hpending ⊢
      rw [Function.update_self] at hpending
      rw [Function.update_self]
      split at hpending
      · next hexpired =>
        cases hpending
        obtain ⟨psk, hpsk, hlt⟩ := checkRegion_expired hexpired
        exact ⟨psk, hpsk, fun _ => hlt, by simp⟩
      · cases hpending
    · dsimp only at hpending ⊢
      rw [Function.update_of_ne heq] at hpending
      rw [Function.update_of_ne heq]
      exact (h.later htime).pending caller' pskId' hpending
  | autoUpdate htime hpending hupdate => exact ((h.updatePsk hupdate).later htime).idle _
  | updatePsk htime hupdate => exact (h.updatePsk hupdate).later htime

/-! ## Runs -/

/-- **When automatic updates replace expired PSKs.** In every interleaving from a
reachable state, with a clock that does not go back: the next step replaces an
expired PSK, if it replaces one for a caller between its regions, if and only if
nothing replaced that PSK since the caller's first region or the last replacement
has run out. -/
theorem replacesExpired_iff_of_run {H : Host} {ls₀ : List (Call × World)} {s₀ : PskManager}
    {clock : Int} {ls : List (Region × World)} {p : Callers × Renewals} {l : Region × World}
    (hreach : Run (step H) {} ls₀ s₀) (hrun : Run (RegionStep H) (Callers.start s₀ clock) ls p)
    (htime : p.1.clock ≤ l.2.time) : ReplacesExpired H p.1 l ↔ Undisturbed H p l := by
  have h := Run.invariant (I := fun p : Callers × Renewals => Watched p.1 p.2)
    (fun _ _ _ h hstep => regionStep_watched h hstep) hrun
    (watched_start (ownIds_of_run hreach) clock)
  obtain ⟨region, w⟩ := l
  cases region with
  | check caller pskId => exact Iff.rfl
  | updatePsk pskId content => exact Iff.rfl
  | autoUpdate caller =>
    constructor
    · intro hexpired pskId prePsk newContent cipher hpending hrenewed validUntil huntil
      obtain ⟨s', r, hupdate, hrc⟩ := updatePsk_of_renewed hrenewed
      obtain ⟨psk, hpsk, hlt⟩ := hexpired pskId s' r hpending hupdate hrc
      obtain ⟨psk', hpsk', -, hnew⟩ := h.pending caller pskId hpending
      rw [hpsk] at hpsk'
      cases hpsk'
      rwa [← hnew validUntil huntil]
    · intro hundisturbed pskId s' r hpending hupdate hrc
      obtain ⟨prePsk, newContent, cipher, hrenewed, -, -⟩ := renewed_of_updatePsk hupdate hrc
      obtain ⟨psk, hpsk, hold, hnew⟩ := h.pending caller pskId hpending
      refine ⟨psk, hpsk, ?_⟩
      cases huntil : p.2 caller with
      | none => exact Int.lt_of_lt_of_le (hold huntil) htime
      | some validUntil =>
        rw [hnew validUntil huntil]
        exact hundisturbed pskId prePsk newContent cipher hpending hrenewed validUntil huntil

/-- `quietWorld` at a time after the validity of `samplePsk`. -/
def lateWorld : World := { quietWorld with time := 100000 }

/-- The calls that lead to one stored PSK. -/
def storingCalls : List (Call × World) :=
  [(.init sampleOptions, quietWorld), (.importPsk sampleParam (List.replicate 256 5), quietWorld)]

/-- After `storingCalls` the PSK is found expired. Its update goes through, and so
does another one after it. -/
theorem expired_after_storingCalls :
    ∃ s s' s'' r r', Run (step sampleHost) {} storingCalls s ∧
      checkRegion lateWorld s 1 = .pskHasExpired ∧
      autoUpdateRegion sampleHost lateWorld s 1 = some (s', r) ∧
      s'.pskIdMap[1]?.map Psk.endTime = some 186400 ∧
      autoUpdateRegion sampleHost lateWorld s' 1 = some (s'', r') ∧ r'.rc = .ok := by
  have hstate : (execAll sampleHost storingCalls {}).bind (fun s =>
      (autoUpdateRegion sampleHost lateWorld s 1).bind fun p =>
        (autoUpdateRegion sampleHost lateWorld p.1 1).map fun q =>
          (checkRegion lateWorld s 1, p.1.pskIdMap[1]?.map Psk.endTime, q.2.rc)) =
      some (.pskHasExpired, some 186400, .ok) := by
    decide +kernel
  obtain ⟨s, hs, hstate⟩ := Option.bind_eq_some_iff.mp hstate
  obtain ⟨⟨s', r⟩, hfirst, hstate⟩ := Option.bind_eq_some_iff.mp hstate
  obtain ⟨⟨s'', r'⟩, hsecond, hstate⟩ := Option.map_eq_some_iff.mp hstate
  simp only [Prod.mk.injEq] at hstate
  obtain ⟨hcheck, htime, hrc⟩ := hstate
  exact ⟨s, s', s'', r, r', run_of_execAll hs, hcheck, hfirst, htime, hsecond, hrc⟩

/-- A single caller: its update replaces an expired PSK. -/
theorem replacesExpired_iff_of_run_single :
    ∃ s p, Run (RegionStep sampleHost) (Callers.start s 0) [(.check 0 1, lateWorld)] p ∧
      p.1.pending 0 = some 1 ∧ ReplacesExpired sampleHost p.1 (.autoUpdate 0, lateWorld) := by
  obtain ⟨s, _, _, _, _, hreach, hcheck, -⟩ := expired_after_storingCalls
  have htime : (Callers.start s 0).1.clock ≤ lateWorld.time :=
    show (0 : Int) ≤ 100000 by decide
  have hfirst : RegionStep sampleHost (Callers.start s 0) (.check 0 1, lateWorld) _ :=
    RegionStep.expired htime rfl hcheck
  have hrun := Run.cons hfirst (Run.nil _)
  refine ⟨s, _, hrun, ?_, ?_⟩
  · dsimp only
    rw [Function.update_self]
  · refine (replacesExpired_iff_of_run (l := (.autoUpdate 0, lateWorld)) hreach hrun
      (Int.le_refl _)).mpr ?_
    intro pskId prePsk newContent cipher hpending hrenewed validUntil huntil
    dsimp only at huntil
    rw [Function.update_self] at huntil
    cases huntil

/-- Two callers that saw the same expiry: the second replaces a PSK that is valid
for another day. -/
theorem autoUpdate_replaces_valid :
    ¬ ∀ (H : Host) (ls₀ : List (Call × World)) (s₀ : PskManager) (clock : Int)
        (ls : List (Region × World)) (p : Callers × Renewals) (l : Region × World),
      Run (step H) {} ls₀ s₀ → Run (RegionStep H) (Callers.start s₀ clock) ls p →
      p.1.clock ≤ l.2.time → ReplacesExpired H p.1 l := by
  intro hall
  obtain ⟨s, s', s'', r, r', hreach, hcheck, hfirst, htime, hsecond, hrc⟩ :=
    expired_after_storingCalls
  let c₁ : Callers :=
    { manager := s, pending := Function.update (fun _ => none) 0 (some 1), clock := 100000 }
  let c₂ : Callers := { c₁ with pending := Function.update c₁.pending 1 (some 1) }
  have hidle : c₁.pending 1 = none := by simp [c₁]
  have hpending : c₂.pending 0 = some 1 := by simp [c₂, c₁]
  have hcheck₀ : RegionStep sampleHost (Callers.start s 0) (.check 0 1, lateWorld) (c₁, _) :=
    RegionStep.expired (show (0 : Int) ≤ 100000 by decide) rfl hcheck
  have hcheck₁ : ∀ renewals, RegionStep sampleHost (c₁, renewals) (.check 1 1, lateWorld) (c₂, _) :=
    fun _ => RegionStep.expired (Int.le_refl _) hidle hcheck
  have hupdate₀ : ∀ renewals, RegionStep sampleHost (c₂, renewals) (.autoUpdate 0, lateWorld) _ :=
    fun _ => RegionStep.autoUpdate (Int.le_refl _) hpending hfirst
  have hrun := Run.cons hcheck₀ (Run.cons (hcheck₁ _) (Run.cons (hupdate₀ _) (Run.nil _)))
  obtain ⟨psk, hpsk, hlt⟩ := hall sampleHost _ s 0 _ _ (.autoUpdate 1, lateWorld) hreach hrun
    (Int.le_refl _) 1 s'' r' (by simp [c₂, c₁]) hsecond hrc
  rw [show s'.pskIdMap[1]? = some psk from hpsk] at htime
  rw [Option.map_some, Option.some.injEq] at htime
  rw [htime] at hlt
  exact absurd hlt (by decide)

end CdfCrypto.PskManagement
