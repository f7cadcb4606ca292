import CdfCrypto.Lib.Journal
import CdfCrypto.PskManagement.Atomicity

/-!
# The store behind the callbacks

The manager keeps its PSKs in memory and hands their encrypted tokens to the
create, update and delete callbacks, for whoever registered them to store.
`externalStore_of_session` says that this store follows the memory: replaying
the callbacks that answered `OK` never adds an id that is there nor touches one
that is not, and ends with an encrypted token of the stored PSK under every id
of the id map.

Two things carry it. A callback answers before the maps change and nothing can
fail in between. And every PSK is stored under its own id, below the counter
(`Session.ids`), so a create is for a new id, and the PSK an update finds by its
content is renewed under the id it is found under.
-/

namespace CdfCrypto.PskManagement

open Lib

def CallbackCall.entry : CallbackCall → Entry Nat Bytes
  | .create pskId pskCiphertext => .create pskId pskCiphertext
  | .update pskId pskCiphertext => .update pskId pskCiphertext
  | .delete pskId => .delete pskId

/-- One call, with the journal of the callbacks that answered `OK`. -/
def journalStep (H : Host) (p : PskManager × List (Entry Nat Bytes)) (l : Call × World)
    (p' : PskManager × List (Entry Nat Bytes)) : Prop :=
  ∃ r, exec H l.2 p.1 l.1 = some (p'.1, r) ∧
    p'.2 = p.2 ++ (acknowledged l.2 r).map CallbackCall.entry

/-- The calls of a session: edits, with all three callbacks registered. -/
def InSession (_ : PskManager × List (Entry Nat Bytes)) (l : Call × World) : Prop :=
  l.1.EditsOnePsk ∧ ∀ id, l.2.registered id = true

/-- `cipher` is an encryption of the token of `psk` by one of the key managers `W`. -/
def EncryptedToken (H : Host) (W : World → Prop) (options : PsKManagerInitOptions) (psk : Psk)
    (cipher : Bytes) : Prop :=
  ∃ w, W w ∧ buildAndEncryptPskToken H w options psk = some (.ok cipher)

/-- Not inited and without PSKs: a new manager, and one its last `UnInit` cleared. -/
structure PskManager.Closed (s : PskManager) : Prop where
  uninited : s.checkInited = false
  ids : s.pskIdMap = ∅
  counter : s.curPskMaxId = 1

/-- The invariant of a session. -/
structure Session (H : Host) (W : World → Prop) (s : PskManager)
    (journal : List (Entry Nat Bytes)) : Prop where
  replays : ReplaysTo (EncryptedToken H W s.options) (fun id : Nat => s.pskIdMap[id]?) journal
  ids : ∀ (id : Nat) (psk : Psk), s.pskIdMap[id]? = some psk →
    psk.pskId = id ∧ id < s.curPskMaxId
  counter : s.curPskMaxId ≤ s.options.pskMaxCount + 1
  limit : s.options.pskMaxCount < 2 ^ 32 - 1

theorem session_init {H : Host} {W : World → Prop} {w : World} {s s' : PskManager}
    {opt : PsKManagerInitOptions} {r : Reply} (hclosed : s.Closed)
    (hinit : init w s opt = some (s', r)) (hrc : r.rc = .ok) (hmax : opt.pskMaxCount < 2 ^ 32 - 1) :
    Session H W s' [] := by
  rcases init_cases hinit with ⟨hin, -, -⟩ | ⟨-, hne, -⟩ | ⟨-, -, -, rfl⟩
  · rw [hclosed.uninited] at hin
    cases hin
  · exact absurd hrc hne
  · have hnone : ∀ id : Nat, s.pskIdMap[id]? = none := by
      intro id
      simp [hclosed.ids]
    refine ⟨?_, ?_, ?_, hmax⟩
    · rw [show (fun id : Nat => s.pskIdMap[id]?) = fun _ => none from funext hnone]
      exact replaysTo_nil _
    · intro id psk hid
      rw [hnone id] at hid
      cases hid
    · show s.curPskMaxId ≤ opt.pskMaxCount + 1
      rw [hclosed.counter]
      omega

/-! ## One step -/

/-- A failed call leaves the memory and the journal as they are. -/
theorem Session.failed {H : Host} {W : World → Prop} {w : World} {s : PskManager} {r : Reply}
    {journal : List (Entry Nat Bytes)} (h : Session H W s journal) (hno : acknowledged w r = []) :
    Session H W s (journal ++ (acknowledged w r).map CallbackCall.entry) := by
  rw [hno, List.map_nil, List.append_nil]
  exact h

/-- A call whose callback went through acknowledged it. -/
theorem acknowledged_of_triggerCallback {w : World} {r : Reply} {id : PskCallBackType}
    {call : CallbackCall} (hreg : w.registered id = true)
    (htrig : (triggerCallback w id call).1 = .ok) (hcalls : r.calls = (triggerCallback w id call).2) :
    acknowledged w r = [call] := by
  obtain ⟨hcall, hok⟩ := triggerCallback_accepted hreg htrig
  unfold acknowledged
  rw [hcalls, hcall]
  simp [hok]

/-- **A create is of a new id.** -/
theorem Session.addPsk {H : Host} {W : World → Prop} {w : World} {s : PskManager}
    {journal : List (Entry Nat Bytes)} {pskParam : PskParam} {content cipher : Bytes}
    (h : Session H W s journal) (hW : W w) (hcreated : Created H w s pskParam content cipher) :
    Session H W (s.addPsk (buildPskObj s pskParam content))
      (journal ++ [.create s.curPskMaxId cipher]) := by
  have hcount : s.curPskMaxId ≤ s.options.pskMaxCount := (validateFields_ok.mp hcreated.params).1
  have hlimit := h.limit
  have hnext : (s.curPskMaxId + 1) % 2 ^ 32 = s.curPskMaxId + 1 := Nat.mod_eq_of_lt (by omega)
  have hnew : s.pskIdMap[s.curPskMaxId]? = none := by
    refine Option.eq_none_iff_forall_ne_some.mpr fun psk hpsk => ?_
    exact Nat.lt_irrefl _ (h.ids _ psk hpsk).2
  refine ⟨?_, ?_, ?_, hlimit⟩
  · have hstored : (fun id : Nat => (s.addPsk (buildPskObj s pskParam content)).pskIdMap[id]?) =
        Function.update (fun id : Nat => s.pskIdMap[id]?) s.curPskMaxId
          (some (buildPskObj s pskParam content)) := by
      funext id
      simp only [PskManager.addPsk, buildPskObj]
      rw [getElem?_insertIfNew_of_new hnew]
      by_cases hid : s.curPskMaxId = id
      · simp [hid]
      · simp [hid, Ne.symm hid]
    rw [hstored]
    exact h.replays.create hnew ⟨w, hW, hcreated.encrypted⟩
  · intro id psk hid
    show psk.pskId = id ∧ id < (s.curPskMaxId + 1) % 2 ^ 32
    rw [hnext]
    rcases getElem?_insertIfNew_some hid with ⟨rfl, rfl⟩ | hid
    · exact ⟨rfl, Nat.lt_succ_self _⟩
    · obtain ⟨hpsk, hlt⟩ := h.ids id psk hid
      exact ⟨hpsk, by omega⟩
  · show (s.curPskMaxId + 1) % 2 ^ 32 ≤ s.options.pskMaxCount + 1
    rw [hnext]
    omega

/-- **An update is of the id its PSK is stored under.** -/
theorem Session.replacePsk {H : Host} {W : World → Prop} {w : World} {s : PskManager}
    {journal : List (Entry Nat Bytes)} {id : Nat} {prePsk psk : Psk} {cipher : Bytes}
    (h : Session H W s journal) (hW : W w) (hstored : s.pskIdMap[id]? = some prePsk)
    (hpsk : psk.pskId = prePsk.pskId)
    (henc : buildAndEncryptPskToken H w s.options psk = some (.ok cipher)) :
    Session H W (s.replacePsk prePsk psk) (journal ++ [.update prePsk.pskId cipher]) := by
  obtain ⟨rfl, hlt⟩ := h.ids id prePsk hstored
  have hlookup := PskManager.replacePsk_getElem? (s := s) hpsk
  refine ⟨?_, ?_, h.counter, h.limit⟩
  · rw [show (fun id : Nat => (s.replacePsk prePsk psk).pskIdMap[id]?) = _ from funext hlookup]
    exact h.replays.update hstored ⟨w, hW, henc⟩
  · intro id psk' hid
    rw [hlookup] at hid
    by_cases heq : id = prePsk.pskId
    · subst heq
      rw [Function.update_self] at hid
      cases hid
      exact ⟨hpsk, hlt⟩
    · rw [Function.update_of_ne heq] at hid
      exact h.ids id psk' hid

/-- **A deletion is of a stored id.** -/
theorem Session.erase {H : Host} {W : World → Prop} {s : PskManager}
    {journal : List (Entry Nat Bytes)} {id : Nat} {psk : Psk} {contents : Std.ExtTreeMap Bytes Nat compare}
    (h : Session H W s journal) (hstored : s.pskIdMap[id]? = some psk) :
    Session H W { s with pskContentMap := contents, pskIdMap := s.pskIdMap.erase id }
      (journal ++ [.delete id]) := by
  have hlookup : ∀ id' : Nat, (s.pskIdMap.erase id)[id']? =
      Function.update (fun id : Nat => s.pskIdMap[id]?) id none id' := by
    intro id'
    rw [Std.ExtTreeMap.getElem?_erase]
    by_cases hid : id = id'
    · simp [hid]
    · simp [hid, Ne.symm hid]
  refine ⟨?_, ?_, h.counter, h.limit⟩
  · show ReplaysTo _ (fun id' : Nat => (s.pskIdMap.erase id)[id']?) _
    rw [funext hlookup]
    exact h.replays.delete hstored
  · intro id' psk' hid
    exact h.ids id' psk' (getElem?_erase_some hid)

/-- **Every edit keeps the session's invariant.** -/
theorem journalStep_session {H : Host} {W : World → Prop} {s s' : PskManager}
    {journal journal' : List (Entry Nat Bytes)} {l : Call × World} (h : Session H W s journal)
    (hW : W l.2) (hcond : InSession (s, journal) l)
    (hstep : journalStep H (s, journal) l (s', journal')) : Session H W s' journal' := by
  obtain ⟨call, w⟩ := l
  obtain ⟨hedit, hreg⟩ := hcond
  obtain ⟨r, hexec, hjournal⟩ := hstep
  dsimp only at hexec hjournal hedit hreg hW
  subst hjournal
  cases call with
  | init opt => exact hedit.elim
  | unInit => exact hedit.elim
  | generatePsk pskParam =>
    rcases generatePsk_cases hexec with ⟨rfl, -, hno⟩ | ⟨content, cipher, -, hcreated, rfl, rfl⟩
    · exact h.failed hno
    · rw [acknowledged_of_triggerCallback (hreg .createPsk) hcreated.accepted rfl]
      exact h.addPsk hW hcreated
  | importPsk pskParam content =>
    rcases importPsk_cases hexec with ⟨rfl, -, hno⟩ | ⟨cipher, hcreated, rfl, rfl⟩
    · exact h.failed hno
    · rw [acknowledged_of_triggerCallback (hreg .createPsk) hcreated.accepted rfl]
      exact h.addPsk hW hcreated
  | updatePsk pskId content =>
    rcases updatePsk_cases hexec with
      ⟨rfl, -, hno⟩ | ⟨prePsk, newContent, cipher, -, hfind, -, henc, htrig, rfl, -, hcalls, -⟩
    · exact h.failed hno
    · obtain ⟨id, hstored⟩ := findPrePsk_ok hfind
      rw [acknowledged_of_triggerCallback (hreg .updatePsk) htrig hcalls]
      exact h.replacePsk hW hstored rfl henc
  | deletePsk pskId =>
    rcases deletePsk_cases hexec with ⟨rfl, -, hno⟩ | ⟨psk, -, hpsk, htrig, rfl, -, hcalls⟩
    · exact h.failed hno
    · rw [acknowledged_of_triggerCallback (hreg .deletePsk) htrig hcalls]
      exact h.erase hpsk
  | loadAllPsk pskList => exact hedit.elim

/-! ## Sessions -/

/-- **The external store follows the memory.** From a successful `Init` of a closed
manager on, after every run of edits the journal of acknowledged callbacks
replays to a store with exactly the ids of the id map, under each an encryption
by the key manager of the token of the PSK stored there. -/
theorem externalStore_of_session {H : Host} {w₀ : World} {s₀ s t : PskManager}
    {opt : PsKManagerInitOptions} {r₀ : Reply} {ls : List (Call × World)}
    {journal : List (Entry Nat Bytes)} (hclosed : s₀.Closed)
    (hinit : init w₀ s₀ opt = some (s, r₀)) (hrc : r₀.rc = .ok) (hmax : opt.pskMaxCount < 2 ^ 32 - 1)
    (hrun : Run (Guarded InSession (journalStep H)) (s, []) ls (t, journal)) :
    ReplaysTo (EncryptedToken H (fun w => ∃ l ∈ ls, l.2 = w) t.options)
      (fun id : Nat => t.pskIdMap[id]?) journal := by
  have hsession := Run.invariant
    (I := fun p : PskManager × List (Entry Nat Bytes) =>
      Session H (fun w => ∃ l ∈ ls, l.2 = w) p.1 p.2)
    (fun _ l _ h ⟨hmem, hcond, hstep⟩ => journalStep_session h ⟨l, hmem, rfl⟩ hcond hstep)
    hrun.labelled (session_init hclosed hinit hrc hmax)
  exact hsession.replays

/-- `quietWorld` with callbacks that accept everything. -/
def storingWorld : World := { quietWorld with registered := fun _ => true }

/-- A session of two edits: one PSK is imported and then updated. -/
theorem externalStore_of_session_updated :
    ∃ t journal, Run (Guarded InSession (journalStep sampleHost))
        ({ options := sampleOptions, initCount := 1 }, [])
        [(.importPsk sampleParam (List.replicate 256 5), storingWorld), (.updatePsk 1 [], storingWorld)]
        (t, journal) ∧ journal.length = 2 ∧
      ReplaysTo (EncryptedToken sampleHost
          (fun w => ∃ l ∈ [(Call.importPsk sampleParam (List.replicate 256 5), storingWorld),
            (Call.updatePsk 1 [], storingWorld)], l.2 = w) t.options)
        (fun id : Nat => t.pskIdMap[id]?) journal := by
  have hexec : ((exec sampleHost storingWorld { options := sampleOptions, initCount := 1 }
      (.importPsk sampleParam (List.replicate 256 5))).bind fun p =>
        (exec sampleHost storingWorld p.1 (.updatePsk 1 [])).map fun q =>
          (acknowledged storingWorld p.2).length + (acknowledged storingWorld q.2).length) =
      some 2 := by
    decide +kernel
  obtain ⟨⟨s₁, r₁⟩, h₁, hexec⟩ := Option.bind_eq_some_iff.mp hexec
  obtain ⟨⟨s₂, r₂⟩, h₂, hcount⟩ := Option.map_eq_some_iff.mp hexec
  let journal₁ := (acknowledged storingWorld r₁).map CallbackCall.entry
  let journal₂ := journal₁ ++ (acknowledged storingWorld r₂).map CallbackCall.entry
  have hstep₁ : journalStep sampleHost ({ options := sampleOptions, initCount := 1 }, [])
      (.importPsk sampleParam (List.replicate 256 5), storingWorld) (s₁, journal₁) := ⟨r₁, h₁, rfl⟩
  have hstep₂ : journalStep sampleHost (s₁, journal₁) (.updatePsk 1 [], storingWorld)
      (s₂, journal₂) := ⟨r₂, h₂, rfl⟩
  have hrun : Run (Guarded InSession (journalStep sampleHost))
      ({ options := sampleOptions, initCount := 1 }, [])
      [(.importPsk sampleParam (List.replicate 256 5), storingWorld), (.updatePsk 1 [], storingWorld)]
      (s₂, journal₂) :=
    Run.cons ⟨⟨trivial, fun _ => rfl⟩, hstep₁⟩
      (Run.cons ⟨⟨trivial, fun _ => rfl⟩, hstep₂⟩ (Run.nil _))
  have hclosed : ({} : PskManager).Closed := ⟨rfl, rfl, rfl⟩
  have hinit : init storingWorld {} sampleOptions =
      some ({ options := sampleOptions, initCount := 1 }, { rc := .ok }) := rfl
  have hlength : journal₂.length = 2 := by simpa [journal₂, journal₁] using hcount
  exact ⟨s₂, journal₂, hrun, hlength,
    externalStore_of_session hclosed hinit rfl (show sampleOptions.pskMaxCount < 2 ^ 32 - 1 by decide)
      hrun⟩

end CdfCrypto.PskManagement
