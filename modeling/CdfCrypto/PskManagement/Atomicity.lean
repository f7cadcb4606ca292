import CdfCrypto.PskManagement.Backup

/-!
# What a failed operation leaves behind

`GeneratePsk`, `ImportPsk`, `UpdatePsk` and `DeletePsk` touch the maps and the
counter after the last thing that can fail, the callback, so a call that does
not return `OK` changes nothing (`editOnePsk_atomic`).

`LoadAllPsk` does it the other way round: it clears the store before it looks at
its first element. `loadAtomic_iff` says what saves the store then: the list is
refused before the clearing, or nothing in it is rejected, or the store already
was what the cleared and partly loaded store is (`HoldsJust`).
-/

namespace CdfCrypto.PskManagement

open Lib

/-! ## One PSK at a time -/

/-- The operations that create, replace or delete one PSK. -/
def Call.EditsOnePsk : Call → Prop
  | .generatePsk _ | .importPsk _ _ | .updatePsk _ _ | .deletePsk _ => True
  | .init _ | .unInit | .loadAllPsk _ => False

/-- **A create, an import, an update or a deletion that fails changes nothing.** -/
theorem editOnePsk_atomic {H : Host} {w : World} {s s' : PskManager} {call : Call} {r : Reply}
    (hedit : call.EditsOnePsk) (hexec : exec H w s call = some (s', r)) (hrc : r.rc ≠ .ok) :
    s'.pskIdMap = s.pskIdMap ∧ s'.pskContentMap = s.pskContentMap ∧
    s'.curPskMaxId = s.curPskMaxId ∧ s'.options = s.options ∧ s'.initCount = s.initCount := by
  suffices h : s' = s by
    rw [h]
    exact ⟨rfl, rfl, rfl, rfl, rfl⟩
  cases call with
  | init opt => exact hedit.elim
  | unInit => exact hedit.elim
  | generatePsk pskParam =>
    rcases generatePsk_cases hexec with ⟨hs, -⟩ | ⟨content, cipher, -, -, -, hr⟩
    · exact hs
    · rw [hr] at hrc
      exact absurd rfl hrc
  | importPsk pskParam content =>
    rcases importPsk_cases hexec with ⟨hs, -⟩ | ⟨cipher, -, -, hr⟩
    · exact hs
    · rw [hr] at hrc
      exact absurd rfl hrc
  | updatePsk pskId content =>
    rcases updatePsk_cases hexec with ⟨hs, -⟩ | ⟨_, _, _, -, -, -, -, -, -, hr, -⟩
    · exact hs
    · exact absurd hr hrc
  | deletePsk pskId =>
    rcases deletePsk_cases hexec with ⟨hs, -⟩ | ⟨psk, -, -, -, -, hr, -⟩
    · exact hs
    · exact absurd hr hrc
  | loadAllPsk pskList => exact hedit.elim

/-- A manager that holds `samplePsk` under id 1. -/
def oneStored : PskManager :=
  PskManager.addPsk { options := sampleOptions, initCount := 1 } samplePsk

/-- A failure after the last check: the callback refuses the deletion. -/
theorem editOnePsk_atomic_refused :
    ∃ s' r, exec sampleHost
        { quietWorld with registered := fun _ => true, trigger := fun _ => .error } oneStored
        (.deletePsk 1) = some (s', r) ∧ r.rc = .callBackExecuteFailed ∧
      s'.pskIdMap = oneStored.pskIdMap ∧ s'.pskContentMap = oneStored.pskContentMap ∧
      s'.curPskMaxId = oneStored.curPskMaxId ∧ s'.options = oneStored.options ∧
      s'.initCount = oneStored.initCount := by
  have hrc : (exec sampleHost
      { quietWorld with registered := fun _ => true, trigger := fun _ => .error } oneStored
      (.deletePsk 1)).map (fun p => p.2.rc) = some .callBackExecuteFailed := by
    decide +kernel
  obtain ⟨⟨s', r⟩, hexec, hrc⟩ := Option.map_eq_some_iff.mp hrc
  have hne : r.rc ≠ .ok := by
    rw [hrc]
    decide
  exact ⟨s', r, hexec, hrc,
    editOnePsk_atomic (show Call.EditsOnePsk (.deletePsk 1) from trivial) hexec hne⟩

/-! ## A whole list -/

/-- `LoadAllPsk` leaves the store as it was unless it returns `OK`. -/
def LoadAtomic (H : Host) (w : World) (s : PskManager) (pskList : List Bytes) : Prop :=
  ∀ s' r, loadAllPsk H w s pskList = some (s', r) → r.rc ≠ .ok →
    s'.pskIdMap = s.pskIdMap ∧ s'.pskContentMap = s.pskContentMap ∧
    s'.curPskMaxId = s.curPskMaxId ∧ s'.options = s.options

/-- No element of the list is empty, undecryptable, malformed or out of bounds. -/
def AcceptsAll (H : Host) (w : World) (pskList : List Bytes) : Prop :=
  ∀ (k : Nat) (cipher : Bytes), pskList[k]? = some cipher →
    ∃ entry, loadEntry H w k loadOptions cipher = .ok entry

/-- The PSKs made of accepted elements, numbered from `n` on. -/
def loadedPsks : Nat → List (Bytes × PskMetaData) → List Psk
  | _, [] => []
  | n, entry :: entries => loadedPsk n entry :: loadedPsks ((n + 1) % 2 ^ 32) entries

/-- The store holds the PSKs made of `entries` and nothing else, under the default
options; of two with one id or one content, the first. -/
structure HoldsJust (s : PskManager) (entries : List (Bytes × PskMetaData)) : Prop where
  ids : ∀ id : Nat, s.pskIdMap[id]? = (loadedPsks 1 entries).find? fun psk => psk.pskId = id
  contents : ∀ content : Bytes, s.pskContentMap[content]? =
    ((loadedPsks 1 entries).find? fun psk => psk.pskContent = content).map Psk.pskId
  counter : s.curPskMaxId = (1 + entries.length) % 2 ^ 32
  options : s.options = loadOptions

theorem loadedEntries_full {H : Host} {w : World} {options : PsKManagerInitOptions} :
    ∀ {pskList : List Bytes} {i : Nat},
      (∀ (k : Nat) (cipher : Bytes), pskList[k]? = some cipher →
        ∃ entry, loadEntry H w (i + k) options cipher = .ok entry) →
      (loadedEntries H w options i pskList).length = pskList.length
  | [], _, _ => rfl
  | cipher :: pskList, i, h => by
    obtain ⟨entry, hentry⟩ := h 0 cipher rfl
    rw [Nat.add_zero] at hentry
    simp only [loadedEntries, hentry, List.length_cons, Nat.add_right_cancel_iff]
    refine loadedEntries_full fun k cipher' hk => ?_
    have := h (k + 1) cipher' hk
    rwa [show i + (k + 1) = i + 1 + k from by omega] at this

theorem full_iff_acceptsAll {H : Host} {w : World} {pskList : List Bytes} :
    (loadedEntries H w loadOptions 0 pskList).length = pskList.length ↔ AcceptsAll H w pskList := by
  constructor
  · intro hfull k cipher hk
    obtain ⟨entry, -, hentry⟩ := loadEntry_of_full hfull k cipher hk
    rw [Nat.zero_add] at hentry
    exact ⟨entry, hentry⟩
  · intro hall
    refine loadedEntries_full fun k cipher hk => ?_
    rw [Nat.zero_add]
    exact hall k cipher hk

/-! ## The store a load leaves -/

/-- The loop is a fold of the two insertions over the PSKs it makes. -/
theorem foldl_addEntry : ∀ (entries : List (Bytes × PskMetaData)) (s : PskManager),
    entries.foldl PskManager.addEntry s =
      { s with
        pskIdMap := (loadedPsks s.curPskMaxId entries).foldl
          (fun m psk => m.insertIfNew psk.pskId psk) s.pskIdMap
        pskContentMap := (loadedPsks s.curPskMaxId entries).foldl
          (fun m psk => m.insertIfNew psk.pskContent psk.pskId) s.pskContentMap
        curPskMaxId := (entries.foldl PskManager.addEntry s).curPskMaxId }
  | [], _ => rfl
  | entry :: entries, s => by
    rw [List.foldl_cons, foldl_addEntry entries (s.addEntry entry)]
    rfl

theorem holdsJust_load (s : PskManager) (entries : List (Bytes × PskMetaData)) :
    HoldsJust (entries.foldl PskManager.addEntry s.clearAllData) entries where
  ids id := by
    rw [foldl_addEntry]
    dsimp only
    rw [getElem?_foldl_insertIfNew Psk.pskId fun psk => psk]
    simp [PskManager.clearAllData]
  contents content := by
    rw [foldl_addEntry]
    dsimp only
    rw [getElem?_foldl_insertIfNew Psk.pskContent Psk.pskId]
    simp [PskManager.clearAllData]
  counter := by
    have h := (LoadedIds.foldl entries (loadedIds_clearAllData s)).counter
    rwa [Nat.zero_add] at h
  options := by
    rw [foldl_addEntry]
    rfl

/-- Two stores that hold just the same are the same. -/
theorem HoldsJust.unique {s s' : PskManager} {entries : List (Bytes × PskMetaData)}
    (h : HoldsJust s entries) (h' : HoldsJust s' entries) :
    s'.pskIdMap = s.pskIdMap ∧ s'.pskContentMap = s.pskContentMap ∧
    s'.curPskMaxId = s.curPskMaxId ∧ s'.options = s.options := by
  refine ⟨?_, ?_, ?_, ?_⟩
  · apply Std.ExtTreeMap.ext_getElem?
    intro id
    rw [h.ids, h'.ids]
  · apply Std.ExtTreeMap.ext_getElem?
    intro content
    rw [h.contents, h'.contents]
  · rw [h.counter, h'.counter]
  · rw [h.options, h'.options]

/-- A store with the maps, the counter and the options of one that holds just
`entries` holds just them too. -/
theorem HoldsJust.of_eq {s s' : PskManager} {entries : List (Bytes × PskMetaData)}
    (h : HoldsJust s' entries) (hids : s'.pskIdMap = s.pskIdMap)
    (hcontents : s'.pskContentMap = s.pskContentMap) (hcounter : s'.curPskMaxId = s.curPskMaxId)
    (hoptions : s'.options = s.options) : HoldsJust s entries where
  ids id := by rw [← hids, h.ids]
  contents content := by rw [← hcontents, h.contents]
  counter := by rw [← hcounter, h.counter]
  options := by rw [← hoptions, h.options]

/-- **When a load is atomic.** On an inited manager exactly when the list is empty,
or nothing in it is rejected, or the store before the call already holds just the
elements before the first rejected one, under the default options. -/
theorem loadAtomic_iff {H : Host} {w : World} {s : PskManager} {pskList : List Bytes}
    (hin : s.checkInited = true) :
    LoadAtomic H w s pskList ↔
      pskList = [] ∨ AcceptsAll H w pskList ∨
      HoldsJust s (loadedEntries H w loadOptions 0 pskList) := by
  constructor
  · intro hatomic
    by_cases hnil : pskList = []
    · exact .inl hnil
    · by_cases hall : AcceptsAll H w pskList
      · exact .inr (.inl hall)
      · -- something is rejected, so the load fails and what it left is what was there
        obtain ⟨⟨s', r⟩, hload⟩ := loadAllPsk_returns H w s pskList
        rcases loadAllPsk_cases hload with ⟨-, -, hrefused⟩ | ⟨-, -, hs, hrc⟩
        · exact absurd ⟨hin, hnil⟩ hrefused
        · have hne : r.rc ≠ .ok := fun hok => hall (full_iff_acceptsAll.mp (hrc.mp hok))
          obtain ⟨hids, hcontents, hcounter, hoptions⟩ := hatomic s' r hload hne
          have hjust : HoldsJust s' (loadedEntries H w loadOptions 0 pskList) := by
            rw [hs]
            exact holdsJust_load s _
          exact .inr (.inr (hjust.of_eq hids hcontents hcounter hoptions))
  · intro hcond s' r hload hne
    rcases loadAllPsk_cases hload with ⟨rfl, -, -⟩ | ⟨-, hnil, hs, hrc⟩
    · exact ⟨rfl, rfl, rfl, rfl⟩
    · rcases hcond with hempty | hall | hjust
      · exact absurd hempty hnil
      · exact absurd (hrc.mpr (full_iff_acceptsAll.mpr hall)) hne
      · have hloaded : HoldsJust s' (loadedEntries H w loadOptions 0 pskList) := by
          rw [hs]
          exact holdsJust_load s _
        exact hjust.unique hloaded

/-- An empty element is rejected, and a manager under its own options does not
hold just nothing. -/
theorem loadAtomic_iff_oneStored : ¬ LoadAtomic sampleHost quietWorld oneStored [[]] := by
  rw [loadAtomic_iff rfl]
  intro h
  obtain hnil | hall | hjust := h
  · cases hnil
  · obtain ⟨entry, hentry⟩ := hall 0 [] rfl
    cases hentry
  · exact absurd hjust.options (by decide)

/-- A load of one empty element fails and takes the stored PSK with it. -/
theorem loadAllPsk_loses_store :
    ¬ ∀ (H : Host) (w : World) (ls : List (Call × World)) (s : PskManager) (pskList : List Bytes),
      Run (step H) {} ls s → s.checkInited = true → LoadAtomic H w s pskList := by
  intro hall
  have hstate : (execAll sampleHost
      [(.init sampleOptions, quietWorld),
       (.importPsk sampleParam (List.replicate 256 7), quietWorld)] {}).map
      (fun s => (s.checkInited, s.pskIdMap[1]?.map Psk.pskId)) = some (true, some 1) := by
    decide +kernel
  obtain ⟨s, hs, hstored⟩ := Option.map_eq_some_iff.mp hstate
  obtain ⟨hin, hid⟩ := Prod.mk.inj hstored
  have hatomic := hall sampleHost quietWorld _ s [[]] (run_of_execAll hs) hin
  have hload : loadAllPsk sampleHost quietWorld s [[]] =
      some (s.clearAllData, { rc := .invalidParam }) := by
    unfold loadAllPsk
    rw [if_neg (by simp [hin]), if_neg (by simp)]
    rfl
  have hkept := (hatomic _ _ hload (by simp)).1
  rw [← hkept] at hid
  simp [PskManager.clearAllData] at hid

end CdfCrypto.PskManagement
