import CdfCrypto.Lib.Run
import CdfCrypto.Lib.TwoWay
import CdfCrypto.PskManagement.Manager

/-!
# The two maps of the PSK manager

`pskIdMap_` holds the PSKs and `pskContentMap_` finds the id of a content. Every
operation keeps them in step by hand, and `MapsInverse` says what in step means:
`UpdatePsk` relies on it when it takes the PSK its two arguments agree on, and
`DeletePsk` when it erases by content.

They stay inverse as long as no content and no id is stored twice, because
`emplace` and `insert` leave an entry that is already there as it is. Nothing in
the operations makes sure of that: `ImportPsk` takes any content of the right
length, `LoadAllPsk` any list. `ContentsApart` is the condition on one call
under which it does not happen, and `mapsInverse_of_run` the invariant over
every run of such calls. `importPsk_twice` is the shortest run that breaks it.
-/

namespace CdfCrypto.PskManagement

open Lib

/-- The id map and the content map are inverse to each other, and every PSK is
stored under its own id. -/
abbrev MapsInverse (s : PskManager) : Prop :=
  TwoWay Psk.pskContent Psk.pskId s.pskIdMap s.pskContentMap

/-- Neither the content nor the id of `psk` is in the manager's maps. -/
def IsNew (s : PskManager) (psk : Psk) : Prop :=
  s.pskIdMap[psk.pskId]? = none ∧ s.pskContentMap[psk.pskContent]? = none

/-- The calls that do not store a content or an id a second time. Only calls
that get as far as storing are constrained: a create or an import whose checks,
encryption and callback succeed, an update that finds its PSK, and the accepted
elements of a load on an inited manager. -/
def ContentsApart (H : Host) (s : PskManager) (l : Call × World) : Prop :=
  match l.1 with
  | .generatePsk pskParam => ∀ content cipher,
      generatePskContent l.2 pskParam.pskLength = .ok content →
      Created H l.2 s pskParam content cipher → IsNew s (buildPskObj s pskParam content)
  | .importPsk pskParam content => ∀ cipher,
      Created H l.2 s pskParam content cipher → IsNew s (buildPskObj s pskParam content)
  | .updatePsk pskId content => ∀ prePsk newContent cipher,
      findPrePsk s pskId content = .ok prePsk →
      generatePskContent l.2 prePsk.pskLength = .ok newContent →
      buildAndEncryptPskToken H l.2 s.options (renewedPsk l.2 prePsk newContent) =
        some (.ok cipher) →
      (triggerUpdatePskCallback l.2 prePsk.pskId cipher).1 = .ok →
      s.pskContentMap[newContent]? = none ∨ newContent = prePsk.pskContent
  | .loadAllPsk pskList => s.checkInited = true →
      let entries := loadedEntries H l.2 {} 0 pskList
      (entries.map Prod.fst).Nodup ∧ entries.length ≤ 2 ^ 32
  | .init _ | .unInit | .deletePsk _ => True

/-! ## One step -/

theorem MapsInverse.addPsk {s : PskManager} (h : MapsInverse s) {psk : Psk} (hnew : IsNew s psk) :
    MapsInverse (s.addPsk psk) :=
  TwoWay.insert h hnew.1 hnew.2

/-- A renewed PSK takes the place of the stored one: its old entries are erased
first, so only another PSK's content can be in its way. -/
theorem MapsInverse.replacePsk {s : PskManager} (h : MapsInverse s) {i : Nat} {prePsk psk : Psk}
    (hstored : s.pskIdMap[i]? = some prePsk) (hid : psk.pskId = prePsk.pskId)
    (hnew : s.pskContentMap[psk.pskContent]? = none ∨ psk.pskContent = prePsk.pskContent) :
    MapsInverse (s.replacePsk prePsk psk) := by
  obtain ⟨-, rfl⟩ := h.key_of_ident i prePsk hstored
  refine TwoWay.insert (h.erase hstored) ?_ ?_
  · simp [hid]
  · rw [Std.ExtTreeMap.getElem?_erase]
    rcases hnew with hnew | hnew
    · simp [hnew]
    · simp [hnew]

/-- The maps after a load of `entries`: the contents are theirs. -/
structure Loaded (s : PskManager) (entries : List (Bytes × PskMetaData)) : Prop
    extends LoadedIds s entries.length where
  contents : ∀ (c : Bytes) (i : Nat), s.pskContentMap[c]? = some i → c ∈ entries.map Prod.fst
  inverse : MapsInverse s

/-- An element with a content of its own is new: the counter comes round to an
id in use only after `2 ^ 32` elements. -/
theorem Loaded.isNew {s : PskManager} {entries : List (Bytes × PskMetaData)}
    (h : Loaded s entries) {entry : Bytes × PskMetaData} (hnew : entry.1 ∉ entries.map Prod.fst)
    (hlen : entries.length < 2 ^ 32) : IsNew s (buildPskObjWithMetaData s entry.2 entry.1) := by
  refine ⟨Option.eq_none_iff_forall_ne_some.mpr ?_, Option.eq_none_iff_forall_ne_some.mpr ?_⟩
  · intro psk hpsk
    obtain ⟨-, k, hk, heq⟩ := h.ids _ _ hpsk
    simp only [buildPskObjWithMetaData, h.counter] at heq
    omega
  · intro i hi
    exact hnew (h.contents _ _ hi)

theorem Loaded.addEntry {s : PskManager} {entries : List (Bytes × PskMetaData)}
    (h : Loaded s entries) {entry : Bytes × PskMetaData} (hnew : entry.1 ∉ entries.map Prod.fst)
    (hlen : entries.length < 2 ^ 32) : Loaded (s.addEntry entry) (entries ++ [entry]) where
  toLoadedIds := by simpa using h.toLoadedIds.addEntry entry
  contents c i hc := by
    rw [List.map_append, List.mem_append]
    rcases getElem?_insertIfNew_some hc with ⟨rfl, -⟩ | hc
    · exact .inr (List.mem_singleton.mpr rfl)
    · exact .inl (h.contents c i hc)
  inverse := h.inverse.addPsk (h.isNew hnew hlen)

/-- A load of pairwise different contents keeps the maps inverse, element by
element. -/
theorem Loaded.foldl : ∀ {entries done : List (Bytes × PskMetaData)} {s : PskManager},
    Loaded s done → ((done ++ entries).map Prod.fst).Nodup →
    (done ++ entries).length ≤ 2 ^ 32 →
    Loaded (entries.foldl PskManager.addEntry s) (done ++ entries)
  | [], done, s, h, _, _ => by simpa using h
  | entry :: entries, done, s, h, hnodup, hlen => by
    have hnew : entry.1 ∉ done.map Prod.fst := by
      intro hmem
      rw [List.map_append, List.nodup_append] at hnodup
      exact hnodup.2.2 entry.1 hmem entry.1 (by simp) rfl
    have hlt : done.length < 2 ^ 32 := by
      simp at hlen
      omega
    have := Loaded.foldl (h.addEntry hnew hlt) (by simpa using hnodup) (by simpa using hlen)
    simpa using this

theorem loaded_clearAllData (s : PskManager) : Loaded s.clearAllData [] where
  toLoadedIds := loadedIds_clearAllData s
  contents c i hc := by simp [PskManager.clearAllData] at hc
  inverse := TwoWay.empty _ _

/-- **Every call that stores nothing twice keeps the maps inverse.** -/
theorem step_mapsInverse {H : Host} {s s' : PskManager} {l : Call × World} (h : MapsInverse s)
    (hcond : ContentsApart H s l) (hstep : step H s l s') : MapsInverse s' := by
  obtain ⟨call, w⟩ := l
  obtain ⟨r, hexec⟩ := hstep
  cases call with
  | init opt =>
    rcases init_cases hexec with ⟨-, -, rfl⟩ | ⟨-, -, _, rfl⟩ | ⟨-, -, -, rfl⟩ <;> exact h
  | unInit =>
    rcases unInit_cases hexec with ⟨-, _, rfl⟩ | ⟨-, -, rfl⟩
    · exact h
    · exact TwoWay.empty _ _
  | generatePsk pskParam =>
    rcases generatePsk_cases hexec with ⟨rfl, -⟩ | ⟨content, cipher, hgen, hcreated, rfl, -⟩
    · exact h
    · exact h.addPsk (hcond content cipher hgen hcreated)
  | importPsk pskParam content =>
    rcases importPsk_cases hexec with ⟨rfl, -⟩ | ⟨cipher, hcreated, rfl, -⟩
    · exact h
    · exact h.addPsk (hcond cipher hcreated)
  | updatePsk pskId content =>
    rcases updatePsk_cases hexec with
      ⟨rfl, -⟩ | ⟨prePsk, newContent, cipher, -, hfind, hgen, henc, htrig, rfl, -⟩
    · exact h
    · obtain ⟨i, hstored⟩ := findPrePsk_ok hfind
      exact h.replacePsk hstored rfl (hcond prePsk newContent cipher hfind hgen henc htrig)
  | deletePsk pskId =>
    rcases deletePsk_cases hexec with ⟨rfl, -⟩ | ⟨psk, -, hpsk, -, rfl, -⟩
    · exact h
    · exact h.erase hpsk
  | loadAllPsk pskList =>
    rcases loadAllPsk_cases hexec with ⟨rfl, -⟩ | ⟨hin, -, rfl, -⟩
    · exact h
    · obtain ⟨hnodup, hlen⟩ := hcond hin
      exact (Loaded.foldl (loaded_clearAllData s) hnodup hlen).inverse

/-! ## Runs -/

/-- **The invariant.** In every run from the fresh manager whose calls store no
content and no id a second time, the maps are inverse in every state. -/
theorem mapsInverse_of_run {H : Host} {ls : List (Call × World)} {s : PskManager}
    (hrun : Run (Guarded (ContentsApart H) (step H)) {} ls s) : MapsInverse s :=
  Run.invariant (fun _ _ _ h ⟨hcond, hstep⟩ => step_mapsInverse h hcond hstep) hrun (TwoWay.empty _ _)

/-- A run within the condition: one PSK is generated. -/
theorem mapsInverse_of_run_generate :
    ∃ s, Run (Guarded (ContentsApart sampleHost) (step sampleHost)) {}
        [(.init sampleOptions, quietWorld), (.generatePsk sampleParam, quietWorld)] s ∧
      s.curPskMaxId = 2 ∧ MapsInverse s := by
  have hgen : (exec sampleHost quietWorld { options := sampleOptions, initCount := 1 }
      (.generatePsk sampleParam)).map (fun p => p.1.curPskMaxId) = some 2 := by
    decide +kernel
  obtain ⟨⟨s, r⟩, hexec, hcount⟩ := Option.map_eq_some_iff.mp hgen
  have hnew : ContentsApart sampleHost { options := sampleOptions, initCount := 1 }
      (.generatePsk sampleParam, quietWorld) := fun _ _ _ _ => ⟨by simp, by simp⟩
  have hrun : Run (Guarded (ContentsApart sampleHost) (step sampleHost)) {}
      [(.init sampleOptions, quietWorld), (.generatePsk sampleParam, quietWorld)] s :=
    Run.cons ⟨trivial, _, rfl⟩ (Run.cons ⟨hnew, r, hexec⟩ (Run.nil s))
  exact ⟨s, hrun, hcount, mapsInverse_of_run hrun⟩

/-- Importing one content twice gives it a second id that the content map does
not know of. -/
theorem importPsk_twice :
    ¬ ∀ (H : Host) (ls : List (Call × World)) (s : PskManager),
      Run (step H) {} ls s → MapsInverse s := by
  intro hall
  have hstate : (execAll sampleHost
      [(.init sampleOptions, quietWorld),
       (.importPsk sampleParam (List.replicate 256 7), quietWorld),
       (.importPsk sampleParam (List.replicate 256 7), quietWorld)] {}).map
      (fun s => (s.pskIdMap[2]?.map Psk.pskContent, s.pskContentMap[(List.replicate 256 7 : Bytes)]?)) =
      some (some (List.replicate 256 7), some 1) := by
    decide +kernel
  obtain ⟨s, hs, hmaps⟩ := Option.map_eq_some_iff.mp hstate
  have hinv := hall _ _ s (run_of_execAll hs)
  obtain ⟨hid, hcontent⟩ := Prod.mk.inj hmaps
  obtain ⟨psk, hpsk, hcpsk⟩ := Option.map_eq_some_iff.mp hid
  have := (hinv.key_of_ident 2 psk hpsk).1
  rw [hcpsk, hcontent] at this
  cases this

end CdfCrypto.PskManagement
