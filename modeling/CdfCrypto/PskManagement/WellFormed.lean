import CdfCrypto.PskManagement.Manager

/-!
# What the stored PSKs are

Five operations put a PSK into the map. `GeneratePsk` and `ImportPsk` check its fields and
compute its end from its days; `UpdatePsk` takes a stored one and renews its content and its
times; `LoadAllPsk` takes everything as it finds it in the token. `step_stores` says what
a property of single PSKs has to be closed under for every stored PSK to have it.

The bounds of the fields are checked on every way in, so they hold on every run
(`bounded_of_run`). That the content has the length of its field, and that the end is the
begin and the days, is checked or computed on every way but the load, which compares nothing
with anything: it holds on every run whose loads bring it (`wellFormed_of_run`).
-/

namespace CdfCrypto.PskManagement

open Lib

/-- The bounds that the parameter checks apply. -/
structure Psk.Bounded (psk : Psk) : Prop where
  pskLength : validPskLength psk.pskLength = true
  issuer : pskIssuerLengthMin ≤ psk.issuer.length ∧ psk.issuer.length ≤ pskIssuerLengthMax
  subject : pskSubjectLengthMin ≤ psk.subject.length ∧ psk.subject.length ≤ pskSubjectLengthMax
  validDays : pskValidDaysMin ≤ psk.validDays ∧ psk.validDays ≤ pskValidDaysMax

/-- A PSK whose content and times are those of its fields. -/
structure Psk.WellFormed (psk : Psk) : Prop extends Psk.Bounded psk where
  content : psk.pskContent.length = psk.pskLength
  endTime : psk.endTime = psk.beginTime + 86400 * psk.validDays

/-- Every stored PSK has the property, with the id it is stored under. -/
def Stores (P : Nat → Psk → Prop) (s : PskManager) : Prop :=
  ∀ (id : Nat) (psk : Psk), s.pskIdMap[id]? = some psk → P id psk

section Stores

variable {P : Nat → Psk → Prop} {s : PskManager}

theorem stores_empty : Stores P {} := by
  intro id psk hid
  simp at hid

theorem Stores.addPsk (h : Stores P s) {psk : Psk} (hpsk : P psk.pskId psk) :
    Stores P (s.addPsk psk) := by
  intro id psk' hid
  rcases getElem?_insertIfNew_some hid with ⟨rfl, rfl⟩ | hid
  · exact hpsk
  · exact h id psk' hid

theorem Stores.replacePsk (h : Stores P s) {prePsk psk : Psk} (hid : psk.pskId = prePsk.pskId)
    (hpsk : P prePsk.pskId psk) : Stores P (s.replacePsk prePsk psk) := by
  intro id psk' hid'
  rw [PskManager.replacePsk_getElem? hid] at hid'
  by_cases heq : id = prePsk.pskId
  · subst heq
    rw [Function.update_self] at hid'
    obtain rfl := Option.some.inj hid'
    exact hpsk
  · rw [Function.update_of_ne heq] at hid'
    exact h id psk' hid'

theorem Stores.foldl_addEntry : ∀ {entries : List (Bytes × PskMetaData)} {s : PskManager},
    Stores P s →
    (∀ entry ∈ entries, ∀ s : PskManager,
      P s.curPskMaxId (buildPskObjWithMetaData s entry.2 entry.1)) →
    Stores P (entries.foldl PskManager.addEntry s)
  | [], _, h, _ => h
  | entry :: entries, s, h, hentries => by
    have hfirst : Stores P (s.addEntry entry) := h.addPsk (hentries entry List.mem_cons_self s)
    rw [List.foldl_cons]
    exact Stores.foldl_addEntry hfirst fun entry' hmem =>
      hentries entry' (List.mem_cons_of_mem _ hmem)

/-- **Every way into the map**: creation, renewal, loading. -/
theorem step_stores {H : Host} {s s' : PskManager} {l : Call × World} (h : Stores P s)
    (hcreated : ∀ {pskParam : PskParam} {content cipher : Bytes},
      Created H l.2 s pskParam content cipher → P s.curPskMaxId (buildPskObj s pskParam content))
    (hrenewed : ∀ {id : Nat} {prePsk : Psk} {newContent : Bytes}, P id prePsk →
      newContent.length = prePsk.pskLength → P prePsk.pskId (renewedPsk l.2 prePsk newContent))
    (hloaded : ∀ pskList, l.1 = .loadAllPsk pskList → s.checkInited = true →
      ∀ entry ∈ loadedEntries H l.2 {} 0 pskList, ∀ s : PskManager,
        P s.curPskMaxId (buildPskObjWithMetaData s entry.2 entry.1))
    (hstep : step H s l s') : Stores P s' := by
  obtain ⟨call, w⟩ := l
  obtain ⟨r, hexec⟩ := hstep
  cases call with
  | init opt =>
    rcases init_cases hexec with ⟨-, -, rfl⟩ | ⟨-, -, _, rfl⟩ | ⟨-, -, -, rfl⟩ <;> exact h
  | unInit =>
    rcases unInit_cases hexec with ⟨-, _, rfl⟩ | ⟨-, -, rfl⟩
    · exact h
    · exact stores_empty
  | generatePsk pskParam =>
    rcases generatePsk_cases hexec with ⟨rfl, -⟩ | ⟨content, cipher, -, hmade, rfl, -⟩
    · exact h
    · exact h.addPsk (hcreated hmade)
  | importPsk pskParam content =>
    rcases importPsk_cases hexec with ⟨rfl, -⟩ | ⟨cipher, hmade, rfl, -⟩
    · exact h
    · exact h.addPsk (hcreated hmade)
  | updatePsk pskId content =>
    rcases updatePsk_cases hexec with
      ⟨rfl, -⟩ | ⟨prePsk, newContent, _, -, hfind, hgen, -, -, rfl, -⟩
    · exact h
    · obtain ⟨id, hid⟩ := findPrePsk_ok hfind
      exact h.replacePsk rfl (hrenewed (h id prePsk hid) (generatePskContent_ok hgen))
  | deletePsk pskId =>
    rcases deletePsk_cases hexec with ⟨rfl, -⟩ | ⟨psk, -, -, -, rfl, -⟩
    · exact h
    · intro id psk' hid
      exact h id psk' (getElem?_erase_some hid)
  | loadAllPsk pskList =>
    rcases loadAllPsk_cases hexec with ⟨rfl, -⟩ | ⟨hin, -, rfl, -⟩
    · exact h
    · refine Stores.foldl_addEntry ?_ (hloaded pskList rfl hin)
      intro id psk hid
      simp [PskManager.clearAllData] at hid

end Stores

/-! ## The bounds -/

theorem bounded_of_validateFields {count : Nat} {options : PsKManagerInitOptions} {psk : Psk}
    (h : validateFields count options psk.issuer psk.subject psk.pskLength psk.validDays = .ok) :
    psk.Bounded := by
  obtain ⟨-, hissuer, hsubject, hlength, hdays⟩ := validateFields_ok.mp h
  exact ⟨hlength, hissuer, hsubject, hdays⟩

/-- An element that the load accepts has passed the checks. -/
theorem validatePskMetaData_of_loaded {H : Host} {w : World} {options : PsKManagerInitOptions} :
    ∀ {pskList : List Bytes} {i : Nat} {entry : Bytes × PskMetaData},
      entry ∈ loadedEntries H w options i pskList → validatePskMetaData options entry.2 = .ok
  | [], _, _, h => absurd h List.not_mem_nil
  | pskCiphertext :: pskList, i, entry, h => by
    unfold loadedEntries at h
    split at h
    · exact absurd h List.not_mem_nil
    next entry' hentry =>
    rcases List.mem_cons.mp h with rfl | h
    · unfold loadEntry at hentry
      split at hentry
      · cases hentry
      split at hentry
      · cases hentry
      split at hentry
      · cases hentry
      next hvalid =>
        cases hentry
        exact not_not.mp hvalid
    · exact validatePskMetaData_of_loaded h

theorem step_bounded {H : Host} {s s' : PskManager} {l : Call × World}
    (h : Stores (fun _ => Psk.Bounded) s) (hstep : step H s l s') :
    Stores (fun _ => Psk.Bounded) s' :=
  step_stores h (fun hmade => bounded_of_validateFields hmade.params)
    (fun hpre _ => ⟨hpre.pskLength, hpre.issuer, hpre.subject, hpre.validDays⟩)
    (fun _ _ _ _ hentry _ => bounded_of_validateFields (validatePskMetaData_of_loaded hentry)) hstep

/-- **The bounds hold on every run.** -/
theorem bounded_of_run {H : Host} {ls : List (Call × World)} {s : PskManager}
    (hrun : Run (step H) {} ls s) : Stores (fun _ => Psk.Bounded) s :=
  Run.invariant (I := Stores fun _ => Psk.Bounded) (fun _ _ _ h hstep => step_bounded h hstep) hrun
    stores_empty

/-! ## Content and times -/

/-- Within the bounds the product of days and seconds does not wrap. -/
theorem validSeconds_eq {validDays : Nat} (h : validDays ≤ pskValidDaysMax) :
    validSeconds validDays = 86400 * validDays := by
  unfold pskValidDaysMax at h
  unfold validSeconds dayToSecondTime
  omega

/-- The calls whose accepted tokens hold a content of the length they state, and an end that is
their begin and their days. A manager that is not inited accepts none. -/
def LoadsWellFormed (H : Host) (s : PskManager) (l : Call × World) : Prop :=
  ∀ pskList, l.1 = .loadAllPsk pskList → s.checkInited = true → ∀ entry ∈ loadedEntries H l.2 {} 0 pskList,
    entry.1.length = entry.2.pskLength ∧
      entry.2.endTime = entry.2.beginTime + 86400 * entry.2.validDays

theorem step_wellFormed {H : Host} {s s' : PskManager} {l : Call × World}
    (h : Stores (fun _ => Psk.WellFormed) s) (hcond : LoadsWellFormed H s l)
    (hstep : step H s l s') : Stores (fun _ => Psk.WellFormed) s' := by
  refine step_stores h (fun {pskParam content cipher} hmade => ?_)
    (fun {_ prePsk newContent} hpre hlength => ?_) (fun pskList hcall hin entry hentry s => ?_) hstep
  · have hbounded : (buildPskObj s pskParam content).Bounded :=
      bounded_of_validateFields hmade.params
    refine { hbounded with content := hmade.length.symm, endTime := ?_ }
    have hseconds := validSeconds_eq hbounded.validDays.2
    exact congrArg (fun n : Nat => pskParam.beginTime + (n : Int)) hseconds
  · refine ⟨⟨hpre.pskLength, hpre.issuer, hpre.subject, hpre.validDays⟩, hlength, ?_⟩
    have hseconds := validSeconds_eq hpre.validDays.2
    exact congrArg (fun n : Nat => l.2.time + (n : Int)) hseconds
  · obtain ⟨hlength, hend⟩ := hcond pskList hcall hin entry hentry
    have hbounded : (buildPskObjWithMetaData s entry.2 entry.1).Bounded :=
      bounded_of_validateFields (validatePskMetaData_of_loaded hentry)
    exact { hbounded with content := hlength, endTime := hend }

/-- **The invariant.** In every run from the fresh manager whose loads bring well-formed PSKs,
every stored PSK is well formed. -/
theorem wellFormed_of_run {H : Host} {ls : List (Call × World)} {s : PskManager}
    (hrun : Run (Guarded (LoadsWellFormed H) (step H)) {} ls s) :
    Stores (fun _ => Psk.WellFormed) s :=
  Run.invariant (I := Stores fun _ => Psk.WellFormed)
    (fun _ _ _ h ⟨hcond, hstep⟩ => step_wellFormed h hcond hstep) hrun stores_empty

/-- A token of one well-formed PSK, as `quietWorld` encrypts it. -/
def soundToken : Bytes := concatenatePskToken (List.replicate 256 9) sampleMetaJson

theorem loadsWellFormed_soundToken (s : PskManager) :
    LoadsWellFormed sampleHost s (.loadAllPsk [soundToken], quietWorld) := by
  intro pskList hcall _
  obtain rfl := Call.loadAllPsk.inj hcall
  decide +kernel

/-- A run within the condition: a PSK is loaded and another one generated. -/
theorem wellFormed_of_run_generate : ∃ (s : PskManager) (loaded generated : Psk),
    Run (Guarded (LoadsWellFormed sampleHost) (step sampleHost)) {}
      [(.init sampleOptions, quietWorld), (.loadAllPsk [soundToken], quietWorld),
        (.generatePsk sampleParam, quietWorld)] s ∧
    s.pskIdMap[1]? = some loaded ∧ loaded.WellFormed ∧
    s.pskIdMap[2]? = some generated ∧ generated.WellFormed := by
  have hstate : (execAll sampleHost
      [(.init sampleOptions, quietWorld), (.loadAllPsk [soundToken], quietWorld),
        (.generatePsk sampleParam, quietWorld)] {}).map
      (fun s => (s.pskIdMap[1]?.isSome, s.pskIdMap[2]?.isSome)) = some (true, true) := by
    decide +kernel
  obtain ⟨s, hs, hboth⟩ := Option.map_eq_some_iff.mp hstate
  obtain ⟨hone, htwo⟩ := Prod.mk.inj hboth
  obtain ⟨loaded, hloaded⟩ := Option.isSome_iff_exists.mp hone
  obtain ⟨generated, hgenerated⟩ := Option.isSome_iff_exists.mp htwo
  have hrun : Run (Guarded (LoadsWellFormed sampleHost) (step sampleHost)) {}
      [(.init sampleOptions, quietWorld), (.loadAllPsk [soundToken], quietWorld),
        (.generatePsk sampleParam, quietWorld)] s := by
    refine (run_of_execAll hs).guarded fun pre l post t t' heq _ _ _ => ?_
    have hl : l ∈ [(Call.init sampleOptions, quietWorld), (.loadAllPsk [soundToken], quietWorld),
        (.generatePsk sampleParam, quietWorld)] := heq ▸ by simp
    simp only [List.mem_cons, List.not_mem_nil, or_false] at hl
    obtain rfl | rfl | rfl := hl
    · exact fun _ h => Call.noConfusion h
    · exact loadsWellFormed_soundToken t
    · exact fun _ h => Call.noConfusion h
  have hall := wellFormed_of_run hrun
  exact ⟨s, loaded, generated, hrun, hloaded, hall 1 loaded hloaded, hgenerated,
    hall 2 generated hgenerated⟩

/-- **A token whose content is three bytes** is loaded as a PSK of 256. -/
theorem loadAllPsk_short_content : ¬ ∀ (H : Host) (ls : List (Call × World)) (s : PskManager),
    Run (step H) {} ls s → Stores (fun _ => Psk.WellFormed) s := by
  intro hall
  have hstate : (execAll sampleHost
      [(.init sampleOptions, quietWorld),
       (.loadAllPsk [concatenatePskToken [1, 2, 3] sampleMetaJson], quietWorld)] {}).map
      (fun s => s.pskIdMap[1]?.map fun psk => (psk.pskContent.length, psk.pskLength)) =
      some (some (3, 256)) := by
    decide +kernel
  obtain ⟨s, hs, hmap⟩ := Option.map_eq_some_iff.mp hstate
  obtain ⟨psk, hpsk, hlengths⟩ := Option.map_eq_some_iff.mp hmap
  have hcontent := (hall _ _ s (run_of_execAll hs) 1 psk hpsk).content
  obtain ⟨hthree, hlength⟩ := Prod.mk.inj hlengths
  rw [hthree, hlength] at hcontent
  cases hcontent

end CdfCrypto.PskManagement
