import CdfCrypto.PskManagement.Atomicity
import CdfCrypto.PskManagement.ContentMap
import CdfCrypto.PskManagement.WellFormed

/-!
# What an update changes

`UpdatePsk` is told a PSK by its id, by its content or by both. `denoted` says which PSK that is,
if it is one at all; while the maps are inverse, `findPrePsk` finds just that one
(`findPrePsk_eq`). Where it is none, the update ends without a change; where it succeeds, it
has renewed that PSK in both maps, the old content is gone from the content map, and nothing
else has moved (`updatePsk_changes_one`).
-/

namespace CdfCrypto.PskManagement

open Lib

/-- The PSK of a content. -/
def pskOfContent (s : PskManager) (pskContent : Bytes) : Option Psk :=
  (s.pskContentMap[pskContent]?).bind fun id => s.pskIdMap[id]?

/-- The PSK that an id and a content tell: that of both, or that of the one that tells one. -/
def denoted (s : PskManager) (pskId : Nat) (pskContent : Bytes) : Option Psk :=
  match s.pskIdMap[pskId]?, pskOfContent s pskContent with
  | some psk, some psk' => if psk = psk' then some psk else none
  | some psk, none => some psk
  | none, some psk => some psk
  | none, none => none

section Update

variable {H : Host} {w : World} {s s' : PskManager} {pskId : Nat} {pskContent : Bytes}

/-- **The PSK that is found is the one that was told.** -/
theorem findPrePsk_eq (h : MapsInverse s) (pskId : Nat) (pskContent : Bytes) :
    findPrePsk s pskId pskContent =
      match denoted s pskId pskContent with
      | some psk => .ok psk
      | none => .error .invalidParam := by
  cases hcontent : s.pskContentMap[pskContent]? with
  | none =>
    have hnone : pskOfContent s pskContent = none := by
      unfold pskOfContent
      rw [hcontent]
      rfl
    unfold findPrePsk denoted
    rw [hcontent, hnone]
    cases s.pskIdMap[pskId]? <;> rfl
  | some id =>
    obtain ⟨psk', hstored, -⟩ := h.ident_of_key _ _ hcontent
    have hsome : pskOfContent s pskContent = some psk' := by
      unfold pskOfContent
      rw [hcontent]
      exact hstored
    unfold findPrePsk denoted
    rw [hcontent, hsome]
    cases hid : s.pskIdMap[pskId]? with
    | none =>
      dsimp only
      rw [hstored]
    | some psk =>
      dsimp only
      -- stored under the same id, they are the same
      have hsame : psk.pskId = id ↔ psk = psk' := by
        have hown := (h.key_of_ident _ _ hid).2
        have hown' := (h.key_of_ident _ _ hstored).2
        constructor
        · intro heq
          rw [← hown, heq, hstored] at hid
          exact (Option.some.inj hid).symm
        · intro heq
          rw [heq, hown']
      by_cases heq : psk = psk'
      · rw [if_pos (hsame.mpr heq), if_pos heq]
      · rw [if_neg (mt hsame.mp heq), if_neg heq]

/-- A content that was generated is what the device gave. -/
theorem randomDev_of_generated {pskLength : Nat} {content : Bytes}
    (h : generatePskContent w pskLength = .ok content) : w.randomDev pskLength = some content := by
  unfold generatePskContent at h
  split at h
  · cases h
  split at h
  · cases h
  next content' hdevice =>
  split at h
  · cases h
  · obtain rfl := Except.ok.inj h
    exact hdevice

/-- The PSK after its update: its own id, names, length and days. -/
def updatedPsk (w : World) (prePsk : Psk) (newContent : Bytes) : Psk :=
  { prePsk with
    pskContent := newContent
    beginTime := w.time
    endTime := w.time + 86400 * prePsk.validDays }

/-- One PSK is renewed in both maps, and everything else stays. -/
structure ChangesOne (w : World) (s s' : PskManager) (prePsk : Psk) (newContent : Bytes) :
    Prop where
  stored : s'.pskIdMap[prePsk.pskId]? = some (updatedPsk w prePsk newContent)
  found : s'.pskContentMap[newContent]? = some prePsk.pskId
  gone : s'.pskContentMap[prePsk.pskContent]? = none
  otherIds : ∀ id : Nat, id ≠ prePsk.pskId → s'.pskIdMap[id]? = s.pskIdMap[id]?
  otherContents : ∀ content : Bytes, content ≠ prePsk.pskContent → content ≠ newContent →
    s'.pskContentMap[content]? = s.pskContentMap[content]?
  options : s'.options = s.options
  initCount : s'.initCount = s.initCount
  curPskMaxId : s'.curPskMaxId = s.curPskMaxId

/-- Within the bounds, the renewed PSK is the updated one. -/
theorem renewedPsk_eq {prePsk : Psk} (h : prePsk.validDays ≤ pskValidDaysMax) (newContent : Bytes) :
    renewedPsk w prePsk newContent = updatedPsk w prePsk newContent := by
  unfold renewedPsk updatedPsk
  rw [validSeconds_eq h]
  rfl

/-- The replacement of a stored PSK by one with a new content changes that one. -/
theorem replacePsk_changesOne (h : MapsInverse s) {prePsk : Psk} {newContent : Bytes} {id : Nat}
    (hstored : s.pskIdMap[id]? = some prePsk) (hfresh : s.pskContentMap[newContent]? = none) :
    ChangesOne w s (s.replacePsk prePsk (updatedPsk w prePsk newContent)) prePsk newContent := by
  have hmaps : ∀ id' : Nat,
      (s.replacePsk prePsk (updatedPsk w prePsk newContent)).pskIdMap[id']? =
        Function.update (fun id => s.pskIdMap[id]?) prePsk.pskId
          (some (updatedPsk w prePsk newContent)) id' :=
    PskManager.replacePsk_getElem? rfl
  have hold := (h.key_of_ident _ _ hstored).1
  have hne : newContent ≠ prePsk.pskContent := by
    intro heq
    rw [heq, hold] at hfresh
    cases hfresh
  have hnew : (s.pskContentMap.erase prePsk.pskContent)[newContent]? = none := by
    rw [Std.ExtTreeMap.getElem?_erase, hfresh]
    exact ite_self none
  have hcontents : ∀ content : Bytes,
      (s.replacePsk prePsk (updatedPsk w prePsk newContent)).pskContentMap[content]? =
        if newContent = content then some prePsk.pskId
        else if prePsk.pskContent = content then none
        else s.pskContentMap[content]? := by
    intro content
    show ((s.pskContentMap.erase prePsk.pskContent).insertIfNew newContent
      prePsk.pskId)[content]? = _
    rw [getElem?_insertIfNew_of_new hnew, Std.ExtTreeMap.getElem?_erase]
    simp only [Std.LawfulEqCmp.compare_eq_iff_eq]
  constructor
  case stored => rw [hmaps, Function.update_self]
  case found => rw [hcontents, if_pos rfl]
  case gone => rw [hcontents, if_neg hne, if_pos rfl]
  case otherIds =>
    intro id' hid'
    rw [hmaps, Function.update_of_ne hid']
  case otherContents =>
    intro content hold hnew
    rw [hcontents, if_neg (Ne.symm hnew), if_neg (Ne.symm hold)]
  all_goals rfl

/-- **An update addresses and changes one PSK.** -/
theorem updatePsk_changes_one {ls : List (Call × World)} (hrun : Run (step H) {} ls s)
    (hinited : s.checkInited = true) (hmaps : MapsInverse s)
    (hfresh : ∀ (n : Nat) (newContent : Bytes), w.randomDev n = some newContent →
      s.pskContentMap[newContent]? = none) (pskId : Nat) (pskContent : Bytes) :
    (denoted s pskId pskContent = none →
      updatePsk H w s pskId pskContent = some (s, { rc := .invalidParam })) ∧
    ∀ prePsk, denoted s pskId pskContent = some prePsk → ∀ (s' : PskManager) (r : Reply),
      updatePsk H w s pskId pskContent = some (s', r) → r.rc = .ok →
      ∃ newContent, w.randomDev prePsk.pskLength = some newContent ∧
        newContent.length = prePsk.pskLength ∧
        r.psk = some (updatedPsk w prePsk newContent) ∧ ChangesOne w s s' prePsk newContent := by
  have hfind := findPrePsk_eq hmaps pskId pskContent
  constructor
  · intro hnone
    rw [hnone] at hfind
    unfold updatePsk
    rw [if_neg (not_not.mpr hinited), hfind]
    rfl
  · intro prePsk hsome s' r hupdate hok
    rw [hsome] at hfind
    rcases updatePsk_cases hupdate with
      ⟨-, hrc, -⟩ | ⟨prePsk', newContent, cipher, -, hfound, hgen, -, -, rfl, -, -, hreply⟩
    · exact absurd hok hrc
    obtain rfl := Except.ok.inj (hfound.symm.trans hfind)
    obtain ⟨id, hstored⟩ := findPrePsk_ok hfound
    have hdays := (bounded_of_run hrun id _ hstored).validDays.2
    have hrandom := randomDev_of_generated hgen
    rw [renewedPsk_eq hdays] at hreply ⊢
    exact ⟨newContent, hrandom, generatePskContent_ok hgen, hreply,
      replacePsk_changesOne hmaps hstored (hfresh _ _ hrandom)⟩

end Update

/-! ## One PSK renewed -/

/-- Ten seconds into 1970, with a device that repeats another byte. -/
def eightsWorld : World :=
  { quietWorld with randomDev := fun n => some (List.replicate n 8), time := 10 }

/-- The PSK of the second import. -/
def secondPsk : Psk := buildPskObj oneStored sampleParam (List.replicate 256 9)

def twoStored : PskManager := oneStored.addPsk secondPsk

theorem created_sample {s : PskManager} (content : Bytes) (hinited : s.checkInited = true)
    (hparams : validatePskParams s sampleParam = .ok)
    (hlength : sampleParam.pskLength = content.length)
    (hencrypted : (buildAndEncryptPskToken sampleHost quietWorld s.options
      (buildPskObj s sampleParam content)).map (fun token => token.toOption.isSome) = some true) :
    ∃ cipher, Created sampleHost quietWorld s sampleParam content cipher := by
  obtain ⟨token, htoken, hok⟩ := Option.map_eq_some_iff.mp hencrypted
  cases token with
  | error rc => cases hok
  | ok cipher => exact ⟨cipher, hinited, hparams, hlength, htoken, rfl⟩

/-- Two imports make it. -/
theorem twoStored_run : Run (step sampleHost) {}
    [(.init sampleOptions, quietWorld), (.importPsk sampleParam (List.replicate 256 7), quietWorld),
      (.importPsk sampleParam (List.replicate 256 9), quietWorld)] twoStored := by
  obtain ⟨first, hfirst⟩ := created_sample (s := { options := sampleOptions, initCount := 1 })
    (List.replicate 256 7) rfl (validateFields_ok.mpr (by decide)) List.length_replicate.symm
    (by decide +kernel)
  obtain ⟨second, hsecond⟩ := created_sample (s := oneStored) (List.replicate 256 9) rfl
    (validateFields_ok.mpr (by decide)) List.length_replicate.symm (by decide +kernel)
  exact .cons ⟨_, rfl⟩ (.cons ⟨_, importPsk_of_created hfirst⟩
    (.cons ⟨_, importPsk_of_created hsecond⟩ (.nil _)))

theorem replicate_apart {a b : UInt8} (hne : a ≠ b) (n : Nat) :
    ¬ compare (List.replicate 256 a) (List.replicate n b) = .eq := by
  intro heq
  have hmem : a ∈ List.replicate n b := by
    rw [← Std.LawfulEqCmp.eq_of_compare heq]
    exact List.mem_replicate.mpr ⟨by decide, rfl⟩
  exact hne (List.eq_of_mem_replicate hmem)

theorem oneStored_fresh {b : UInt8} (hne : 7 ≠ b) (n : Nat) :
    oneStored.pskContentMap[List.replicate n b]? = none := by
  show (Std.ExtTreeMap.insertIfNew ∅ samplePsk.pskContent 1)[List.replicate n b]? = none
  have hother : ¬ compare samplePsk.pskContent (List.replicate n b) = .eq := replicate_apart hne n
  rw [getElem?_insertIfNew_of_new (by simp), if_neg hother]
  simp

theorem twoStored_inverse : MapsInverse twoStored := by
  have hone : MapsInverse oneStored := MapsInverse.addPsk (TwoWay.empty _ _) ⟨by simp, by simp⟩
  refine hone.addPsk ⟨?_, oneStored_fresh (by decide) 256⟩
  show (Std.ExtTreeMap.insertIfNew ∅ 1 samplePsk)[2]? = none
  rw [getElem?_insertIfNew_of_new (by simp), if_neg (by decide)]
  simp

theorem twoStored_fresh {n : Nat} {newContent : Bytes}
    (h : eightsWorld.randomDev n = some newContent) :
    twoStored.pskContentMap[newContent]? = none := by
  obtain rfl := Option.some.inj h
  have hnew : oneStored.pskContentMap[secondPsk.pskContent]? = none :=
    oneStored_fresh (by decide) 256
  have hother : ¬ compare secondPsk.pskContent (List.replicate n 8) = .eq :=
    replicate_apart (by decide) n
  show (oneStored.pskContentMap.insertIfNew secondPsk.pskContent 2)[List.replicate n 8]? = none
  rw [getElem?_insertIfNew_of_new hnew, if_neg hother]
  exact oneStored_fresh (by decide) n

/-- The first of two is updated, and the second stays. -/
theorem updatePsk_changes_one_sample : ∃ (s' : PskManager) (r : Reply) (newContent : Bytes),
    updatePsk sampleHost eightsWorld twoStored 1 [] = some (s', r) ∧
      ChangesOne eightsWorld twoStored s' samplePsk newContent ∧
      s'.pskIdMap[2]? = some secondPsk := by
  have hrc : (updatePsk sampleHost eightsWorld twoStored 1 []).map (fun p => p.2.rc) =
      some .ok := by
    decide +kernel
  obtain ⟨⟨s', r⟩, hupdate, hok⟩ := Option.map_eq_some_iff.mp hrc
  obtain ⟨newContent, -, -, -, hchanges⟩ := (updatePsk_changes_one twoStored_run rfl
    twoStored_inverse (fun _ _ => twoStored_fresh) 1 []).2 samplePsk (by decide +kernel) s' r
      hupdate hok
  refine ⟨s', r, newContent, hupdate, hchanges, ?_⟩
  rw [hchanges.otherIds 2 (by decide)]
  decide +kernel

end CdfCrypto.PskManagement
