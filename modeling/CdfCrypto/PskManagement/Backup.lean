import CdfCrypto.PskManagement.Manager

/-!
# Backup and restore

A create callback receives the encrypted token of every PSK, and `LoadAllPsk`
is meant to bring the PSKs back from a list of them. `Backup` is a run of
successful creates and imports with the ciphertexts their callbacks received;
`Restores` says that loading those ciphertexts gives every PSK back, under the
ids 1, 2, ... in list order.

The token itself survives (`splitPskToken_concatenatePskToken`); what stands
between backup and restore is everything around it. `LoadAllPsk` clears the
manager's data before it decrypts, and the options go with it: it always
decrypts with the default key manager type, algorithm and domain, and compares
the ids with the default limit. The metadata passes through C strings and
through local wall-clock time. `Restorable` collects these conditions, and
`restores_iff` says they are exactly what is needed.

The key manager and the JSON library are taken at their word: `KeyManagerKeeps`
and `DocumentsSurvive`.
-/

namespace CdfCrypto.PskManagement

open Lib

/-- The options `LoadAllPsk` decrypts and validates with. -/
def loadOptions : PsKManagerInitOptions := {}

/-! ## A run of creates -/

/-- Successful creates and imports from `s`, each with its create callback
registered: the PSKs made and the ciphertexts handed to the callback. `W` is
what is known of the environment of each call. -/
inductive Backup (H : Host) (W : World → Prop) : PskManager → List (Psk × Bytes) → Prop
  | nil (s : PskManager) : Backup H W s []
  | generate {s s' : PskManager} {w : World} {pskParam : PskParam} {psk : Psk} {cipher : Bytes}
      {made : List (Psk × Bytes)} (hw : W w)
      (hcall : generatePsk H w s pskParam =
        some (s', { rc := .ok, psk := some psk, calls := [.create psk.pskId cipher] }))
      (hrest : Backup H W s' made) : Backup H W s ((psk, cipher) :: made)
  | import {s s' : PskManager} {w : World} {pskParam : PskParam} {content : Bytes} {psk : Psk}
      {cipher : Bytes} {made : List (Psk × Bytes)} (hw : W w)
      (hcall : importPsk H w s pskParam content =
        some (s', { rc := .ok, psk := some psk, calls := [.create psk.pskId cipher] }))
      (hrest : Backup H W s' made) : Backup H W s ((psk, cipher) :: made)

/-- What the load's environment owes the backup's: the key manager still decrypts
what it encrypted, under the type, the algorithm and the domain it was encrypted
with and under no others, and a ciphertext is not empty. -/
structure KeyManagerKeeps (options : PsKManagerInitOptions) (w' w : World) : Prop where
  roundTrip : ∀ (i : Nat) (token cipher : Bytes),
    w.encrypt options.keyManagerType options.algType token options.domainId = (.ok, cipher) →
    w'.decrypt i options.keyManagerType options.algType cipher options.domainId = (.ok, token)
  ownParams : ∀ (i : Nat) (token cipher : Bytes) (ty : KeyManagerTy) (alg : CryptoSymAlg)
    (domainId : Nat),
    w.encrypt options.keyManagerType options.algType token options.domainId = (.ok, cipher) →
    (w'.decrypt i ty alg cipher domainId).1 = .ok →
    ty = options.keyManagerType ∧ alg = options.algType ∧ domainId = options.domainId
  nonempty : ∀ token cipher : Bytes,
    w.encrypt options.keyManagerType options.algType token options.domainId = (.ok, cipher) →
    cipher ≠ []

/-- The JSON library reads back the documents of these PSKs, and writes them
without a NUL and within what base64 can carry. -/
def DocumentsSurvive (H : Host) (made : List (Psk × Bytes)) : Prop :=
  ∀ p ∈ made, ∀ beginText endText : Bytes, formatTime H p.1.beginTime = some beginText →
    formatTime H p.1.endTime = some endText →
    let document := JsonValue.object (pskMetaMembers p.1 beginText endText)
    H.json.parse (H.json.write document) = some document ∧
    (∀ b ∈ H.json.write document, b ≠ 0) ∧ (H.json.write document).length ≤ 3 * 2 ^ 30

/-- Loading the ciphertexts succeeds and leaves exactly the PSKs they were made
from, with the ids 1, 2, ... in list order and nothing else changed. -/
def Restores (H : Host) (w : World) (s : PskManager) (made : List (Psk × Bytes)) : Prop :=
  ∃ s' r, loadAllPsk H w s (made.map Prod.snd) = some (s', r) ∧ r.rc = .ok ∧
    s'.pskIdMap.toList = made.mapIdx fun i p => (i + 1, { p.1 with pskId := i + 1 })

/-- `ParseTime(FormatTime(t))` is `t`. -/
def TimeSurvives (H : Host) (t : Int) : Prop :=
  ∃ text, formatTime H t = some text ∧ parseTime H (cstr text) = some t

/-- What the restore path keeps of a PSK. -/
structure Survives (H : Host) (psk : Psk) : Prop where
  id : psk.pskId ≤ loadOptions.pskMaxCount
  issuer : ∀ b ∈ psk.issuer, b ≠ 0
  subject : ∀ b ∈ psk.subject, b ≠ 0
  beginTime : TimeSurvives H psk.beginTime
  endTime : TimeSurvives H psk.endTime

/-- The backups the restore path can bring back. -/
structure Restorable (H : Host) (options : PsKManagerInitOptions) (made : List (Psk × Bytes)) :
    Prop where
  nonempty : made ≠ []
  keyManagerType : options.keyManagerType = loadOptions.keyManagerType
  algType : options.algType = loadOptions.algType
  domainId : options.domainId = loadOptions.domainId
  psks : ∀ p ∈ made, Survives H p.1

/-! ## One PSK -/

/-- What is known of a PSK and the ciphertext the callback received. -/
structure BackedUp (H : Host) (w : World) (options : PsKManagerInitOptions) (psk : Psk)
    (cipher : Bytes) : Prop where
  encrypted : buildAndEncryptPskToken H w options psk = some (.ok cipher)
  fields : validateFields psk.pskId options psk.issuer psk.subject psk.pskLength psk.validDays = .ok
  length : psk.pskContent.length = psk.pskLength

theorem triggerCreatePskCallback_calls {w : World} {id id' : Nat} {cipher cipher' : Bytes}
    (h : (triggerCreatePskCallback w id cipher).2 = [.create id' cipher']) :
    cipher = cipher' := by
  unfold triggerCreatePskCallback triggerCallback at h
  split at h
  · cases h
  · split at h <;> · cases h; rfl

theorem Created.backedUp {H : Host} {w : World} {s : PskManager} {pskParam : PskParam}
    {content cipher : Bytes} (h : Created H w s pskParam content cipher) :
    BackedUp H w s.options (buildPskObj s pskParam content) cipher :=
  ⟨h.encrypted, h.params, h.length.symm⟩

/-- Every PSK of a backup was encrypted under the options the run started with. -/
theorem Backup.backedUp {H : Host} {W : World → Prop} {s : PskManager}
    {made : List (Psk × Bytes)} (h : Backup H W s made) :
    ∀ p ∈ made, ∃ w, W w ∧ BackedUp H w s.options p.1 p.2 := by
  induction h with
  | nil s => simp
  | @generate s s' w pskParam psk cipher made hw hcall hrest ih =>
    rcases generatePsk_cases hcall with ⟨-, hrc, -⟩ | ⟨content, cipher', -, hcreated, rfl, hr⟩
    · exact absurd rfl hrc
    · simp only [createdReply, Reply.mk.injEq, Option.some.injEq, true_and] at hr
      obtain ⟨rfl, hcalls⟩ := hr
      obtain rfl := triggerCreatePskCallback_calls hcalls.symm
      intro p hp
      rcases List.mem_cons.mp hp with rfl | hp
      · exact ⟨w, hw, hcreated.backedUp⟩
      · exact ih p hp
  | @«import» s s' w pskParam content psk cipher made hw hcall hrest ih =>
    rcases importPsk_cases hcall with ⟨-, hrc, -⟩ | ⟨cipher', hcreated, rfl, hr⟩
    · exact absurd rfl hrc
    · simp only [createdReply, Reply.mk.injEq, Option.some.injEq, true_and] at hr
      obtain ⟨rfl, hcalls⟩ := hr
      obtain rfl := triggerCreatePskCallback_calls hcalls.symm
      intro p hp
      rcases List.mem_cons.mp hp with rfl | hp
      · exact ⟨w, hw, hcreated.backedUp⟩
      · exact ih p hp

/-- The token a backed-up PSK was encrypted as. -/
theorem BackedUp.token {H : Host} {w : World} {options : PsKManagerInitOptions} {psk : Psk}
    {cipher : Bytes} (h : BackedUp H w options psk cipher) :
    ∃ beginText endText, formatTime H psk.beginTime = some beginText ∧
      formatTime H psk.endTime = some endText ∧
      w.encrypt options.keyManagerType options.algType
        (concatenatePskToken psk.pskContent
          (cstr (H.json.write (.object (pskMetaMembers psk beginText endText)))))
        options.domainId = (.ok, cipher) := by
  have henc := h.encrypted
  unfold buildAndEncryptPskToken constructPskMetaJsonString at henc
  cases hb : formatTime H psk.beginTime with
  | none => simp [hb] at henc
  | some beginText =>
    cases he : formatTime H psk.endTime with
    | none => simp [hb, he] at henc
    | some endText =>
      refine ⟨beginText, endText, rfl, rfl, ?_⟩
      simp only [hb, he, Option.bind_eq_bind, Option.bind_some, Option.some.injEq,
        encryptPskToken] at henc
      split at henc
      · next hc =>
        cases henc
        exact hc
      · cases henc

/-- What the checks at creation bound. -/
theorem BackedUp.bounds {H : Host} {w : World} {options : PsKManagerInitOptions} {psk : Psk}
    {cipher : Bytes} (h : BackedUp H w options psk cipher) :
    psk.pskId ≤ options.pskMaxCount ∧ psk.pskLength ≤ 512 ∧ psk.validDays ≤ 365 := by
  obtain ⟨hid, -, -, hlen, hdays⟩ := validateFields_ok.mp h.fields
  refine ⟨hid, ?_, hdays.2⟩
  unfold validPskLength pskLength256 pskLength384 pskLength512 at hlen
  rcases of_decide_eq_true hlen with hlen | hlen | hlen <;> omega

/-- The limit fits the counter for every accepted set of options. -/
theorem pskMaxCount_lt {w : World} {options : PsKManagerInitOptions}
    (h : validateInitOptions w options = .ok) : options.pskMaxCount < 2 ^ 32 := by
  have := (validateInitOptions_ok h).2.2.2.2
  unfold pskMaxCountLimitMax at this
  omega

/-- A ciphertext that the load accepts was made under the default parameters. -/
theorem loadEntry_params {H : Host} {w w' : World} {options : PsKManagerInitOptions} {psk : Psk}
    {cipher : Bytes} {i : Nat} {entry : Bytes × PskMetaData}
    (hb : BackedUp H w options psk cipher) (hkm : KeyManagerKeeps options w' w)
    (h : loadEntry H w' i loadOptions cipher = .ok entry) :
    options.keyManagerType = loadOptions.keyManagerType ∧
    options.algType = loadOptions.algType ∧ options.domainId = loadOptions.domainId := by
  obtain ⟨beginText, endText, -, -, henc⟩ := hb.token
  have hok : (w'.decrypt i loadOptions.keyManagerType loadOptions.algType cipher
      loadOptions.domainId).1 = .ok := by
    unfold loadEntry decryptAndParsePskToken decryptPskCiphertext at h
    split at h
    · cases h
    · split at h
      · cases h
      · next hdec =>
        split at hdec
        · cases hdec
        · next htok =>
          split at htok
          · next heq => rw [heq]
          · cases htok
  obtain ⟨hty, halg, hdom⟩ := hkm.ownParams i _ cipher _ _ _ henc hok
  exact ⟨hty.symm, halg.symm, hdom.symm⟩

/-- **What the load makes of one ciphertext.** Under the default parameters the
token and its document come back whole; what is left to chance are the two
times and the checks. -/
theorem loadEntry_backedUp {H : Host} {w w' : World} {options : PsKManagerInitOptions} {psk : Psk}
    {cipher : Bytes} (i : Nat) (hb : BackedUp H w options psk cipher)
    (hkm : KeyManagerKeeps options w' w) (hmax : options.pskMaxCount < 2 ^ 32)
    (hdoc : DocumentsSurvive H [(psk, cipher)])
    (hty : options.keyManagerType = loadOptions.keyManagerType)
    (halg : options.algType = loadOptions.algType) (hdom : options.domainId = loadOptions.domainId) :
    ∃ beginText endText, formatTime H psk.beginTime = some beginText ∧
      formatTime H psk.endTime = some endText ∧
      loadEntry H w' i loadOptions cipher =
        match parseTime H (cstr beginText), parseTime H (cstr endText) with
        | some beginTime, some endTime =>
          if validatePskMetaData loadOptions (restored psk beginTime endTime) ≠ .ok then
            .error (validatePskMetaData loadOptions (restored psk beginTime endTime))
          else .ok (psk.pskContent, restored psk beginTime endTime)
        | _, _ => .error .error := by
  obtain ⟨beginText, endText, hbegin, hend, henc⟩ := hb.token
  obtain ⟨hid, hlen, hdays⟩ := hb.bounds
  refine ⟨beginText, endText, hbegin, hend, ?_⟩
  obtain ⟨hparse, hnul, hsize⟩ := hdoc (psk, cipher) (List.mem_singleton_self _) _ _ hbegin hend
  rw [cstr_of_forall_ne hnul] at henc
  have hdec := hkm.roundTrip i _ cipher henc
  rw [hty, halg, hdom] at hdec
  have hcontent : psk.pskContent.length ≤ 3 * 2 ^ 30 := by
    rw [hb.length]
    omega
  have hsplit := splitPskToken_concatenatePskToken hcontent hsize
  have hmetaJson : parsePskMetaJsonString H
      (H.json.write (.object (pskMetaMembers psk beginText endText))) =
      (parseTime H (cstr beginText)).bind fun beginTime =>
        (parseTime H (cstr endText)).bind fun endTime => some (restored psk beginTime endTime) := by
    unfold parsePskMetaJsonString
    rw [cstr_of_forall_ne hnul, hparse]
    exact parsePskMetaMembers_pskMetaMembers (Nat.lt_of_le_of_lt hid hmax)
      (Nat.lt_of_le_of_lt hlen (by decide)) (Nat.lt_of_le_of_lt hdays (by decide))
  unfold loadEntry decryptAndParsePskToken decryptPskCiphertext
  rw [if_neg (hkm.nonempty _ _ henc), hdec]
  simp only [hsplit, hmetaJson]
  cases parseTime H (cstr beginText) with
  | none => rfl
  | some beginTime =>
    cases parseTime H (cstr endText) with
    | none => rfl
    | some endTime => rfl

/-! ## The whole list -/

/-- The PSK an accepted element is stored as under `id`. -/
def loadedPsk (id : Nat) (entry : Bytes × PskMetaData) : Psk :=
  { pskId := id, issuer := entry.2.issuer, subject := entry.2.subject,
    pskLength := entry.2.pskLength, pskContent := entry.1, validDays := entry.2.validDays,
    beginTime := entry.2.beginTime, endTime := entry.2.endTime }

/-- A load numbers its elements in list order. -/
theorem toList_foldl_addEntry : ∀ (entries : List (Bytes × PskMetaData)) {s : PskManager} {n : Nat},
    LoadedIds s n → n + entries.length < 2 ^ 32 →
    (entries.foldl PskManager.addEntry s).pskIdMap.toList =
      s.pskIdMap.toList ++ entries.mapIdx fun i entry => (n + i + 1, loadedPsk (n + i + 1) entry)
  | [], _, _, _, _ => by simp
  | entry :: entries, s, n, h, hlen => by
    rw [List.length_cons] at hlen
    have hcounter : s.curPskMaxId = n + 1 := by
      rw [h.counter]
      omega
    have hlast : ∀ (i : Nat) (psk : Psk), s.pskIdMap[i]? = some psk → i < n + 1 := by
      intro i psk hi
      obtain ⟨-, k, hk, rfl⟩ := h.ids i psk hi
      omega
    have hhead : (s.addEntry entry).pskIdMap.toList =
        s.pskIdMap.toList ++ [(n + 1, loadedPsk (n + 1) entry)] := by
      rw [← toList_insertIfNew_last hlast]
      simp only [PskManager.addEntry, PskManager.addPsk, buildPskObjWithMetaData, hcounter,
        loadedPsk]
    rw [List.foldl_cons, toList_foldl_addEntry entries (h.addEntry entry) (by omega), hhead,
      List.mapIdx_cons]
    simp [Nat.add_assoc, Nat.add_comm 1]

theorem toList_load {H : Host} {w : World} {s : PskManager} {pskList : List Bytes}
    (hlen : pskList.length < 2 ^ 32)
    (hfull : (loadedEntries H w {} 0 pskList).length ≤ pskList.length) :
    ((loadedEntries H w {} 0 pskList).foldl PskManager.addEntry s.clearAllData).pskIdMap.toList =
      (loadedEntries H w {} 0 pskList).mapIdx fun i entry => (i + 1, loadedPsk (i + 1) entry) := by
  rw [toList_foldl_addEntry _ (loadedIds_clearAllData s) (by omega)]
  simp [PskManager.clearAllData]

theorem loadedEntries_length_le (H : Host) (w : World) (options : PsKManagerInitOptions) :
    ∀ (pskList : List Bytes) (i : Nat),
      (loadedEntries H w options i pskList).length ≤ pskList.length
  | [], _ => Nat.le_refl 0
  | pskCiphertext :: pskList, i => by
    unfold loadedEntries
    split
    · simp
    · simpa using loadedEntries_length_le H w options pskList (i + 1)

/-- A load that rejects nothing made every entry of its own ciphertext. -/
theorem loadEntry_of_full {H : Host} {w : World} {options : PsKManagerInitOptions} :
    ∀ {pskList : List Bytes} {i : Nat},
      (loadedEntries H w options i pskList).length = pskList.length →
      ∀ (k : Nat) (cipher : Bytes), pskList[k]? = some cipher →
        ∃ entry, (loadedEntries H w options i pskList)[k]? = some entry ∧
          loadEntry H w (i + k) options cipher = .ok entry
  | [], _, _, k, _, h => by simp at h
  | pskCiphertext :: pskList, i, hfull, k, cipher, h => by
    cases hentry : loadEntry H w i options pskCiphertext with
    | error ret => simp [loadedEntries, hentry] at hfull
    | ok entry =>
      simp only [loadedEntries, hentry, List.length_cons, Nat.add_right_cancel_iff] at hfull ⊢
      cases k with
      | zero =>
        obtain rfl := Option.some.inj h
        exact ⟨entry, rfl, hentry⟩
      | succ k =>
        obtain ⟨entry', hk, hl⟩ := loadEntry_of_full hfull k cipher h
        exact ⟨entry', hk, by rwa [show i + (k + 1) = i + 1 + k from by omega]⟩

/-- A load whose every ciphertext is accepted. -/
theorem loadedEntries_of_forall {H : Host} {w : World} {options : PsKManagerInitOptions}
    {f : Psk × Bytes → Bytes × PskMetaData} : ∀ {made : List (Psk × Bytes)} (i : Nat),
    (∀ p ∈ made, ∀ k, loadEntry H w k options p.2 = .ok (f p)) →
    loadedEntries H w options i (made.map Prod.snd) = made.map f
  | [], _, _ => rfl
  | p :: made, i, h => by
    have ih := loadedEntries_of_forall (i + 1) fun q hq => h q (List.mem_cons_of_mem p hq)
    simp only [List.map_cons, loadedEntries, h p List.mem_cons_self i, ih]

/-! ## When a backup restores -/

/-- The metadata a restorable PSK comes back with. -/
theorem loadEntry_restorable {H : Host} {w w' : World} {options : PsKManagerInitOptions}
    {made : List (Psk × Bytes)} (hrest : Restorable H options made) {p : Psk × Bytes}
    (hp : p ∈ made) (hb : BackedUp H w options p.1 p.2) (hkm : KeyManagerKeeps options w' w)
    (hmax : options.pskMaxCount < 2 ^ 32) (hdoc : DocumentsSurvive H made) (k : Nat) :
    loadEntry H w' k loadOptions p.2 =
      .ok (p.1.pskContent, restored p.1 p.1.beginTime p.1.endTime) := by
  have hdoc' : DocumentsSurvive H [(p.1, p.2)] := by
    intro q hq
    obtain rfl := List.mem_singleton.mp hq
    exact hdoc _ hp
  obtain ⟨beginText, endText, hbegin, hend, hload⟩ := loadEntry_backedUp k hb hkm hmax hdoc'
    hrest.keyManagerType hrest.algType hrest.domainId
  obtain ⟨hid, hissuer, hsubject, ⟨text, htext, hparse⟩, ⟨text', htext', hparse'⟩⟩ :=
    hrest.psks p hp
  rw [hbegin] at htext
  rw [hend] at htext'
  obtain rfl := Option.some.inj htext
  obtain rfl := Option.some.inj htext'
  have hvalid : validatePskMetaData loadOptions
      (restored p.1 p.1.beginTime p.1.endTime) = .ok := by
    obtain ⟨-, hissuerLen, hsubjectLen, hlen, hdays⟩ := validateFields_ok.mp hb.fields
    refine validateFields_ok.mpr ⟨hid, ?_, ?_, hlen, hdays⟩
    · simpa only [restored, cstr_of_forall_ne hissuer] using hissuerLen
    · simpa only [restored, cstr_of_forall_ne hsubject] using hsubjectLen
  simp only [hload, hparse, hparse', hvalid, ne_eq, not_true_eq_false, if_false]

/-- A PSK that came back as it was is one that survives. -/
theorem survives_of_loadEntry {H : Host} {w w' : World} {options : PsKManagerInitOptions}
    {p : Psk × Bytes} {entry : Bytes × PskMetaData} {k id : Nat}
    (hb : BackedUp H w options p.1 p.2) (hkm : KeyManagerKeeps options w' w)
    (hmax : options.pskMaxCount < 2 ^ 32) (hdoc : DocumentsSurvive H [(p.1, p.2)])
    (hload : loadEntry H w' k loadOptions p.2 = .ok entry)
    (hsame : loadedPsk id entry = { p.1 with pskId := id }) : Survives H p.1 := by
  obtain ⟨hty, halg, hdom⟩ := loadEntry_params hb hkm hload
  obtain ⟨beginText, endText, hbegin, hend, heq⟩ := loadEntry_backedUp k hb hkm hmax hdoc hty halg hdom
  rw [hload] at heq
  split at heq
  · next beginTime endTime hparse hparse' =>
    split at heq
    · cases heq
    · next hvalid =>
      cases heq
      simp only [loadedPsk, restored, Psk.mk.injEq, true_and] at hsame
      obtain ⟨hissuer, hsubject, hbt, het⟩ := hsame
      subst hbt het
      obtain ⟨hid, -⟩ := validateFields_ok.mp (not_not.mp hvalid)
      exact ⟨hid, cstr_eq_self_iff.mp hissuer, cstr_eq_self_iff.mp hsubject,
        ⟨beginText, hbegin, hparse⟩, ⟨endText, hend, hparse'⟩⟩
  · cases heq

/-- A load that gives everything back made each PSK of the ciphertext it was backed
up in. -/
theorem loadEntry_of_restores {H : Host} {w' : World} {s : PskManager}
    {made : List (Psk × Bytes)} (hrestores : Restores H w' s made) (hlen : made.length < 2 ^ 32) :
    made ≠ [] ∧ ∀ p ∈ made, ∃ k id entry, loadEntry H w' k loadOptions p.2 = .ok entry ∧
      loadedPsk id entry = { p.1 with pskId := id } := by
  obtain ⟨s', r, hload, hrc, htoList⟩ := hrestores
  rcases loadAllPsk_cases hload with ⟨-, hne, -⟩ | ⟨-, hne, rfl, hfull⟩
  · exact absurd hrc hne
  have hfull := hfull.mp hrc
  rw [toList_load (by rwa [List.length_map]) (loadedEntries_length_le H w' {} _ 0)] at htoList
  refine ⟨fun hnil => hne (by rw [hnil, List.map_nil]), fun p hp => ?_⟩
  obtain ⟨k, hk⟩ := List.getElem?_of_mem hp
  obtain ⟨entry, hentry, hl⟩ := loadEntry_of_full hfull k p.2 (by simp [hk])
  -- the element in its place is the PSK
  have hat := congrArg (fun l => l[k]?) htoList
  simp only [List.getElem?_mapIdx, hentry, hk, Option.map_some, Option.some.injEq,
    Prod.mk.injEq, true_and] at hat
  exact ⟨0 + k, k + 1, entry, hl, hat⟩

/-- What a load makes of the ciphertexts of a backup that restores. -/
theorem loadedEntries_of_restorable {H : Host} {W : World → Prop} {w' : World}
    {options : PsKManagerInitOptions} {made : List (Psk × Bytes)}
    (hrest : Restorable H options made)
    (hbacked : ∀ p ∈ made, ∃ w, W w ∧ BackedUp H w options p.1 p.2)
    (hkm : ∀ w, W w → KeyManagerKeeps options w' w) (hmax : options.pskMaxCount < 2 ^ 32)
    (hdoc : DocumentsSurvive H made) :
    loadedEntries H w' {} 0 (made.map Prod.snd) =
      made.map fun p => (p.1.pskContent, restored p.1 p.1.beginTime p.1.endTime) := by
  refine loadedEntries_of_forall 0 fun p hp k => ?_
  obtain ⟨w, hw, hb⟩ := hbacked p hp
  exact loadEntry_restorable hrest hp hb (hkm w hw) hmax hdoc k

/-- **Backup and restore.** Loading the ciphertexts of a run of creates under the
same options gives every PSK back exactly when the options' type, algorithm and
domain are the defaults, no id exceeds the default limit, no issuer or subject
holds a NUL, and the times survive their text. -/
theorem restores_iff {H : Host} {W : World → Prop} {w₀ w' : World} {s₀ s : PskManager}
    {options : PsKManagerInitOptions} {made : List (Psk × Bytes)}
    (hoptions : validateInitOptions w₀ options = .ok) (hs₀ : s₀.options = options)
    (hbackup : Backup H W s₀ made) (hcount : made.length ≤ options.pskMaxCount)
    (hkm : ∀ w, W w → KeyManagerKeeps options w' w) (hdoc : DocumentsSurvive H made)
    (hinited : s.checkInited = true) (_hsame : s.options = options) :
    Restores H w' s made ↔ Restorable H options made := by
  have hmax := pskMaxCount_lt hoptions
  have hbacked := hbackup.backedUp
  rw [hs₀] at hbacked
  constructor
  · intro hrestores
    obtain ⟨hmade, hone⟩ := loadEntry_of_restores hrestores (by omega)
    have hall : ∀ p ∈ made, Survives H p.1 := by
      intro p hp
      obtain ⟨w, hw, hb⟩ := hbacked p hp
      obtain ⟨k, id, entry, hl, hsame⟩ := hone p hp
      refine survives_of_loadEntry hb (hkm w hw) hmax (fun q hq => hdoc q ?_) hl hsame
      rwa [List.mem_singleton.mp hq]
    -- the parameters are read off the first element
    obtain ⟨p, hp⟩ := List.exists_mem_of_ne_nil made hmade
    obtain ⟨w, hw, hb⟩ := hbacked p hp
    obtain ⟨k, id, entry, hl, -⟩ := hone p hp
    obtain ⟨hty, halg, hdom⟩ := loadEntry_params hb (hkm w hw) hl
    exact ⟨hmade, hty, halg, hdom, hall⟩
  · intro hrest
    have hentries := loadedEntries_of_restorable hrest hbacked hkm hmax hdoc
    have hne : made.map Prod.snd ≠ [] := by simpa using hrest.nonempty
    have hlen : (made.map Prod.snd).length < 2 ^ 32 := by
      rw [List.length_map]
      omega
    obtain ⟨⟨s', r⟩, hload⟩ := loadAllPsk_returns H w' s (made.map Prod.snd)
    rcases loadAllPsk_cases hload with ⟨-, -, hno⟩ | ⟨-, -, rfl, hfull⟩
    · exact absurd ⟨hinited, hne⟩ hno
    refine ⟨_, r, hload, hfull.mpr (by rw [hentries]; simp), ?_⟩
    rw [toList_load hlen (loadedEntries_length_le H w' {} _ 0), hentries]
    refine List.ext_getElem (by simp) fun i h₁ h₂ => ?_
    simp only [List.length_mapIdx] at h₂
    have hsurv := hrest.psks _ (List.getElem_mem h₂)
    simp only [List.getElem_mapIdx, List.getElem_map, loadedPsk, restored,
      cstr_of_forall_ne hsurv.issuer, cstr_of_forall_ne hsurv.subject]

/-! ## One backup, two sets of options -/

/-- A key manager that decrypts under the parameters of `options` only, with all
callbacks registered. -/
def keyedWorld (options : PsKManagerInitOptions) : World :=
  { quietWorld with
    encrypt := fun _ _ plaintext _ =>
      if plaintext = [] then (.invalidParam, []) else (.ok, plaintext)
    decrypt := fun _ ty alg ciphertext domainId =>
      if ty = options.keyManagerType ∧ alg = options.algType ∧ domainId = options.domainId then
        (.ok, ciphertext)
      else (.error, [])
    registered := fun _ => true }

def sampleToken : Bytes := concatenatePskToken samplePsk.pskContent sampleMetaJson

theorem keyedWorld_encrypt {options : PsKManagerInitOptions} {token cipher : Bytes}
    {ty : KeyManagerTy} {alg : CryptoSymAlg} {domainId : Nat}
    (h : (keyedWorld options).encrypt ty alg token domainId = (.ok, cipher)) :
    cipher = token ∧ token ≠ [] := by
  simp only [keyedWorld] at h
  split at h
  · cases h
  · next hne =>
    cases h
    exact ⟨rfl, hne⟩

theorem keyedWorld_keeps (options : PsKManagerInitOptions) :
    KeyManagerKeeps options (keyedWorld options) (keyedWorld options) where
  roundTrip i token cipher h := by
    obtain ⟨rfl, -⟩ := keyedWorld_encrypt h
    simp [keyedWorld]
  ownParams i token cipher ty alg domainId _ h := by
    simp only [keyedWorld] at h
    split at h
    · assumption
    · cases h
  nonempty token cipher h := by
    obtain ⟨rfl, hne⟩ := keyedWorld_encrypt h
    exact hne

theorem formatTime_sample :
    formatTime sampleHost samplePsk.beginTime = some (ascii "1970-01-01 00:00:00") ∧
    formatTime sampleHost samplePsk.endTime = some (ascii "1970-01-02 00:00:00") := by
  decide +kernel

theorem documentsSurvive_sample : DocumentsSurvive sampleHost [(samplePsk, sampleToken)] := by
  intro p hp beginText endText hbegin hend
  obtain rfl := List.mem_singleton.mp hp
  rw [formatTime_sample.1] at hbegin
  rw [formatTime_sample.2] at hend
  cases hbegin
  cases hend
  have htext : sampleHost.json.write sampleDocument = sampleMetaJson := rfl
  refine ⟨?_, ?_, ?_⟩
  · change sampleHost.json.parse (sampleHost.json.write sampleDocument) = some sampleDocument
    rw [htext]
    change (if sampleMetaJson = sampleMetaJson then some sampleDocument else none) = _
    exact if_pos rfl
  · change ∀ b ∈ sampleHost.json.write sampleDocument, b ≠ 0
    rw [htext]
    decide +kernel
  · change (sampleHost.json.write sampleDocument).length ≤ 3 * 2 ^ 30
    rw [htext]
    decide +kernel

/-- The backup of one imported PSK. -/
theorem backup_sample (options : PsKManagerInitOptions) (hcount : 1 ≤ options.pskMaxCount) :
    Backup sampleHost (· = keyedWorld options) { options, initCount := 1 }
      [(samplePsk, sampleToken)] := by
  have hmeta : constructPskMetaJsonString sampleHost samplePsk = some sampleMetaJson := by
    decide +kernel
  have henc : buildAndEncryptPskToken sampleHost (keyedWorld options) options samplePsk =
      some (.ok sampleToken) := by
    unfold buildAndEncryptPskToken
    rw [hmeta]
    simp [encryptPskToken, keyedWorld, sampleToken, concatenatePskToken]
  have hcreated : Created sampleHost (keyedWorld options) { options, initCount := 1 } sampleParam
      (List.replicate 256 7) sampleToken :=
    ⟨rfl, validateFields_ok.mpr ⟨hcount, by decide, by decide, by decide, by decide⟩,
      List.length_replicate.symm, henc, rfl⟩
  exact Backup.import rfl (importPsk_of_created hcreated) (Backup.nil _)

/-- Under the default type, algorithm and domain the PSK comes back. -/
theorem restores_sample :
    Restores sampleHost (keyedWorld sampleOptions) { options := sampleOptions, initCount := 1 }
      [(samplePsk, sampleToken)] := by
  refine (restores_iff (show validateInitOptions quietWorld sampleOptions = .ok from rfl) rfl
    (backup_sample sampleOptions (by decide))
    (by decide) (fun w hw => hw ▸ keyedWorld_keeps sampleOptions) documentsSurvive_sample rfl
    rfl).mpr ⟨by simp, rfl, rfl, rfl, fun p hp => ?_⟩
  obtain rfl := List.mem_singleton.mp hp
  exact ⟨by decide, by decide +kernel, by decide +kernel,
    ⟨_, formatTime_sample.1, by decide +kernel⟩, ⟨_, formatTime_sample.2, by decide +kernel⟩⟩

/-- Under another algorithm it does not: the load decrypts with the default one. -/
theorem restores_fails_chacha20 :
    ¬ ∀ (H : Host) (W : World → Prop) (w₀ w' : World) (s₀ s : PskManager)
        (options : PsKManagerInitOptions) (made : List (Psk × Bytes)),
      validateInitOptions w₀ options = .ok → s₀.options = options → Backup H W s₀ made →
      made.length ≤ options.pskMaxCount → (∀ w, W w → KeyManagerKeeps options w' w) →
      DocumentsSurvive H made → s.checkInited = true → s.options = options →
      Restores H w' s made := by
  intro hall
  let options : PsKManagerInitOptions := { sampleOptions with algType := .chacha20Poly1305 }
  obtain ⟨s', r, hload, hrc, -⟩ := hall sampleHost _ quietWorld (keyedWorld options) _
    { options, initCount := 1 } options _ rfl rfl (backup_sample options (by decide)) (by decide)
    (fun w hw => hw ▸ keyedWorld_keeps options) documentsSurvive_sample rfl rfl
  have hfails : (loadAllPsk sampleHost (keyedWorld options) { options, initCount := 1 }
      [sampleToken]).map (fun p => p.2.rc) = some .decryptoFail := by
    decide +kernel
  rw [show [sampleToken] = List.map Prod.snd [(samplePsk, sampleToken)] from rfl, hload,
    Option.map_some, hrc] at hfails
  cases hfails

end CdfCrypto.PskManagement
