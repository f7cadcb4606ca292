import CdfCrypto.PskManagement.Backup
import CdfCrypto.Utils.Base64RoundTrip

/-!
# The token and its document, forth and back

The two halves of `Backup` by themselves, at every size and for every name. The token is two
encodings with a separator that neither of them holds, so it comes back exactly where both of
them do (`splitPskToken_iff`): the decoder's index is the only thing in the way. The document
comes back but for its two names, which `c_str()` and `GetString()` cut at a NUL that
`ValidatePskParams` lets through (`parsePskMetaJsonString_iff`).
-/

namespace CdfCrypto.PskManagement

open Lib

/-! ## The token -/

/-- **When the token splits into what it was made of**: the decoder gives both halves back. -/
theorem splitPskToken_iff {pskContent pskMetaJson : Bytes} (hc : pskContent.length < 2 ^ 32)
    (hm : pskMetaJson.length < 2 ^ 32) :
    splitPskToken (concatenatePskToken pskContent pskMetaJson) = some (pskContent, pskMetaJson) ↔
      WithinIndex pskContent ∧ WithinIndex pskMetaJson := by
  rw [splitPskToken_concatenatePskToken_eq, Option.some.injEq, Prod.mk.injEq,
    base64Decode_base64Encode_iff hc, base64Decode_base64Encode_iff hm]

theorem splitPskToken_iff_empty :
    splitPskToken (concatenatePskToken [7, 0, 46] []) = some ([7, 0, 46], []) :=
  (splitPskToken_iff (by decide) (by decide)).mpr ⟨.inl (by decide), .inl (by decide)⟩

/-- **A content of 3 GiB and a byte** comes back two bytes longer. -/
theorem splitPskToken_zeros : ¬ ∀ pskContent pskMetaJson : Bytes, 0 < pskContent.length →
    pskContent.length < 2 ^ 32 → pskMetaJson.length < 2 ^ 32 →
    splitPskToken (concatenatePskToken pskContent pskMetaJson) =
      some (pskContent, pskMetaJson) := by
  intro hall
  have hlength : (List.replicate (3 * 2 ^ 30 + 1) (0 : UInt8)).length = 3 * 2 ^ 30 + 1 :=
    List.length_replicate
  have hback := hall (List.replicate (3 * 2 ^ 30 + 1) 0) [] (by omega) (by omega) (by decide)
  rw [splitPskToken_concatenatePskToken_eq] at hback
  have hcontent := congrArg List.length (Prod.mk.inj (Option.some.inj hback)).1
  rw [base64Decode_wrapped (by omega) (by omega), List.length_append, List.length_take,
    List.length_take, hlength] at hcontent
  omega

/-! ## The document -/

/-- The library parses the document it has written of a PSK, and writes no NUL. -/
def DocumentReturns (json : RapidJson) (document : JsonValue) : Prop :=
  json.parse (json.write document) = some document ∧ ∀ b ∈ json.write document, b ≠ 0

/-- The metadata are those of the PSK. -/
structure SameFields (psk : Psk) (pskMeta : PskMetaData) : Prop where
  pskId : pskMeta.pskId = psk.pskId
  issuer : pskMeta.issuer = psk.issuer
  subject : pskMeta.subject = psk.subject
  pskLength : pskMeta.pskLength = psk.pskLength
  validDays : pskMeta.validDays = psk.validDays

theorem sameFields_restored_iff {psk : Psk} {beginTime endTime : Int} :
    SameFields psk (restored psk beginTime endTime) ↔
      (∀ b ∈ psk.issuer, b ≠ 0) ∧ ∀ b ∈ psk.subject, b ≠ 0 := by
  constructor
  · intro h
    exact ⟨cstr_eq_self_iff.mp h.issuer, cstr_eq_self_iff.mp h.subject⟩
  · intro h
    exact ⟨rfl, cstr_eq_self_iff.mpr h.1, cstr_eq_self_iff.mpr h.2, rfl, rfl⟩

section Document

variable {H : Host} {psk : Psk} {beginText endText : Bytes}

theorem constructPskMetaJsonString_eq (hbegin : formatTime H psk.beginTime = some beginText)
    (hend : formatTime H psk.endTime = some endText) :
    constructPskMetaJsonString H psk =
      some (cstr (H.json.write (.object (pskMetaMembers psk beginText endText)))) := by
  unfold constructPskMetaJsonString
  rw [hbegin, hend]
  rfl

/-- **What is read of a document that was written**: the PSK's fields, the names cut at a NUL. -/
theorem parsePskMetaJsonString_written {beginTime endTime : Int} (hid : psk.pskId < 2 ^ 32)
    (hlen : psk.pskLength < 2 ^ 32) (hdays : psk.validDays < 2 ^ 32)
    (hjson : DocumentReturns H.json (.object (pskMetaMembers psk beginText endText)))
    (hbegin : parseTime H (cstr beginText) = some beginTime)
    (hend : parseTime H (cstr endText) = some endTime) :
    parsePskMetaJsonString H
        (cstr (H.json.write (.object (pskMetaMembers psk beginText endText)))) =
      some (restored psk beginTime endTime) := by
  unfold parsePskMetaJsonString
  rw [cstr_cstr, cstr_of_forall_ne hjson.2, hjson.1]
  dsimp only
  rw [parsePskMetaMembers_pskMetaMembers hid hlen hdays, hbegin, hend]
  rfl

end Document

/-- **When the metadata come back**: neither name holds a NUL. -/
theorem parsePskMetaJsonString_iff {H : Host} {s : PskManager} {pskParam : PskParam}
    {pskContent : Bytes} (hparams : validatePskParams s pskParam = .ok)
    (hid : s.curPskMaxId < 2 ^ 32)
    (hbegin : TimeSurvives H (buildPskObj s pskParam pskContent).beginTime)
    (hend : TimeSurvives H (buildPskObj s pskParam pskContent).endTime)
    (hjson : ∀ beginText endText : Bytes,
      formatTime H (buildPskObj s pskParam pskContent).beginTime = some beginText →
      formatTime H (buildPskObj s pskParam pskContent).endTime = some endText →
      DocumentReturns H.json
        (.object (pskMetaMembers (buildPskObj s pskParam pskContent) beginText endText))) :
    (∃ pskMetaJson pskMeta,
        constructPskMetaJsonString H (buildPskObj s pskParam pskContent) = some pskMetaJson ∧
        parsePskMetaJsonString H pskMetaJson = some pskMeta ∧
        SameFields (buildPskObj s pskParam pskContent) pskMeta) ↔
      (∀ b ∈ pskParam.issuer, b ≠ 0) ∧ ∀ b ∈ pskParam.subject, b ≠ 0 := by
  obtain ⟨-, -, -, hlen, hdays⟩ := validateFields_ok.mp hparams
  have hlen : pskParam.pskLength < 2 ^ 32 := by
    unfold validPskLength pskLength256 pskLength384 pskLength512 at hlen
    rcases of_decide_eq_true hlen with hlen | hlen | hlen <;> omega
  have hdays : pskParam.validDays < 2 ^ 32 := Nat.lt_of_le_of_lt hdays.2 (by decide)
  obtain ⟨beginText, hbeginText, hbegin⟩ := hbegin
  obtain ⟨endText, hendText, hend⟩ := hend
  have hwritten := constructPskMetaJsonString_eq hbeginText hendText
  have hread := parsePskMetaJsonString_written hid hlen hdays (hjson _ _ hbeginText hendText) hbegin
    hend
  rw [hwritten]
  constructor
  · intro hsame
    obtain ⟨pskMetaJson, pskMeta, htext, hparsed, hfields⟩ := hsame
    obtain rfl := Option.some.inj htext
    obtain rfl := Option.some.inj (hread.symm.trans hparsed)
    exact sameFields_restored_iff.mp hfields
  · intro hnames
    exact ⟨_, _, rfl, hread, sameFields_restored_iff.mpr hnames⟩

/-- Parameters whose issuer goes on behind a NUL. -/
def cutParam : PskParam := { sampleParam with issuer := ascii "ca" ++ [0, 66] }

/-- The document is that of the PSK without the rest of the name. -/
theorem documentReturns_sample {pskParam : PskParam} {beginText endText : Bytes}
    (hmembers : pskMetaMembers (buildPskObj {} pskParam (List.replicate 256 7))
        (ascii "1970-01-01 00:00:00") (ascii "1970-01-02 00:00:00") =
      pskMetaMembers samplePsk (ascii "1970-01-01 00:00:00") (ascii "1970-01-02 00:00:00"))
    (hbegin : some (ascii "1970-01-01 00:00:00") = some beginText)
    (hend : some (ascii "1970-01-02 00:00:00") = some endText) :
    DocumentReturns sampleHost.json
      (.object (pskMetaMembers (buildPskObj {} pskParam (List.replicate 256 7)) beginText
        endText)) := by
  obtain rfl := Option.some.inj hbegin
  obtain rfl := Option.some.inj hend
  rw [hmembers]
  obtain ⟨hparse, hzero, -⟩ := documentsSurvive_sample (samplePsk, sampleToken)
    (List.mem_singleton_self _) _ _ formatTime_sample.1 formatTime_sample.2
  exact ⟨hparse, hzero⟩

theorem timeSurvives_sample :
    TimeSurvives sampleHost samplePsk.beginTime ∧ TimeSurvives sampleHost samplePsk.endTime :=
  ⟨⟨_, formatTime_sample.1, by decide +kernel⟩, ⟨_, formatTime_sample.2, by decide +kernel⟩⟩

theorem parsePskMetaJsonString_iff_sample : ∃ pskMetaJson pskMeta,
    constructPskMetaJsonString sampleHost samplePsk = some pskMetaJson ∧
      parsePskMetaJsonString sampleHost pskMetaJson = some pskMeta ∧
      SameFields samplePsk pskMeta :=
  (parsePskMetaJsonString_iff (s := {}) (validateFields_ok.mpr (by decide)) (by decide)
    timeSurvives_sample.1 timeSurvives_sample.2 fun _ _ hbegin hend =>
      documentReturns_sample rfl (formatTime_sample.1.symm.trans hbegin)
        (formatTime_sample.2.symm.trans hend)).mpr ⟨by decide +kernel, by decide +kernel⟩

/-- **A name with a NUL inside is accepted and comes back cut.** -/
theorem parsePskMetaJsonString_cuts : ¬ ∀ (H : Host) (s : PskManager) (pskParam : PskParam)
    (pskContent : Bytes), validatePskParams s pskParam = .ok → s.curPskMaxId < 2 ^ 32 →
    TimeSurvives H (buildPskObj s pskParam pskContent).beginTime →
    TimeSurvives H (buildPskObj s pskParam pskContent).endTime →
    (∀ beginText endText : Bytes,
      formatTime H (buildPskObj s pskParam pskContent).beginTime = some beginText →
      formatTime H (buildPskObj s pskParam pskContent).endTime = some endText →
      DocumentReturns H.json
        (.object (pskMetaMembers (buildPskObj s pskParam pskContent) beginText endText))) →
    ∃ pskMetaJson pskMeta,
      constructPskMetaJsonString H (buildPskObj s pskParam pskContent) = some pskMetaJson ∧
      parsePskMetaJsonString H pskMetaJson = some pskMeta ∧
      SameFields (buildPskObj s pskParam pskContent) pskMeta := by
  intro hall
  obtain ⟨pskMetaJson, pskMeta, hwritten, hread, hsame⟩ := hall sampleHost {} cutParam
    (List.replicate 256 7) (validateFields_ok.mpr (by decide)) (by decide) timeSurvives_sample.1
    timeSurvives_sample.2 fun _ _ hbegin hend =>
      documentReturns_sample rfl (formatTime_sample.1.symm.trans hbegin)
        (formatTime_sample.2.symm.trans hend)
  have hmeta : (constructPskMetaJsonString sampleHost
      (buildPskObj {} cutParam (List.replicate 256 7))).bind (parsePskMetaJsonString sampleHost) =
      some (restored samplePsk 0 86400) := by
    decide +kernel
  rw [hwritten, Option.bind_some, hread] at hmeta
  obtain rfl := Option.some.inj hmeta
  exact absurd hsame.issuer (by decide)

end CdfCrypto.PskManagement
