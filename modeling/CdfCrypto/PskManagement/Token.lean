import CdfCrypto.Lib.Decimal
import CdfCrypto.PskManagement.Define
import CdfCrypto.Utils.Base64
import CdfCrypto.Utils.StrUtils

/-!
# The PSK token

What `GeneratePsk`, `ImportPsk` and `UpdatePsk` encrypt and `LoadAllPsk`
decrypts: the base64 of the content, a `.`, and the base64 of a JSON document
with the metadata, in which the two times stand as local wall-clock texts.

Writing: `constructPskMetaJsonString`, `concatenatePskToken`. Reading:
`splitPskToken`, `parsePskMetaJsonString`. `formatTime` is `none` where
`localtime` returns null and `strftime` is handed that pointer: the process
ends there, and with it every operation above.

Strings go through `c_str()` on the way into the document and through
`GetString()` on the way out, so an issuer or a subject is cut at its first NUL
(`pskMetaMembers`); nothing else is lost when the times parse
(`parsePskMetaMembers_pskMetaMembers`), and the outer layer loses nothing at all
(`splitPskToken_concatenatePskToken`).
-/

namespace CdfCrypto.PskManagement

open Lib

/-! ## Times -/

/-- A number as `%m`, `%d`, `%H`, `%M` and `%S` write it. -/
def twoDigits (n : Int) : Bytes :=
  if n.natAbs < 10 then 48 :: decimalInt n else decimalInt n

/-- `strftime` with the format `%Y-%m-%d %H:%M:%S`, before the size check. -/
def strftime (tm : Tm) : Bytes :=
  decimalInt (tm.tmYear + 1900) ++ ascii "-" ++ twoDigits (tm.tmMon + 1) ++ ascii "-" ++
    twoDigits tm.tmMday ++ ascii " " ++ twoDigits tm.tmHour ++ ascii ":" ++
    twoDigits tm.tmMin ++ ascii ":" ++ twoDigits tm.tmSec

/-- `FormatTime`: the text is built in a `char[20]`; where it does not fit,
`strftime` gives up and the string is read from whatever the array holds. -/
def formatTime (H : Host) (timeValue : Int) : Option Bytes :=
  match H.localtime timeValue with
  | none => none
  | some timeInfo =>
    if (strftime timeInfo).length < 20 then some (strftime timeInfo)
    else some (cstr (H.buffer timeValue))

/-- The digits of one numeric field of `strptime`: at most `n` more of them, and
none once ten times the value would exceed the field's upper bound. -/
def takeNumber (hi : Nat) : Nat → Nat → Bytes → Nat × Bytes
  | 0, val, rp => (val, rp)
  | _ + 1, val, [] => (val, [])
  | n + 1, val, c :: rp =>
    if val * 10 ≤ hi ∧ isDigit c then takeNumber hi n (val * 10 + digitValue c) rp
    else (val, c :: rp)

/-- One numeric field: white space is skipped, a digit must follow, and the
value must lie within the bounds. -/
def getNumber (lo hi n : Nat) (rp : Bytes) : Option (Nat × Bytes) :=
  let rp := rp.dropWhile isSpace
  if (rp.head?.map isDigit).getD false then
    let (val, rest) := takeNumber hi n 0 rp
    if lo ≤ val ∧ val ≤ hi then some (val, rest) else none
  else none

/-- A literal character of the format. -/
def matchChar (c : UInt8) : Bytes → Option Bytes
  | [] => none
  | d :: rp => if d = c then some rp else none

/-- `strptime` with the format `%Y-%m-%d %H:%M:%S` on a zeroed `tm`: the fields
and the rest of the text. -/
def strptime (text : Bytes) : Option (Tm × Bytes) := do
  let (year, rp) ← getNumber 0 9999 4 text
  let rp ← matchChar 45 rp
  let (mon, rp) ← getNumber 1 12 2 rp
  let rp ← matchChar 45 rp
  let (mday, rp) ← getNumber 1 31 2 rp
  let rp := rp.dropWhile isSpace
  let (hour, rp) ← getNumber 0 23 2 rp
  let rp ← matchChar 58 rp
  let (min, rp) ← getNumber 0 59 2 rp
  let rp ← matchChar 58 rp
  let (sec, rp) ← getNumber 0 61 2 rp
  some ({ tmYear := year - 1900, tmMon := mon - 1, tmMday := mday, tmHour := hour, tmMin := min,
          tmSec := sec, tmIsdst := 0 }, rp)

/-- `ParseTime`; `none` is its `ERROR`. -/
def parseTime (H : Host) (timeStr : Bytes) : Option Int :=
  match strptime (cstr timeStr) with
  | some (tm, []) =>
    let parsed := H.mktime tm
    if parsed = -1 then none else some parsed
  | _ => none

/-! ## The metadata document -/

/-- The members of the document `ConstructPskMetaJsonString` builds from a PSK and
the texts of its two times. -/
def pskMetaMembers (psk : Psk) (formattedBeginTime formattedEndTime : Bytes) :
    List (Bytes × JsonValue) :=
  [(ascii "pskId", .int psk.pskId),
   (ascii "issuer", .string (cstr psk.issuer)),
   (ascii "subject", .string (cstr psk.subject)),
   (ascii "pskLength", .int psk.pskLength),
   (ascii "validDays", .int psk.validDays),
   (ascii "beginTime", .string (cstr formattedBeginTime)),
   (ascii "endTime", .string (cstr formattedEndTime))]

def constructPskMetaJsonString (H : Host) (psk : Psk) : Option Bytes := do
  let formattedBeginTime ← formatTime H psk.beginTime
  let formattedEndTime ← formatTime H psk.endTime
  some (cstr (H.json.write (.object (pskMetaMembers psk formattedBeginTime formattedEndTime))))

/-- The member checks of `ParsePskMetaJsonString`, in its order. -/
def parsePskMetaMembers (H : Host) (members : List (Bytes × JsonValue)) : Option PskMetaData := do
  let pskId ← (findMember members (ascii "pskId")).bind JsonValue.uint?
  let issuer ← (findMember members (ascii "issuer")).bind JsonValue.cstr?
  let subject ← (findMember members (ascii "subject")).bind JsonValue.cstr?
  let pskLength ← (findMember members (ascii "pskLength")).bind JsonValue.uint?
  let validDays ← (findMember members (ascii "validDays")).bind JsonValue.uint?
  let beginText ← (findMember members (ascii "beginTime")).bind JsonValue.cstr?
  let endText ← (findMember members (ascii "endTime")).bind JsonValue.cstr?
  let beginTime ← parseTime H beginText
  let endTime ← parseTime H endText
  some { pskId, issuer, subject, pskLength, validDays, beginTime, endTime }

/-- `ParsePskMetaJsonString`; `none` is its `ERROR`. -/
def parsePskMetaJsonString (H : Host) (pskMetaJson : Bytes) : Option PskMetaData :=
  match H.json.parse (cstr pskMetaJson) with
  | some (.object members) => parsePskMetaMembers H members
  | _ => none

/-- The metadata a PSK's document is read back as, given what its two time texts
parse to. -/
def restored (psk : Psk) (beginTime endTime : Int) : PskMetaData :=
  { pskId := psk.pskId, issuer := cstr psk.issuer, subject := cstr psk.subject,
    pskLength := psk.pskLength, validDays := psk.validDays, beginTime, endTime }

/-- Reading the members of a PSK's document succeeds when both time texts parse,
and gives the PSK's own fields with the strings cut at a NUL. -/
theorem parsePskMetaMembers_pskMetaMembers {H : Host} {psk : Psk} {beginText endText : Bytes}
    (hid : psk.pskId < 2 ^ 32) (hlen : psk.pskLength < 2 ^ 32) (hdays : psk.validDays < 2 ^ 32) :
    parsePskMetaMembers H (pskMetaMembers psk beginText endText) =
      (parseTime H (cstr beginText)).bind fun beginTime =>
        (parseTime H (cstr endText)).bind fun endTime => some (restored psk beginTime endTime) := by
  generalize hms : pskMetaMembers psk beginText endText = members
  have h₁ : findMember members (ascii "pskId") = some (.int psk.pskId) := by rw [← hms]; rfl
  have h₂ : findMember members (ascii "issuer") = some (.string (cstr psk.issuer)) := by
    rw [← hms]; rfl
  have h₃ : findMember members (ascii "subject") = some (.string (cstr psk.subject)) := by
    rw [← hms]; rfl
  have h₄ : findMember members (ascii "pskLength") = some (.int psk.pskLength) := by
    rw [← hms]; rfl
  have h₅ : findMember members (ascii "validDays") = some (.int psk.validDays) := by
    rw [← hms]; rfl
  have h₆ : findMember members (ascii "beginTime") = some (.string (cstr beginText)) := by
    rw [← hms]; rfl
  have h₇ : findMember members (ascii "endTime") = some (.string (cstr endText)) := by
    rw [← hms]; rfl
  unfold parsePskMetaMembers
  rw [h₁, h₂, h₃, h₄, h₅, h₆, h₇]
  simp only [Option.bind_some, JsonValue.uint?_int hid, JsonValue.uint?_int hlen,
    JsonValue.uint?_int hdays, JsonValue.cstr?, cstr_cstr, Option.bind_eq_bind]
  rfl

/-! ## The token -/

/-- `.`, the separator. -/
def tokenDot : UInt8 := 46

def concatenatePskToken (pskContent pskMetaJson : Bytes) : Bytes :=
  base64Encode pskContent ++ tokenDot :: base64Encode pskMetaJson

/-- `SplitPskToken`; `none` is its `ERROR`. -/
def splitPskToken (pskToken : Bytes) : Option (Bytes × Bytes) :=
  match pskToken.dropWhile (· ≠ tokenDot) with
  | [] => none
  | _ :: pskMetaB64 =>
    some (base64Decode (pskToken.takeWhile (· ≠ tokenDot)), base64Decode pskMetaB64)

/-- A token splits at its own separator: no encoding holds another. -/
theorem splitPskToken_concatenatePskToken_eq (pskContent pskMetaJson : Bytes) :
    splitPskToken (concatenatePskToken pskContent pskMetaJson) =
      some (base64Decode (base64Encode pskContent), base64Decode (base64Encode pskMetaJson)) := by
  have hdot : ∀ c ∈ base64Encode pskContent, (decide (c ≠ tokenDot)) = true := by
    intro c hmem
    have : c ≠ tokenDot := by
      intro heq
      subst heq
      exact dot_not_mem_base64Encode pskContent hmem
    simpa using this
  unfold splitPskToken concatenatePskToken
  rw [List.takeWhile_append_of_pos hdot, List.dropWhile_append_of_pos hdot]
  simp

/-- **The token round trip.** A token splits into the content and the metadata
text it was put together from. -/
theorem splitPskToken_concatenatePskToken {pskContent pskMetaJson : Bytes}
    (hc : pskContent.length ≤ 3 * 2 ^ 30) (hm : pskMetaJson.length ≤ 3 * 2 ^ 30) :
    splitPskToken (concatenatePskToken pskContent pskMetaJson) =
      some (pskContent, pskMetaJson) := by
  rw [splitPskToken_concatenatePskToken_eq, base64Decode_base64Encode hc,
    base64Decode_base64Encode hm]

end CdfCrypto.PskManagement
