import CdfCrypto.Lib.Calendar
import CdfCrypto.Utils.StrUtils

/-!
# `UtcTimeToLocal`

A UTC timestamp is taken apart, moved by the zone with carries written by hand, and printed back
into the same buffer. The zone is what hour `localtime_r` shows of the time 0, taken below 0 from
13 on; the lengths of this month and of the last are filled in by cases on the month.

Two things go wrong. The hour tells 24 zones apart where there are 27, so -12, 13 and 14 are taken
for 12, -11 and -10. And the length of the last month stays unset where this one has 31 days and
is neither March nor August, so the day before the first of such a month is whatever the stack
held. Everywhere else the text is that of the shifted second (`utcTimeToLocal_iff`).
-/

namespace CdfCrypto

open Lib

/-! ## Reading and printing fields -/

/-- `%d` of `sscanf_s` with a width: the number and what follows it. -/
def scanInt (width : Nat) (text : Bytes) : Option (Int × Bytes) :=
  let text := text.dropWhile isSpace
  let signed := takeSign text
  let left := width - (text.length - signed.2.length)
  let digits := (signed.2.take left).takeWhile isDigit
  let magnitude : Int := Int.ofNat (ofDecimal digits)
  if digits = [] then none
  else some (if signed.1 then -magnitude else magnitude, signed.2.drop digits.length)

/-- A literal character of the format. -/
def scanChar (c : UInt8) : Bytes → Option Bytes
  | [] => none
  | d :: rest => if d = c then some rest else none

/-- `%d` of `sprintf_s` with a width that zeros fill, after the sign. -/
def printInt (width : Nat) (n : Int) : Bytes :=
  let sign := if n < 0 then ascii "-" else []
  let digits := decimal n.natAbs
  sign ++ (List.replicate (width - sign.length - digits.length) 48 ++ digits)

structure UTCTime where
  year : Int
  month : Int
  day : Int
  hour : Int
  min : Int
  sec : Int
  lastDay : Int
  lastLastDay : Int

/-- `sscanf_s` with `%04d-%02d-%02dT%02d:%02d:%02dZ` into the struct; `none` where it does not
come to six numbers. The `Z` stands after the last of them and does not count. -/
def UTCTime.scan (utcTime : UTCTime) (timeStr : Bytes) : Option UTCTime := do
  let (year, rest) ← scanInt 4 timeStr
  let rest ← scanChar 45 rest
  let (month, rest) ← scanInt 2 rest
  let rest ← scanChar 45 rest
  let (day, rest) ← scanInt 2 rest
  let rest ← scanChar 84 rest
  let (hour, rest) ← scanInt 2 rest
  let rest ← scanChar 58 rest
  let (min, rest) ← scanInt 2 rest
  let rest ← scanChar 58 rest
  let (sec, _) ← scanInt 2 rest
  some { utcTime with year, month, day, hour, min, sec }

/-- What `sprintf_s` writes with `%04d/%02d/%02d %02d:%02d:%02d `. -/
def UTCTime.print (utcTime : UTCTime) : Bytes :=
  printInt 4 utcTime.year ++ (ascii "/" ++ (printInt 2 utcTime.month ++ (ascii "/" ++
    (printInt 2 utcTime.day ++ (ascii " " ++ (printInt 2 utcTime.hour ++ (ascii ":" ++
      (printInt 2 utcTime.min ++ (ascii ":" ++ (printInt 2 utcTime.sec ++ ascii " "))))))))))

/-! ## The conversion -/

/-- `GetTimeZone`, of the hour that `localtime_r` shows of a time. -/
def getTimeZone (localHour : Int → Int) : Int :=
  if localHour 0 > 12 then localHour 0 - 24 else localHour 0

/-- The day after, as `TranseTimeZoneT` carries it. -/
def UTCTime.addDay (utcTime : UTCTime) : UTCTime :=
  let utcTime := { utcTime with day := utcTime.day + 1 }
  if utcTime.day > utcTime.lastDay then
    let utcTime := { utcTime with day := utcTime.day - utcTime.lastDay, month := utcTime.month + 1 }
    if utcTime.month > 12 then
      { utcTime with month := utcTime.month - 12, year := utcTime.year + 1 }
    else utcTime
  else utcTime

/-- The day before, as `TranseTimeZoneT` borrows it. -/
def UTCTime.subDay (utcTime : UTCTime) : UTCTime :=
  let utcTime := { utcTime with day := utcTime.day - 1 }
  if utcTime.day < 1 then
    let utcTime := { utcTime with day := utcTime.lastLastDay, month := utcTime.month - 1 }
    if utcTime.month < 1 then { utcTime with month := 12, year := utcTime.year - 1 } else utcTime
  else utcTime

/-- `TranseTimeZoneT`; its argument is never null. -/
def transeTimeZoneT (localHour : Int → Int) (utcTime : UTCTime) : UTCTime :=
  let utcTime := { utcTime with hour := utcTime.hour + getTimeZone localHour }
  let utcTime :=
    if utcTime.hour ≥ 24 then { utcTime with hour := utcTime.hour - 24 }.addDay else utcTime
  if utcTime.hour < 0 then { utcTime with hour := utcTime.hour + 24 }.subDay else utcTime

/-- `ParseDayAmount`: `lastlastday` keeps its value in the months that no case sets it for. -/
def parseDayAmount (month year lastlastday : Int) : Int × Int :=
  let bLeapMonth := year.tmod 400 = 0 ∨ year.tmod 4 = 0 ∧ year.tmod 100 ≠ 0
  if month = 1 ∨ month = 3 ∨ month = 5 ∨ month = 7 ∨ month = 8 ∨ month = 10 ∨ month = 12 then
    let lastlastday := if month = 3 then if bLeapMonth then 29 else 28 else lastlastday
    (31, if month = 8 then 31 else lastlastday)
  else if month = 4 ∨ month = 6 ∨ month = 9 ∨ month = 11 then (30, 31)
  else (if bLeapMonth then 29 else 28, 31)

/-- `UtcTimeToLocal` in a zone where `localtime_r` shows those hours, with what the stack holds
where the struct is put: the code and the buffer. -/
def utcTimeToLocal (localHour : Int → Int) (stack : UTCTime) :
    Option Bytes → Nat × Option Bytes
  | none => (1, none)
  | some timeStr =>
    match stack.scan (cstr timeStr) with
    | none => (1, some timeStr)
    | some utcTime =>
      let days := parseDayAmount utcTime.month utcTime.year utcTime.lastLastDay
      let utcTime := transeTimeZoneT localHour
        { utcTime with lastDay := days.1, lastLastDay := days.2 }
      -- a text that does not fit 25 bytes empties the buffer
      if utcTime.print.length < 25 then (0, some (writeAt timeStr 0 (utcTime.print ++ [0])))
      else (1, some (writeAt timeStr 0 [0]))

/-! ## The texts -/

/-- The fields of a date and time, in a struct that keeps its two lengths. -/
def UTCTime.setTo (utcTime : UTCTime) (t : DateTime) : UTCTime :=
  { utcTime with
    year := t.date.year, month := t.date.month, day := t.date.day
    hour := t.hour, min := t.minute, sec := t.second }

/-- `YYYY-MM-DDThh:mm:ssZ`. -/
def utcText (t : DateTime) : Bytes :=
  padded 4 t.date.year.toNat ++ (45 :: (padded 2 t.date.month.toNat ++ (45 ::
    (padded 2 t.date.day.toNat ++ (84 :: (padded 2 t.hour.toNat ++ (58 ::
      (padded 2 t.minute.toNat ++ (58 :: (padded 2 t.second.toNat ++ [90]))))))))))

/-- `YYYY/MM/DD hh:mm:ss`, and a blank. -/
def localText (t : DateTime) : Bytes :=
  padded 4 t.date.year.toNat ++ (47 :: (padded 2 t.date.month.toNat ++ (47 ::
    (padded 2 t.date.day.toNat ++ (32 :: (padded 2 t.hour.toNat ++ (58 ::
      (padded 2 t.minute.toNat ++ (58 :: (padded 2 t.second.toNat ++ [32]))))))))))

theorem scanInt_padded {w : Nat} {n : Int} (h₀ : 0 ≤ n) (hn : n.toNat < 10 ^ (w + 1))
    (rest : Bytes) : scanInt (w + 1) (padded (w + 1) n.toNat ++ rest) = some (n, rest) := by
  have hdigit : ∀ c ∈ padded (w + 1) n.toNat, isDigit c = true := fun _ hc =>
    isDigit_of_mem_padded hc
  have hlength := padded_length (w + 1) n.toNat
  have hvalue : (ofDecimal (padded (w + 1) n.toNat) : Int) = n := by
    rw [ofDecimal_padded hn, Int.toNat_of_nonneg h₀]
  generalize padded (w + 1) n.toNat = field at hdigit hlength hvalue
  cases field with
  | nil => cases hlength
  | cons d ds =>
  have hd : isDigit d = true := hdigit d List.mem_cons_self
  have hspace : ((d :: ds) ++ rest).dropWhile isSpace = (d :: ds) ++ rest := by
    rw [List.cons_append, List.dropWhile_cons, if_neg (by simp [(isDigit_spec d hd).1])]
  have hsign : takeSign ((d :: ds) ++ rest) = (false, (d :: ds) ++ rest) :=
    takeSign_of_isDigit hd _
  have hfield : (((d :: ds) ++ rest).take (w + 1)).takeWhile isDigit = d :: ds := by
    rw [List.take_left' hlength, List.takeWhile_eq_self_iff]
    exact hdigit
  unfold scanInt
  dsimp only
  rw [hspace, hsign]
  dsimp only
  rw [Nat.sub_self, Nat.sub_zero, hfield, if_neg (List.cons_ne_nil d ds), if_neg Bool.false_ne_true,
    List.drop_left' rfl]
  exact congrArg (fun n => some (n, rest)) hvalue

@[simp] theorem scanChar_cons (c : UInt8) (rest : Bytes) : scanChar c (c :: rest) = some rest :=
  if_pos rfl

theorem printInt_eq {w : Nat} {n : Int} (h₀ : 0 ≤ n) (hn : n.toNat < 10 ^ (w + 1)) :
    printInt (w + 1) n = padded (w + 1) n.toNat := by
  have habs : n.natAbs = n.toNat := by omega
  unfold printInt
  rw [if_neg (Int.not_lt.mpr h₀), habs]
  exact replicate_append_decimal hn

/-- A date and time whose year has four digits. -/
structure FourDigits (t : DateTime) : Prop where
  nonneg : 0 ≤ t.date.year
  lt : t.date.year < 10000

section Fields

variable {t u : DateTime}

/-- The other fields have two digits. -/
theorem twoDigit_fields (t : DateTime) :
    (0 ≤ t.date.month ∧ t.date.month.toNat < 10 ^ 2) ∧
      (0 ≤ t.date.day ∧ t.date.day.toNat < 10 ^ 2) ∧
      (0 ≤ t.hour ∧ t.hour.toNat < 10 ^ 2) ∧ (0 ≤ t.minute ∧ t.minute.toNat < 10 ^ 2) ∧
      (0 ≤ t.second ∧ t.second.toNat < 10 ^ 2) := by
  have hmonth := t.date.one_le_month
  have hmonth' := t.date.month_le
  have hday := t.date.one_le_day
  have hday' := Int.le_trans t.date.day_le (monthLength_le _ _)
  have hhour := t.hour_nonneg
  have hhour' := t.hour_lt
  have hminute := t.minute_nonneg
  have hminute' := t.minute_lt
  have hsecond := t.second_nonneg
  have hsecond' := t.second_lt
  omega

/-- **A timestamp is read as its fields.** -/
theorem scan_utcText (h : FourDigits t) (stack : UTCTime) :
    stack.scan (utcText t) = some (stack.setTo t) := by
  obtain ⟨hmonth, hday, hhour, hminute, hsecond⟩ := twoDigit_fields t
  have hyear : t.date.year.toNat < 10 ^ 4 := by
    have := h.lt
    omega
  unfold UTCTime.scan utcText
  simp only [scanInt_padded h.nonneg hyear, scanInt_padded hmonth.1 hmonth.2,
    scanInt_padded hday.1 hday.2, scanInt_padded hhour.1 hhour.2,
    scanInt_padded hminute.1 hminute.2, scanInt_padded hsecond.1 hsecond.2, scanChar_cons,
    Option.bind_eq_bind, Option.bind_some]
  rfl

/-- **The fields are printed as the local text.** -/
theorem print_setTo (h : FourDigits t) (utcTime : UTCTime) :
    (utcTime.setTo t).print = localText t := by
  obtain ⟨hmonth, hday, hhour, hminute, hsecond⟩ := twoDigit_fields t
  have hyear : t.date.year.toNat < 10 ^ 4 := by
    have := h.lt
    omega
  unfold UTCTime.print UTCTime.setTo localText
  dsimp only
  rw [printInt_eq h.nonneg hyear, printInt_eq hmonth.1 hmonth.2, printInt_eq hday.1 hday.2,
    printInt_eq hhour.1 hhour.2, printInt_eq hminute.1 hminute.2, printInt_eq hsecond.1 hsecond.2]
  rfl

theorem int_eq_of_toNat {i j : Int} (hi : 0 ≤ i) (hj : 0 ≤ j) (h : i.toNat = j.toNat) : i = j := by
  rw [← Int.toNat_of_nonneg hi, h, Int.toNat_of_nonneg hj]

/-- **A local text names one second.** -/
theorem localText_inj (ht : FourDigits t) (hu : FourDigits u) (h : localText t = localText u) :
    t = u := by
  obtain ⟨htmonth, htday, hthour, htminute, htsecond⟩ := twoDigit_fields t
  obtain ⟨humonth, huday, huhour, huminute, husecond⟩ := twoDigit_fields u
  have htyear := ht.lt
  have huyear := hu.lt
  unfold localText at h
  obtain ⟨hyear, h⟩ := padded_append_inj (by omega) (by omega) h
  obtain ⟨hmonth, h⟩ := padded_append_inj htmonth.2 humonth.2 (List.cons.inj h).2
  obtain ⟨hday, h⟩ := padded_append_inj htday.2 huday.2 (List.cons.inj h).2
  obtain ⟨hhour, h⟩ := padded_append_inj hthour.2 huhour.2 (List.cons.inj h).2
  obtain ⟨hminute, h⟩ := padded_append_inj htminute.2 huminute.2 (List.cons.inj h).2
  obtain ⟨hsecond, -⟩ := padded_append_inj htsecond.2 husecond.2 (List.cons.inj h).2
  exact DateTime.ext
    (Date.ext (int_eq_of_toNat ht.nonneg hu.nonneg hyear)
      (int_eq_of_toNat htmonth.1 humonth.1 hmonth) (int_eq_of_toNat htday.1 huday.1 hday))
    (int_eq_of_toNat hthour.1 huhour.1 hhour) (int_eq_of_toNat htminute.1 huminute.1 hminute)
    (int_eq_of_toNat htsecond.1 husecond.1 hsecond)

/-- A text with the day 0 is of no date. -/
theorem print_ne_localText {utcTime : UTCTime} (hyear₀ : 0 ≤ utcTime.year)
    (hyear : utcTime.year.toNat < 10 ^ 4) (hmonth₀ : 0 ≤ utcTime.month)
    (hmonth : utcTime.month.toNat < 10 ^ 2) (hday : utcTime.day = 0) (ht : FourDigits t) :
    utcTime.print ≠ localText t := by
  intro h
  obtain ⟨htmonth, htday, -⟩ := twoDigit_fields t
  have htyear := ht.nonneg
  have htyear' := ht.lt
  have hone := t.date.one_le_day
  unfold UTCTime.print localText at h
  rw [printInt_eq hyear₀ hyear, printInt_eq hmonth₀ hmonth, hday,
    printInt_eq (Int.le_refl 0) (by decide)] at h
  obtain ⟨-, h⟩ := padded_append_inj hyear (by omega) h
  obtain ⟨-, h⟩ := padded_append_inj hmonth htmonth.2 (List.cons.inj h).2
  obtain ⟨h, -⟩ := padded_append_inj (by decide) htday.2 (List.cons.inj h).2
  omega

theorem zero_not_mem_printInt (width : Nat) (n : Int) : (0 : UInt8) ∉ printInt width n := by
  unfold printInt
  simp only [List.mem_append, List.mem_replicate, not_or]
  refine ⟨?_, fun h => absurd h.2 (by decide), fun h =>
    (isDigit_spec 0 (isDigit_of_mem_decimal h)).2 rfl⟩
  split <;> decide

theorem zero_not_mem_print (utcTime : UTCTime) : (0 : UInt8) ∉ utcTime.print := by
  unfold UTCTime.print
  simp only [List.mem_append, zero_not_mem_printInt, false_or]
  decide

theorem zero_not_mem_localText (t : DateTime) : (0 : UInt8) ∉ localText t := by
  have hzero : ∀ w n, (0 : UInt8) ∉ padded w n := fun _ _ h =>
    (isDigit_spec 0 (isDigit_of_mem_padded h)).2 rfl
  unfold localText
  simp only [List.mem_append, List.mem_cons, hzero, false_or]
  decide

theorem localText_length (t : DateTime) : (localText t).length = 20 := by
  unfold localText
  simp only [List.length_append, List.length_cons, padded_length, List.length_nil]

/-- Two texts that leave the same buffer are the same. -/
theorem writeAt_inj {buf a b : Bytes} (ha : (0 : UInt8) ∉ a) (hb : (0 : UInt8) ∉ b)
    (h : writeAt buf 0 (a ++ [0]) = writeAt buf 0 (b ++ [0])) : a = b := by
  rw [← cstr_written ha buf, h, cstr_written hb]

end Fields

/-! ## The carries -/

/-- The months whose `lastlastday` no case sets. -/
def LastMonthUnset (month : Int) : Prop :=
  month = 1 ∨ month = 5 ∨ month = 7 ∨ month = 10 ∨ month = 12

section Carries

variable {utcTime : UTCTime} {localHour : Int → Int}

theorem leapDays_eq (year : Int) :
    (if year.tmod 400 = 0 ∨ year.tmod 4 = 0 ∧ year.tmod 100 ≠ 0 then (29 : Int) else 28) =
      if isLeap year then 29 else 28 := by
  have htmod : ∀ n : Int, year.tmod n = 0 ↔ year % n = 0 := fun n =>
    Int.dvd_iff_tmod_eq_zero.symm.trans Int.dvd_iff_emod_eq_zero
  simp only [ne_eq, htmod, isLeap_iff]

/-- The length of this month. -/
theorem parseDayAmount_fst {month : Int} (h₀ : 1 ≤ month) (h₁ : month ≤ 12)
    (year lastlastday : Int) :
    (parseDayAmount month year lastlastday).1 = monthLength year month := by
  have hmonth : month = 1 ∨ month = 2 ∨ month = 3 ∨ month = 4 ∨ month = 5 ∨ month = 6 ∨ month = 7 ∨
      month = 8 ∨ month = 9 ∨ month = 10 ∨ month = 11 ∨ month = 12 := by omega
  unfold parseDayAmount monthLength
  dsimp only
  rw [leapDays_eq]
  rcases hmonth with rfl | rfl | rfl | rfl | rfl | rfl | rfl | rfl | rfl | rfl | rfl | rfl
  all_goals rfl

/-- The length of the last month, where a case sets it. -/
theorem parseDayAmount_snd {month : Int} (h₀ : 1 ≤ month) (h₁ : month ≤ 12)
    (hset : ¬ LastMonthUnset month) (year lastlastday : Int) :
    (parseDayAmount month year lastlastday).2 = monthLength year (month - 1) := by
  have hmonth : month = 2 ∨ month = 3 ∨ month = 4 ∨ month = 6 ∨ month = 8 ∨ month = 9 ∨
      month = 11 := by
    unfold LastMonthUnset at hset
    omega
  unfold parseDayAmount monthLength
  dsimp only
  rw [leapDays_eq]
  rcases hmonth with rfl | rfl | rfl | rfl | rfl | rfl | rfl
  all_goals rfl

theorem parseDayAmount_unset {month : Int} (hunset : LastMonthUnset month)
    (year lastlastday : Int) : (parseDayAmount month year lastlastday).2 = lastlastday := by
  unfold parseDayAmount
  obtain rfl | rfl | rfl | rfl | rfl := hunset
  all_goals rfl

/-- **A day carried** is the next day of the calendar. -/
theorem addDay_setTo {t : DateTime}
    (hlast : utcTime.lastDay = monthLength t.date.year t.date.month) :
    (utcTime.setTo t).addDay = utcTime.setTo { t with date := t.date.next } := by
  have hday := t.date.day_le
  have hmonth := t.date.month_le
  unfold UTCTime.addDay UTCTime.setTo Date.next
  dsimp only
  rw [hlast]
  by_cases hinside : t.date.day < monthLength t.date.year t.date.month
  · rw [if_neg (by omega), dif_pos hinside]
  rw [if_pos (by omega), dif_neg hinside]
  have hfirst : t.date.day + 1 - monthLength t.date.year t.date.month = 1 := by omega
  rw [hfirst]
  by_cases hyear : t.date.month < 12
  · rw [if_neg (by omega), dif_pos hyear]
  · have hjanuary : t.date.month + 1 - 12 = 1 := by omega
    rw [if_pos (by omega), dif_neg hyear, hjanuary]

/-- **A day borrowed** is the day before, where the length of the last month is known. -/
theorem subDay_setTo {t : DateTime}
    (hlast : t.date.day = 1 → 1 < t.date.month ∧
      utcTime.lastLastDay = monthLength t.date.year (t.date.month - 1)) :
    (utcTime.setTo t).subDay = utcTime.setTo { t with date := t.date.prev } := by
  have hday := t.date.one_le_day
  unfold UTCTime.subDay UTCTime.setTo Date.prev
  dsimp only
  by_cases hinside : 1 < t.date.day
  · rw [if_neg (by omega), dif_pos hinside]
  · obtain ⟨hmonth, hlength⟩ := hlast (by omega)
    rw [if_pos (by omega), dif_neg hinside, dif_pos hmonth, if_neg (by omega), hlength]

/-- The day before the first of a month is what stands in the struct. -/
theorem subDay_first {t : DateTime} (hfirst : t.date.day = 1) :
    (utcTime.setTo t).subDay.day = utcTime.lastLastDay ∧
      (utcTime.setTo t).subDay.year = t.date.prev.year ∧
      (utcTime.setTo t).subDay.month = t.date.prev.month := by
  have hmonth := t.date.one_le_month
  unfold UTCTime.subDay UTCTime.setTo Date.prev
  dsimp only
  rw [if_pos (by omega), dif_neg (by omega)]
  by_cases hjanuary : 1 < t.date.month
  · rw [if_neg (by omega), dif_pos hjanuary]
    exact ⟨rfl, rfl, rfl⟩
  · rw [if_pos (by omega), dif_neg hjanuary]
    exact ⟨rfl, rfl, rfl⟩

/-- `TranseTimeZoneT` from the zone it reads, the lengths of the months being those of the
calendar where they are asked for. -/
theorem transeTimeZoneT_setTo {t : DateTime} (h₀ : -12 ≤ getTimeZone localHour)
    (h₁ : getTimeZone localHour ≤ 12)
    (hlast : utcTime.lastDay = monthLength t.date.year t.date.month)
    (hlastLast : t.hour + getTimeZone localHour < 0 → t.date.day = 1 → 1 < t.date.month ∧
      utcTime.lastLastDay = monthLength t.date.year (t.date.month - 1)) :
    transeTimeZoneT localHour (utcTime.setTo t) =
      utcTime.setTo (t.addHours (getTimeZone localHour)) := by
  have hnonneg := t.hour_nonneg
  have hlt := t.hour_lt
  unfold transeTimeZoneT
  generalize getTimeZone localHour = zone at h₀ h₁ hlastLast ⊢
  have hhour : (utcTime.setTo t).hour = t.hour := rfl
  dsimp only
  rw [hhour]
  by_cases hcarry : t.hour + zone ≥ 24
  · have hnext : { utcTime.setTo t with hour := t.hour + zone - 24 }.addDay =
        utcTime.setTo (t.addHours zone) := by
      rw [DateTime.addHours_next (by omega) (by omega)]
      exact addDay_setTo (t := { t with
        hour := t.hour + zone - 24, hour_nonneg := by omega, hour_lt := by omega }) hlast
    rw [if_pos hcarry, hnext, if_neg]
    exact Int.not_lt.mpr (t.addHours zone).hour_nonneg
  rw [if_neg hcarry]
  by_cases hborrow : t.hour + zone < 0
  · rw [if_pos hborrow, DateTime.addHours_prev (by omega) (by omega)]
    exact subDay_setTo (t := { t with
      hour := t.hour + zone + 24, hour_nonneg := by omega, hour_lt := by omega })
        (hlastLast hborrow)
  · rw [if_neg hborrow, DateTime.addHours_same (by omega) (by omega)]
    rfl

/-- The day before the first of a month, whatever the struct holds. -/
theorem transeTimeZoneT_first {t : DateTime} (utcTime : UTCTime)
    (h₀ : -12 ≤ getTimeZone localHour) (hborrow : t.hour + getTimeZone localHour < 0)
    (hfirst : t.date.day = 1) :
    (transeTimeZoneT localHour (utcTime.setTo t)).day = utcTime.lastLastDay ∧
      (transeTimeZoneT localHour (utcTime.setTo t)).year = t.date.prev.year ∧
      (transeTimeZoneT localHour (utcTime.setTo t)).month = t.date.prev.month := by
  have hnonneg := t.hour_nonneg
  have hhour : (utcTime.setTo t).hour = t.hour := rfl
  have hcarry : ¬ t.hour + getTimeZone localHour ≥ 24 := by omega
  unfold transeTimeZoneT
  dsimp only
  rw [hhour, if_neg hcarry, if_pos hborrow]
  exact subDay_first (t := { t with
    hour := t.hour + getTimeZone localHour + 24, hour_nonneg := by omega, hour_lt := by omega })
      hfirst

end Carries

/-! ## The whole conversion -/

/-- The hour that `localtime_r` shows in a zone that is `zone` hours east. -/
def shiftedHour (zone time : Int) : Int := (DateTime.ofSeconds (time + 3600 * zone)).hour

/-- The zone comes out right but for the three that are a day from another. -/
theorem getTimeZone_shiftedHour {zone : Int} (h₀ : -12 ≤ zone) (h₁ : zone ≤ 14) :
    -11 ≤ getTimeZone (shiftedHour zone) ∧ getTimeZone (shiftedHour zone) ≤ 12 ∧
      (getTimeZone (shiftedHour zone) = zone ↔ -11 ≤ zone ∧ zone ≤ 12) := by
  have hhour : shiftedHour zone 0 = (0 + 3600 * zone) % 86400 / 3600 := rfl
  unfold getTimeZone
  rw [hhour]
  split <;> omega

theorem utcTimeToLocal_eq {t : DateTime} (ht : FourDigits t) {buf : Bytes}
    (hbuf : cstr buf = utcText t) (localHour : Int → Int) (stack : UTCTime) :
    ∃ utcTime : UTCTime, utcTime.lastDay = monthLength t.date.year t.date.month ∧
      utcTime.lastLastDay = (parseDayAmount t.date.month t.date.year stack.lastLastDay).2 ∧
      utcTimeToLocal localHour stack (some buf) =
        if (transeTimeZoneT localHour (utcTime.setTo t)).print.length < 25 then
          (0, some (writeAt buf 0 ((transeTimeZoneT localHour (utcTime.setTo t)).print ++ [0])))
        else (1, some (writeAt buf 0 [0])) := by
  refine ⟨{ stack with
    lastDay := (parseDayAmount t.date.month t.date.year stack.lastLastDay).1
    lastLastDay := (parseDayAmount t.date.month t.date.year stack.lastLastDay).2 },
    parseDayAmount_fst t.date.one_le_month t.date.month_le _ _, rfl, ?_⟩
  unfold utcTimeToLocal
  dsimp only
  rw [hbuf, scan_utcText ht]
  rfl

/-- The first of a month whose last month has no length, in a zone where it is a day earlier. -/
def BorrowsUnset (t : DateTime) (zone : Int) : Prop :=
  t.date.day = 1 ∧ t.hour + zone < 0 ∧ LastMonthUnset t.date.month

/-- Where no length is missing, the text is that of the zone that was read. -/
theorem utcTimeToLocal_of_set {t : DateTime} (ht : FourDigits t) {buf : Bytes}
    (hbuf : cstr buf = utcText t) (localHour : Int → Int) (h₀ : -12 ≤ getTimeZone localHour)
    (h₁ : getTimeZone localHour ≤ 12) (hlocal : FourDigits (t.addHours (getTimeZone localHour)))
    (hset : ¬ BorrowsUnset t (getTimeZone localHour)) (stack : UTCTime) :
    utcTimeToLocal localHour stack (some buf) =
      (0, some (writeAt buf 0 (localText (t.addHours (getTimeZone localHour)) ++ [0]))) := by
  obtain ⟨utcTime, hlast, hlastLast, heq⟩ := utcTimeToLocal_eq ht hbuf localHour stack
  have hmonth := t.date.one_le_month
  have hset : t.hour + getTimeZone localHour < 0 → t.date.day = 1 → ¬ LastMonthUnset t.date.month :=
    fun hborrow hfirst hunset => hset ⟨hfirst, hborrow, hunset⟩
  have hshift := transeTimeZoneT_setTo h₀ h₁ hlast fun hborrow hfirst => by
    refine ⟨?_, hlastLast.trans
      (parseDayAmount_snd hmonth t.date.month_le (hset hborrow hfirst) _ _)⟩
    have hjanuary : t.date.month ≠ 1 := fun h => hset hborrow hfirst (.inl h)
    omega
  rw [heq, hshift, print_setTo hlocal, localText_length, if_pos (by decide)]

/-- Where it is, some stack makes it a text of no date. -/
theorem utcTimeToLocal_of_unset {t : DateTime} (ht : FourDigits t) {buf : Bytes}
    (hbuf : cstr buf = utcText t) (localHour : Int → Int) (h₀ : -12 ≤ getTimeZone localHour)
    (hlocal : 1 ≤ t.date.year) (hunset : BorrowsUnset t (getTimeZone localHour)) {stack : UTCTime}
    (hstack : stack.lastLastDay = 0) {u : DateTime} (hu : FourDigits u) :
    utcTimeToLocal localHour stack (some buf) ≠ (0, some (writeAt buf 0 (localText u ++ [0]))) := by
  obtain ⟨utcTime, -, hlastLast, heq⟩ := utcTimeToLocal_eq ht hbuf localHour stack
  obtain ⟨hfirst, hborrow, hunset⟩ := hunset
  obtain ⟨hday, hyear, hmonth⟩ := transeTimeZoneT_first utcTime h₀ hborrow hfirst
  have hprev := t.date.prev_year
  have hlt := ht.lt
  have hone := t.date.prev.one_le_month
  have hle := t.date.prev.month_le
  rw [parseDayAmount_unset hunset, hstack] at hlastLast
  have hne : (transeTimeZoneT localHour (utcTime.setTo t)).print ≠ localText u :=
    print_ne_localText (by omega) (by omega) (by omega) (by omega) (hday.trans hlastLast) hu
  rw [heq]
  split
  · intro h
    exact hne (writeAt_inj (zero_not_mem_print _) (zero_not_mem_localText _)
      (Option.some.inj (Prod.mk.inj h).2))
  · intro h
    cases (Prod.mk.inj h).1

section Conversion

variable {t : DateTime} {zone : Int} {buf : Bytes}

/-- **When the text is the local time**: the zone is not one of the three that the hour does not
tell from another, and no length is missing. -/
theorem utcTimeToLocal_iff (hyear : 1 ≤ t.date.year) (hyear' : t.date.year ≤ 9998)
    (hzone : -12 ≤ zone) (hzone' : zone ≤ 14) (hbuf : cstr buf = utcText t) :
    (∀ stack, utcTimeToLocal (shiftedHour zone) stack (some buf) =
        (0, some (writeAt buf 0 (localText (t.addHours zone) ++ [0])))) ↔
      (-11 ≤ zone ∧ zone ≤ 12) ∧ ¬ BorrowsUnset t zone := by
  obtain ⟨h₀, h₁, hread⟩ := getTimeZone_shiftedHour hzone hzone'
  have ht : FourDigits t := ⟨by omega, by omega⟩
  have hfour : ∀ hours : Int, -24 ≤ hours → hours ≤ 24 → FourDigits (t.addHours hours) := by
    intro hours h h'
    have hshift := DateTime.addHours_year (t := t) h h'
    exact ⟨by omega, by omega⟩
  have hset := utcTimeToLocal_of_set ht hbuf (shiftedHour zone) (by omega) h₁
    (hfour _ (by omega) (by omega))
  have hunset := utcTimeToLocal_of_unset ht hbuf (shiftedHour zone) (by omega) hyear
  constructor
  · intro hall
    by_cases hborrow : BorrowsUnset t (getTimeZone (shiftedHour zone))
    · exact absurd (hall ⟨0, 0, 0, 0, 0, 0, 0, 0⟩)
        (hunset hborrow rfl (hfour zone (by omega) (by omega)))
    have htext := (hset hborrow ⟨0, 0, 0, 0, 0, 0, 0, 0⟩).symm.trans (hall _)
    have hsame := localText_inj (hfour _ (by omega) (by omega)) (hfour zone (by omega) (by omega))
      (writeAt_inj (zero_not_mem_localText _) (zero_not_mem_localText _)
        (Option.some.inj (Prod.mk.inj htext).2))
    have hzone := DateTime.addHours_injective hsame
    exact ⟨hread.mp hzone, hzone ▸ hborrow⟩
  · intro hcond stack
    have hzone := hread.mpr hcond.1
    rw [hzone] at hset
    exact hset hcond.2 stack

/-- Noon of 1970-06-15. -/
def juneNoon : DateTime where
  date :=
    { year := 1970, month := 6, day := 15
      one_le_month := by decide, month_le := by decide
      one_le_day := by decide, day_le := by decide }
  hour := 12
  minute := 0
  second := 0
  hour_nonneg := by decide
  hour_lt := by decide
  minute_nonneg := by decide
  minute_lt := by decide
  second_nonneg := by decide
  second_lt := by decide

def juneBuffer : Bytes := ascii "1970-06-15T12:00:00Z" ++ [0, 0, 0, 0, 0]

theorem juneBuffer_text : cstr juneBuffer = utcText juneNoon := by decide +kernel

theorem utcTimeToLocal_iff_shanghai :
    utcTimeToLocal (shiftedHour 8) ⟨0, 0, 0, 0, 0, 0, 0, 0⟩ (some juneBuffer) =
      (0, some (writeAt juneBuffer 0 (localText (juneNoon.addHours 8) ++ [0]))) :=
  (utcTimeToLocal_iff (by decide) (by decide) (by decide) (by decide) juneBuffer_text).mpr
    ⟨by decide, fun h => absurd h.1 (by decide)⟩ _

/-- **13 hours east is taken for 11 hours west.** -/
theorem utcTimeToLocal_thirteen : ¬ ∀ (t : DateTime) (zone : Int) (stack : UTCTime) (buf : Bytes),
    1 ≤ t.date.year → t.date.year ≤ 9998 → -12 ≤ zone → zone ≤ 14 → 25 ≤ buf.length →
    cstr buf = utcText t →
    utcTimeToLocal (shiftedHour zone) stack (some buf) =
      (0, some (writeAt buf 0 (localText (t.addHours zone) ++ [0]))) := by
  intro hall
  have htext := hall juneNoon 13 ⟨0, 0, 0, 0, 0, 0, 0, 0⟩ juneBuffer (by decide) (by decide)
    (by decide) (by decide) (by decide) juneBuffer_text
  have hwritten : utcTimeToLocal (shiftedHour 13) ⟨0, 0, 0, 0, 0, 0, 0, 0⟩ (some juneBuffer) =
      (0, some (ascii "1970/06/15 01:00:00 " ++ [0, 0, 0, 0, 0])) := by decide +kernel
  have hlocal : localText (juneNoon.addHours 13) = ascii "1970/06/16 01:00:00 " := by
    decide +kernel
  rw [hwritten, hlocal] at htext
  exact absurd htext (by decide +kernel)

end Conversion

end CdfCrypto
