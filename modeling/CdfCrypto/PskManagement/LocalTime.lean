import CdfCrypto.Lib.Calendar
import CdfCrypto.PskManagement.Backup

/-!
# Times through their text

A PSK's two times are written as the wall clock shows them and read back with the daylight flag
cleared. `strptime` takes apart what `strftime` wrote (`strptime_strftime`), so what comes back
is what `mktime` makes of the fields, and that depends on the zone.

A zone has a standard offset and a saving added to it, both functions of time. `localtime` shows
the sum. `mktime` is asked for a standard time: it gives one that shows the fields, if there is
one, and otherwise reads the fields with the standard offset of a summer time that shows them, a
saving later than that (an idealisation of what the C libraries do). So a time comes back unless
it is a summer time, unless another standard time shows the same, and unless it is -1, which
`ParseTime` takes for a failure (`timeSurvives_iff`).
-/

namespace CdfCrypto.PskManagement

open Lib

/-! ## The text -/

/-- The fields of a date and time. -/
def tmOf (d : DateTime) (tmIsdst : Int) : Tm where
  tmYear := d.date.year - 1900
  tmMon := d.date.month - 1
  tmMday := d.date.day
  tmHour := d.hour
  tmMin := d.minute
  tmSec := d.second
  tmIsdst

theorem tmOf_injective {d e : DateTime} {isdst : Int} (h : tmOf d isdst = tmOf e isdst) :
    d = e := by
  unfold tmOf at h
  simp only [Tm.mk.injEq] at h
  refine DateTime.ext (Date.ext ?_ ?_ ?_) ?_ ?_ ?_
  all_goals omega

/-- A year that is written with four digits. -/
def FourDigitYear (d : DateTime) : Prop := 1000 ≤ d.date.year ∧ d.date.year ≤ 9999

theorem twoDigits_eq {n : Int} (h₀ : 0 ≤ n) (hn : n < 100) : twoDigits n = padded 2 n.toNat := by
  have habs : n.natAbs = n.toNat := by omega
  have hpadded := replicate_append_decimal (w := 1) (n := n.toNat) (by omega)
  have hnumeral : decimalInt n = decimal n.toNat := by
    unfold decimalInt
    rw [habs, if_neg (by omega)]
  unfold twoDigits
  rw [habs, hnumeral, ← hpadded]
  by_cases hshort : n.toNat < 10
  · rw [if_pos hshort, decimal_eq, if_pos hshort]
    rfl
  · have hlength : 1 < (decimal n.toNat).length := by
      rw [decimal_eq, if_neg hshort, List.length_append, List.length_singleton]
      have hne := List.length_pos_iff.mpr (decimal_ne_nil (n.toNat / 10))
      omega
    have hnone : 1 + 1 - (decimal n.toNat).length = 0 := by omega
    rw [if_neg hshort, hnone]
    rfl

theorem takeNumber_padded {hi : Nat} : ∀ {w v n : Nat} (rest : Bytes), n < 10 ^ w →
    v * 10 ^ w + n ≤ hi → takeNumber hi w v (padded w n ++ rest) = (v * 10 ^ w + n, rest)
  | 0, v, n, rest, hn, _ => by
    obtain rfl : n = 0 := by omega
    rw [Nat.pow_zero, Nat.mul_one]
    rfl
  | w + 1, v, n, rest, hn, hle => by
    -- the first digit, and the field of the others
    have hpos : 0 < 10 ^ w := Nat.pow_pos (by decide)
    have hpow : 10 * 10 ^ w = 10 ^ (w + 1) := Nat.pow_succ'.symm
    have hdigit : n / 10 ^ w < 10 := Nat.div_lt_of_lt_mul (by rwa [Nat.mul_comm, hpow])
    have hvalue : (v * 10 + n / 10 ^ w) * 10 ^ w + n % 10 ^ w = v * 10 ^ (w + 1) + n := by
      rw [Nat.add_mul, Nat.add_assoc, Nat.div_add_mod', Nat.mul_assoc, hpow]
    have hlow : v * 10 ≤ hi := by
      have hmul : v * 10 ≤ v * 10 * 10 ^ w := Nat.le_mul_of_pos_right _ hpos
      rw [Nat.mul_assoc, hpow] at hmul
      omega
    obtain ⟨hisDigit, hdigitValue⟩ := digit_spec _ hdigit
    rw [padded_cons, List.cons_append, takeNumber, Nat.mod_eq_of_lt hdigit,
      if_pos ⟨hlow, hisDigit⟩, hdigitValue, ← padded_mod,
      takeNumber_padded rest (Nat.mod_lt _ hpos) (by omega), hvalue]

/-- No blank comes before a number. -/
theorem dropWhile_padded (w n : Nat) (rest : Bytes) :
    (padded (w + 1) n ++ rest).dropWhile isSpace = padded (w + 1) n ++ rest := by
  have hdigit : isDigit (digit (n / 10 ^ w % 10)) = true :=
    (digit_spec _ (Nat.mod_lt _ (by decide))).1
  have hspace : ¬ isSpace (digit (n / 10 ^ w % 10)) = true :=
    Bool.eq_false_iff.mp (isDigit_spec _ hdigit).1
  rw [padded_cons, List.cons_append, List.dropWhile_cons, if_neg hspace]

theorem getNumber_padded {lo hi w n : Nat} (rest : Bytes) (hn : n < 10 ^ (w + 1)) (hlo : lo ≤ n)
    (hhi : n ≤ hi) : getNumber lo hi (w + 1) (padded (w + 1) n ++ rest) = some (n, rest) := by
  have hpos : 0 < 10 ^ w := Nat.pow_pos (by decide)
  have hdigit : n / 10 ^ w < 10 := Nat.div_lt_of_lt_mul (by rwa [← Nat.pow_succ])
  have hisDigit := (digit_spec _ hdigit).1
  have htake : takeNumber hi (w + 1) 0 (padded (w + 1) n ++ rest) =
      (0 * 10 ^ (w + 1) + n, rest) :=
    takeNumber_padded rest hn (by omega)
  unfold getNumber
  dsimp only
  rw [dropWhile_padded, htake, padded_cons, Nat.mod_eq_of_lt hdigit,
    if_pos (by simpa using hisDigit)]
  dsimp only
  rw [Nat.zero_mul, Nat.zero_add, if_pos ⟨hlo, hhi⟩]

section Text

variable {d : DateTime}

/-- `YYYY-MM-DD hh:mm:ss`. -/
def wallText (d : DateTime) : Bytes :=
  padded 4 d.date.year.toNat ++ (45 :: (padded 2 d.date.month.toNat ++ (45 ::
    (padded 2 d.date.day.toNat ++ (32 :: (padded 2 d.hour.toNat ++ (58 ::
      (padded 2 d.minute.toNat ++ (58 :: (padded 2 d.second.toNat ++ []))))))))))

theorem wallText_length (d : DateTime) : (wallText d).length = 19 := by
  unfold wallText
  simp only [List.length_append, List.length_cons, padded_length, List.length_nil]

theorem zero_not_mem_wallText (d : DateTime) : ∀ b ∈ wallText d, b ≠ 0 := by
  have hzero : ∀ w n, (0 : UInt8) ∉ padded w n := fun _ _ h =>
    (isDigit_spec 0 (isDigit_of_mem_padded h)).2 rfl
  intro b hb heq
  subst heq
  unfold wallText at hb
  simp only [List.mem_append, List.mem_cons, hzero, false_or, List.not_mem_nil, or_false] at hb
  exact absurd hb (by decide)

theorem strftime_tmOf (h : FourDigitYear d) (isdst : Int) :
    strftime (tmOf d isdst) = wallText d := by
  have hmonth := d.date.one_le_month
  have hmonth' := d.date.month_le
  have hday := d.date.one_le_day
  have hday' := Int.le_trans d.date.day_le (monthLength_le _ _)
  have hyear : decimalInt d.date.year = padded 4 d.date.year.toNat := by
    obtain ⟨hlow, hhigh⟩ := h
    have habs : d.date.year.natAbs = d.date.year.toNat := by omega
    unfold decimalInt
    rw [if_neg (by omega), habs, decimal_eq_padded (w := 3) (by omega) (by omega)]
  unfold strftime tmOf wallText
  dsimp only
  rw [Int.sub_add_cancel, Int.sub_add_cancel, hyear, twoDigits_eq (by omega) (by omega),
    twoDigits_eq (by omega) (by omega),
    twoDigits_eq d.hour_nonneg (Int.lt_trans d.hour_lt (by decide)),
    twoDigits_eq d.minute_nonneg (Int.lt_trans d.minute_lt (by decide)),
    twoDigits_eq d.second_nonneg (Int.lt_trans d.second_lt (by decide))]
  simp only [List.append_assoc, List.append_nil]
  rfl

/-- **`strptime` reads what `strftime` wrote**, but for the daylight flag. -/
theorem strptime_wallText (h : FourDigitYear d) : strptime (wallText d) = some (tmOf d 0, []) := by
  have hmonth := d.date.one_le_month
  have hmonth' := d.date.month_le
  have hday := d.date.one_le_day
  have hday' := Int.le_trans d.date.day_le (monthLength_le _ _)
  have hhour := d.hour_nonneg
  have hhour' := d.hour_lt
  have hminute := d.minute_nonneg
  have hminute' := d.minute_lt
  have hsecond := d.second_nonneg
  have hsecond' := d.second_lt
  obtain ⟨hyear, hyear'⟩ := h
  have hchar : ∀ (c : UInt8) (rest : Bytes), matchChar c (c :: rest) = some rest := fun _ _ =>
    if_pos rfl
  -- the blank goes, and no digit of the hour with it
  have hblank : ∀ rest : Bytes, (32 :: (padded (1 + 1) d.hour.toNat ++ rest)).dropWhile isSpace =
      padded (1 + 1) d.hour.toNat ++ rest := by
    intro rest
    rw [List.dropWhile_cons, if_pos (by decide), dropWhile_padded]
  have htm : tmOf d 0 =
      { tmYear := ↑d.date.year.toNat - 1900, tmMon := ↑d.date.month.toNat - 1
        tmMday := ↑d.date.day.toNat, tmHour := ↑d.hour.toNat, tmMin := ↑d.minute.toNat
        tmSec := ↑d.second.toNat, tmIsdst := 0 } := by
    unfold tmOf
    rw [Tm.mk.injEq]
    omega
  unfold strptime wallText
  simp only [Option.bind_eq_bind, hchar, Option.bind_some,
    getNumber_padded _ (show d.date.year.toNat < 10 ^ (3 + 1) by omega) (Nat.zero_le _)
      (show d.date.year.toNat ≤ 9999 by omega),
    getNumber_padded _ (show d.date.month.toNat < 10 ^ (1 + 1) by omega)
      (show 1 ≤ d.date.month.toNat by omega) (show d.date.month.toNat ≤ 12 by omega),
    getNumber_padded _ (show d.date.day.toNat < 10 ^ (1 + 1) by omega)
      (show 1 ≤ d.date.day.toNat by omega) (show d.date.day.toNat ≤ 31 by omega),
    hblank,
    getNumber_padded _ (show d.hour.toNat < 10 ^ (1 + 1) by omega) (Nat.zero_le _)
      (show d.hour.toNat ≤ 23 by omega),
    getNumber_padded _ (show d.minute.toNat < 10 ^ (1 + 1) by omega) (Nat.zero_le _)
      (show d.minute.toNat ≤ 59 by omega),
    getNumber_padded _ (show d.second.toNat < 10 ^ (1 + 1) by omega) (Nat.zero_le _)
      (show d.second.toNat ≤ 61 by omega), htm]

end Text

/-! ## Zones -/

/-- The offset of a zone's standard time, and what is added to it; a summer time is one where
something is. -/
structure Zone where
  standard : Int → Int
  saving : Int → Int

namespace Zone

variable (Z : Zone)

/-- What the clocks of the zone show. -/
def wallClock (t : Int) : DateTime := DateTime.ofSeconds (t + Z.standard t + Z.saving t)

/-- The fields are shown at `t`. -/
def Shows (t : Int) (tm : Tm) : Prop := tm = tmOf (Z.wallClock t) 0

/-- What `mktime` may make of fields with a cleared daylight flag: a standard time that shows
them; where none does, a summer time that shows them, read with its standard offset. The second is
an idealisation: which offset applies there is the library's own choice, and glibc may take that of
a neighbouring period. -/
def Reads (tm : Tm) (r : Int) : Prop :=
  Z.saving r = 0 ∧ Z.Shows r tm ∨
    (∀ u, Z.Shows u tm → Z.saving u ≠ 0) ∧ ∃ u, Z.Shows u tm ∧ r = u + Z.saving u

/-- Fields that are shown are read as something. -/
theorem exists_reads {t : Int} {tm : Tm} (h : Z.Shows t tm) : ∃ r, Z.Reads tm r := by
  by_cases hstandard : ∃ u, Z.Shows u tm ∧ Z.saving u = 0
  · obtain ⟨u, hshows, hsaving⟩ := hstandard
    exact ⟨u, .inl ⟨hsaving, hshows⟩⟩
  · exact ⟨_, .inr ⟨fun u hshows hsaving => hstandard ⟨u, hshows, hsaving⟩, t, h, rfl⟩⟩

/-- **When the reading is the time itself.** -/
theorem reads_eq_iff {t : Int} : (∀ r, Z.Reads (tmOf (Z.wallClock t) 0) r → r = t) ↔
    Z.saving t = 0 ∧ ∀ u, Z.saving u = 0 → Z.wallClock u = Z.wallClock t → u = t := by
  constructor
  · intro hall
    have hunique : ∀ u, Z.saving u = 0 → Z.wallClock u = Z.wallClock t → u = t :=
      fun u hsaving hwall => hall u (.inl ⟨hsaving, by unfold Shows; rw [hwall]⟩)
    refine ⟨?_, hunique⟩
    by_contra hsaving
    -- no standard time shows these fields, or it would be `t`
    have hsummer : ∀ u, Z.Shows u (tmOf (Z.wallClock t) 0) → Z.saving u ≠ 0 := by
      intro u hshows hzero
      rw [hunique u hzero (tmOf_injective hshows).symm] at hzero
      exact hsaving hzero
    have hlater := hall (t + Z.saving t) (.inr ⟨hsummer, t, rfl, rfl⟩)
    omega
  · intro hcond r hreads
    obtain ⟨hsaving, hunique⟩ := hcond
    obtain ⟨hzero, hshows⟩ | ⟨hsummer, -⟩ := hreads
    · exact hunique r hzero (tmOf_injective hshows).symm
    · exact absurd hsaving (hsummer t rfl)

end Zone

/-- The C library in a zone: `localtime` shows the clocks, `mktime` reads them. -/
structure InZone (H : Host) (Z : Zone) : Prop where
  localtime : ∀ t, FourDigitYear (Z.wallClock t) →
    H.localtime t = some (tmOf (Z.wallClock t) (if Z.saving t = 0 then 0 else 1))
  /-- Of a summer clock this is an idealisation, as `Zone.Reads` says. -/
  mktime : ∀ tm, (∃ t, Z.Shows t tm) → Z.Reads tm (H.mktime tm)

section Times

variable {H : Host} {Z : Zone} {t : Int}

/-- What comes back is what `mktime` makes of the wall clock. -/
theorem timeSurvives_mktime_iff (hzone : InZone H Z) (hyear : FourDigitYear (Z.wallClock t)) :
    TimeSurvives H t ↔ t ≠ -1 ∧ H.mktime (tmOf (Z.wallClock t) 0) = t := by
  have hformat : formatTime H t = some (wallText (Z.wallClock t)) := by
    unfold formatTime
    rw [hzone.localtime t hyear]
    dsimp only
    rw [strftime_tmOf hyear, wallText_length, if_pos (by decide)]
  have hcstr := cstr_of_forall_ne (zero_not_mem_wallText (Z.wallClock t))
  have hparse : parseTime H (cstr (wallText (Z.wallClock t))) =
      if H.mktime (tmOf (Z.wallClock t) 0) = -1 then none
      else some (H.mktime (tmOf (Z.wallClock t) 0)) := by
    unfold parseTime
    rw [hcstr, hcstr, strptime_wallText hyear]
  unfold TimeSurvives
  constructor
  · intro hsurvives
    obtain ⟨text, htext, hback⟩ := hsurvives
    obtain rfl := Option.some.inj (hformat.symm.trans htext)
    rw [hparse] at hback
    split at hback
    · cases hback
    next hne =>
      have hsame := Option.some.inj hback
      exact ⟨hsame ▸ hne, hsame⟩
  · intro hcond
    refine ⟨_, hformat, ?_⟩
    rw [hparse, hcond.2, if_neg hcond.1]

open Classical in
/-- Every reading is one that some library gives. -/
theorem exists_inZone {tm : Tm} {r : Int} (hreads : Z.Reads tm r) :
    ∃ H, InZone H Z ∧ H.mktime tm = r := by
  refine ⟨{
    localtime := fun t => some (tmOf (Z.wallClock t) (if Z.saving t = 0 then 0 else 1))
    mktime := fun tm' =>
      if tm' = tm then r else if h : ∃ r, Z.Reads tm' r then h.choose else -1
    buffer := fun _ => []
    json := ⟨fun _ => none, fun _ => []⟩ }, ⟨fun _ _ => rfl, fun tm' hshown => ?_⟩, if_pos rfl⟩
  obtain ⟨t, hshows⟩ := hshown
  have hsome := Z.exists_reads hshows
  dsimp only
  split
  next heq => rwa [heq]
  · exact hsome.choose_spec

/-- **When a time survives its text** in every library of the zone: it is not the one that
`mktime` reports failures with, it is a standard time, and no other standard time shows the
same. -/
theorem timeSurvives_iff (hyear : FourDigitYear (Z.wallClock t)) :
    (∀ H, InZone H Z → TimeSurvives H t) ↔
      t ≠ -1 ∧ Z.saving t = 0 ∧ ∀ u, Z.saving u = 0 → Z.wallClock u = Z.wallClock t → u = t := by
  rw [← Z.reads_eq_iff]
  constructor
  · intro hall
    have hback : ∀ r, Z.Reads (tmOf (Z.wallClock t) 0) r → t ≠ -1 ∧ r = t := by
      intro r hreads
      obtain ⟨H, hzone, hmktime⟩ := exists_inZone hreads
      have hsurvives := (timeSurvives_mktime_iff hzone hyear).mp (hall H hzone)
      rwa [hmktime] at hsurvives
    obtain ⟨r, hreads⟩ := Z.exists_reads (t := t) rfl
    exact ⟨(hback r hreads).1, fun r hreads => (hback r hreads).2⟩
  · intro hcond H hzone
    exact (timeSurvives_mktime_iff hzone hyear).mpr
      ⟨hcond.1, hcond.2 _ (hzone.mktime _ ⟨t, rfl⟩)⟩

end Times

/-! ## A zone with a summer -/

/-- The second that fields stand for. -/
def Tm.seconds (tm : Tm) : Int :=
  (daysBeforeYear (tm.tmYear + 1900) + daysBeforeMonth (tm.tmYear + 1900) (tm.tmMon + 1) +
    (tm.tmMday - 1)) * 86400 + tm.tmHour * 3600 + tm.tmMin * 60 + tm.tmSec

theorem seconds_tmOf (d : DateTime) (isdst : Int) : (tmOf d isdst).seconds = d.seconds := by
  unfold Tm.seconds tmOf DateTime.seconds Date.dayNumber
  dsimp only
  rw [Int.sub_add_cancel, Int.sub_add_cancel]

/-- A zone with one standard offset, and a library that reads every clock with it. -/
def fixedZone (offset : Int) (saving : Int → Int) : Zone := ⟨fun _ => offset, saving⟩

def fixedHost (offset : Int) (saving : Int → Int) : Host where
  localtime t := some (tmOf ((fixedZone offset saving).wallClock t) (if saving t = 0 then 0 else 1))
  mktime tm := tm.seconds - offset
  buffer _ := []
  json := ⟨fun _ => none, fun _ => []⟩

theorem fixedZone_seconds {offset t : Int} {saving : Int → Int} :
    ((fixedZone offset saving).wallClock t).seconds = t + offset + saving t :=
  DateTime.seconds_ofSeconds _

theorem fixedHost_inZone (offset : Int) (saving : Int → Int) :
    InZone (fixedHost offset saving) (fixedZone offset saving) where
  localtime t _ := rfl
  mktime tm hshown := by
    obtain ⟨t, rfl⟩ := hshown
    have hread : (fixedHost offset saving).mktime (tmOf ((fixedZone offset saving).wallClock t) 0) =
        t + saving t := by
      show (tmOf _ 0).seconds - offset = _
      rw [seconds_tmOf, fixedZone_seconds]
      omega
    rw [hread]
    by_cases hstandard : saving (t + saving t) = 0
    · refine .inl ⟨hstandard, congrArg (tmOf · 0) (DateTime.eq_of_seconds_eq ?_)⟩
      rw [fixedZone_seconds, fixedZone_seconds, hstandard]
      omega
    · refine .inr ⟨fun u hshows hsaving => hstandard ?_, t, rfl, rfl⟩
      have hseconds := congrArg DateTime.seconds (tmOf_injective hshows)
      rw [fixedZone_seconds, fixedZone_seconds, show saving u = 0 from hsaving] at hseconds
      have hsame : u = t + saving t := by omega
      rw [← hsame]
      exact hsaving

theorem timeSurvives_iff_greenwich : TimeSurvives (fixedHost 0 fun _ => 0) 0 := by
  refine (timeSurvives_iff (by unfold FourDigitYear; decide)).mpr ⟨by decide, rfl, ?_⟩ _
    (fixedHost_inZone 0 fun _ => 0)
  intro u _ hwall
  have hseconds := congrArg DateTime.seconds hwall
  rw [fixedZone_seconds, fixedZone_seconds] at hseconds
  omega

/-- An hour of saving for the first 100 days of 1970. -/
def springSaving (t : Int) : Int := if 0 ≤ t ∧ t < 8640000 then 3600 else 0

/-- **A time in the summer comes back an hour late.** -/
theorem timeSurvives_summer : ¬ ∀ (H : Host) (Z : Zone) (t : Int), InZone H Z →
    FourDigitYear (Z.wallClock t) → TimeSurvives H t := by
  intro hall
  have hzone := fixedHost_inZone 3600 springSaving
  have hyear : FourDigitYear ((fixedZone 3600 springSaving).wallClock 864000) := by
    unfold FourDigitYear
    decide
  have hback := ((timeSurvives_mktime_iff hzone hyear).mp (hall _ _ _ hzone hyear)).2
  exact absurd hback (by decide +kernel)

end CdfCrypto.PskManagement
