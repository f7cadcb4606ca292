import Mathlib.Algebra.Group.Int.Defs
import Mathlib.Algebra.Group.Nat.Defs
import Mathlib.Algebra.Ring.Int.Defs
import Mathlib.Logic.Function.Iterate
import Mathlib.Tactic.Ext

/-!
# The proleptic Gregorian calendar

Dates of every integer year (the year 0 stands before the year 1), the days counted from
1970-01-01, and times of a day to the second. Nothing here knows of a text form or of a zone.

A `Date` carries the proof that its month has that day, so the only thing to say about a
computation with dates is where it ends. `dayNumber_next` and `dayNumber_prev` say that the
calendar has no gaps, `Date.eq_of_dayNumber_eq` that it names no day twice; together they make
`Date.ofDay` the inverse of `Date.dayNumber`, and `DateTime.ofSeconds` that of
`DateTime.seconds`.
-/

namespace CdfCrypto.Lib

/-! ## Years and months -/

/-- A year of 366 days. -/
def isLeap (year : Int) : Bool := year % 400 = 0 || year % 4 = 0 && year % 100 ≠ 0

/-- The days of a month. -/
def monthLength (year month : Int) : Int :=
  if month = 2 then if isLeap year then 29 else 28
  else if month = 4 ∨ month = 6 ∨ month = 9 ∨ month = 11 then 30
  else 31

/-- The number of the first day of a year. -/
def daysBeforeYear (year : Int) : Int :=
  365 * (year - 1) + (year - 1) / 4 - (year - 1) / 100 + (year - 1) / 400 - 719162

/-- The days of a year before one of its months. -/
def daysBeforeMonth (year month : Int) : Int :=
  (367 * month - 362) / 12 - if month ≤ 2 then 0 else if isLeap year then 1 else 2

theorem isLeap_iff {year : Int} :
    isLeap year = true ↔ year % 400 = 0 ∨ year % 4 = 0 ∧ year % 100 ≠ 0 := by
  simp [isLeap]

theorem monthLength_pos (year month : Int) : 28 ≤ monthLength year month := by
  unfold monthLength
  split
  · split <;> omega
  · split <;> omega

theorem monthLength_le (year month : Int) : monthLength year month ≤ 31 := by
  unfold monthLength
  split
  · split <;> omega
  · split <;> omega

theorem daysBeforeMonth_one (year : Int) : daysBeforeMonth year 1 = 0 := by
  unfold daysBeforeMonth
  rw [if_pos (by omega)]
  rfl

theorem daysBeforeMonth_succ (year month : Int) (hone : 1 ≤ month) (hle : month ≤ 12) :
    daysBeforeMonth year (month + 1) = daysBeforeMonth year month + monthLength year month := by
  have hmonth : month = 1 ∨ month = 2 ∨ month = 3 ∨ month = 4 ∨ month = 5 ∨ month = 6 ∨ month = 7 ∨
      month = 8 ∨ month = 9 ∨ month = 10 ∨ month = 11 ∨ month = 12 := by omega
  unfold daysBeforeMonth monthLength
  generalize isLeap year = leap
  revert leap
  rcases hmonth with rfl | rfl | rfl | rfl | rfl | rfl | rfl | rfl | rfl | rfl | rfl | rfl
  all_goals decide

theorem daysBeforeYear_succ (year : Int) :
    daysBeforeYear (year + 1) = daysBeforeYear year + daysBeforeMonth year 13 := by
  unfold daysBeforeYear daysBeforeMonth
  rw [if_neg (by omega)]
  by_cases hleap : isLeap year = true
  · rw [if_pos hleap]
    have hleap := isLeap_iff.mp hleap
    omega
  · rw [if_neg hleap]
    have hleap := mt isLeap_iff.mpr hleap
    omega

theorem daysBeforeYear_mono {y z : Int} (h : y < z) :
    daysBeforeYear (y + 1) ≤ daysBeforeYear z := by
  unfold daysBeforeYear
  omega

theorem daysBeforeMonth_mono (year : Int) {m n : Int} (h : m < n) :
    daysBeforeMonth year (m + 1) ≤ daysBeforeMonth year n := by
  unfold daysBeforeMonth
  repeat' split
  all_goals omega

/-! ## Dates -/

/-- A day of the calendar. -/
@[ext] structure Date where
  year : Int
  month : Int
  day : Int
  one_le_month : 1 ≤ month
  month_le : month ≤ 12
  one_le_day : 1 ≤ day
  day_le : day ≤ monthLength year month
deriving DecidableEq

namespace Date

variable {d e : Date}

/-- The days since 1970-01-01. -/
def dayNumber (d : Date) : Int :=
  daysBeforeYear d.year + daysBeforeMonth d.year d.month + (d.day - 1)

/-- The day after. -/
def next (d : Date) : Date :=
  if hday : d.day < monthLength d.year d.month then
    { d with
      day := d.day + 1
      one_le_day := Int.le_add_one d.one_le_day
      day_le := hday }
  else if hmonth : d.month < 12 then
    { year := d.year, month := d.month + 1, day := 1
      one_le_month := Int.le_add_one d.one_le_month
      month_le := hmonth
      one_le_day := Int.le_refl 1
      day_le := Int.le_trans (by decide) (monthLength_pos _ _) }
  else
    { year := d.year + 1, month := 1, day := 1
      one_le_month := Int.le_refl 1
      month_le := by decide
      one_le_day := Int.le_refl 1
      day_le := Int.le_trans (by decide) (monthLength_pos _ _) }

/-- The day before. -/
def prev (d : Date) : Date :=
  if hday : 1 < d.day then
    { d with
      day := d.day - 1
      one_le_day := Int.le_sub_one_of_lt hday
      day_le := Int.le_trans (Int.sub_le_self _ (by decide)) d.day_le }
  else if hmonth : 1 < d.month then
    { year := d.year, month := d.month - 1, day := monthLength d.year (d.month - 1)
      one_le_month := Int.le_sub_one_of_lt hmonth
      month_le := Int.le_trans (Int.sub_le_self _ (by decide)) d.month_le
      one_le_day := Int.le_trans (by decide) (monthLength_pos _ _)
      day_le := Int.le_refl _ }
  else
    { year := d.year - 1, month := 12, day := 31
      one_le_month := by decide
      month_le := Int.le_refl 12
      one_le_day := by decide
      day_le := Int.le_refl 31 }

theorem next_year (d : Date) : d.year ≤ d.next.year ∧ d.next.year ≤ d.year + 1 := by
  have hstep : d.next.year = d.year ∨ d.next.year = d.year + 1 := by
    unfold next
    split
    · exact .inl rfl
    split
    · exact .inl rfl
    · exact .inr rfl
  omega

theorem prev_year (d : Date) : d.year - 1 ≤ d.prev.year ∧ d.prev.year ≤ d.year := by
  have hstep : d.prev.year = d.year ∨ d.prev.year = d.year - 1 := by
    unfold prev
    split
    · exact .inl rfl
    split
    · exact .inl rfl
    · exact .inr rfl
  omega

/-- **No gap** after a day. -/
theorem dayNumber_next (d : Date) : d.next.dayNumber = d.dayNumber + 1 := by
  have hle := d.month_le
  have hday := d.day_le
  have hsucc := daysBeforeMonth_succ d.year d.month d.one_le_month hle
  unfold next
  split
  · show daysBeforeYear d.year + daysBeforeMonth d.year d.month + (d.day + 1 - 1) = _
    unfold dayNumber
    omega
  split
  · show daysBeforeYear d.year + daysBeforeMonth d.year (d.month + 1) + (1 - 1) = _
    unfold dayNumber
    omega
  · show daysBeforeYear (d.year + 1) + daysBeforeMonth (d.year + 1) 1 + (1 - 1) = _
    have hmonth : d.month + 1 = 13 := by omega
    rw [hmonth] at hsucc
    unfold dayNumber
    rw [daysBeforeYear_succ, daysBeforeMonth_one]
    omega

/-- **No gap** before a day. -/
theorem dayNumber_prev (d : Date) : d.prev.dayNumber = d.dayNumber - 1 := by
  have hone := d.one_le_month
  have hle := d.month_le
  have hday := d.one_le_day
  unfold prev
  split
  · show daysBeforeYear d.year + daysBeforeMonth d.year d.month + (d.day - 1 - 1) = _
    unfold dayNumber
    omega
  split
  · show daysBeforeYear d.year + daysBeforeMonth d.year (d.month - 1) +
      (monthLength d.year (d.month - 1) - 1) = _
    have hsucc := daysBeforeMonth_succ d.year (d.month - 1) (by omega) (by omega)
    rw [Int.sub_add_cancel] at hsucc
    unfold dayNumber
    omega
  · show daysBeforeYear (d.year - 1) + daysBeforeMonth (d.year - 1) 12 + (31 - 1) = _
    have hmonth : d.month = 1 := by omega
    have hyear := daysBeforeYear_succ (d.year - 1)
    rw [Int.sub_add_cancel] at hyear
    have hsucc : daysBeforeMonth (d.year - 1) 13 = daysBeforeMonth (d.year - 1) 12 + 31 :=
      daysBeforeMonth_succ _ 12 (by decide) (by decide)
    unfold dayNumber
    rw [hmonth, daysBeforeMonth_one]
    omega

/-- A day lies in its month, and that in its year. -/
theorem dayNumber_bounds (d : Date) :
    daysBeforeYear d.year + daysBeforeMonth d.year d.month ≤ d.dayNumber ∧
      d.dayNumber < daysBeforeYear d.year + daysBeforeMonth d.year (d.month + 1) ∧
      daysBeforeYear d.year ≤ d.dayNumber ∧ d.dayNumber < daysBeforeYear (d.year + 1) := by
  have hsucc := daysBeforeMonth_succ d.year d.month d.one_le_month d.month_le
  have hone := d.one_le_day
  have hday := d.day_le
  have hfirst : daysBeforeMonth d.year 1 ≤ daysBeforeMonth d.year d.month := by
    rcases Int.le_iff_lt_or_eq.mp d.one_le_month with hlt | heq
    · have hstep : daysBeforeMonth d.year 2 ≤ _ := daysBeforeMonth_mono d.year hlt
      have htwo : daysBeforeMonth d.year 2 = daysBeforeMonth d.year 1 + 31 :=
        daysBeforeMonth_succ _ 1 (by decide) (by decide)
      omega
    · exact Int.le_of_eq (congrArg _ heq)
  have hlast : daysBeforeMonth d.year (d.month + 1) ≤ daysBeforeMonth d.year 13 :=
    daysBeforeMonth_mono d.year (Int.lt_add_one_of_le d.month_le)
  rw [daysBeforeMonth_one] at hfirst
  rw [daysBeforeYear_succ]
  unfold dayNumber
  omega

/-- **No day has two names.** -/
theorem eq_of_dayNumber_eq (h : d.dayNumber = e.dayNumber) : d = e := by
  obtain ⟨hd₁, hd₂, hd₃, hd₄⟩ := d.dayNumber_bounds
  obtain ⟨he₁, he₂, he₃, he₄⟩ := e.dayNumber_bounds
  have hyear : d.year = e.year := by
    rcases Int.lt_trichotomy d.year e.year with hlt | heq | hlt
    · have := daysBeforeYear_mono hlt
      omega
    · exact heq
    · have := daysBeforeYear_mono hlt
      omega
  rw [← hyear] at he₁ he₂
  have hmonth : d.month = e.month := by
    rcases Int.lt_trichotomy d.month e.month with hlt | heq | hlt
    · have := daysBeforeMonth_mono d.year hlt
      omega
    · exact heq
    · have := daysBeforeMonth_mono d.year hlt
      omega
  have hday : d.day = e.day := by
    unfold dayNumber at h
    rw [← hyear, ← hmonth] at h
    omega
  exact Date.ext hyear hmonth hday

/-- 1970-01-01. -/
def epoch : Date where
  year := 1970
  month := 1
  day := 1
  one_le_month := Int.le_refl 1
  month_le := by decide
  one_le_day := Int.le_refl 1
  day_le := by decide

theorem dayNumber_epoch : epoch.dayNumber = 0 := by decide

/-- The date of a day. -/
def ofDay (n : Int) : Date := if 0 ≤ n then next^[n.toNat] epoch else prev^[(-n).toNat] epoch

theorem dayNumber_iterate_next (n : Nat) : (next^[n] epoch).dayNumber = n := by
  induction n with
  | zero => exact dayNumber_epoch
  | succ n ih => rw [Function.iterate_succ_apply', dayNumber_next, ih, Int.natCast_succ]

theorem dayNumber_iterate_prev (n : Nat) : (prev^[n] epoch).dayNumber = -n := by
  induction n with
  | zero => exact dayNumber_epoch
  | succ n ih =>
    rw [Function.iterate_succ_apply', dayNumber_prev, ih, Int.natCast_succ]
    omega

/-- **Every day has a date.** -/
@[simp] theorem dayNumber_ofDay (n : Int) : (ofDay n).dayNumber = n := by
  unfold ofDay
  split
  · rw [dayNumber_iterate_next]
    omega
  · rw [dayNumber_iterate_prev]
    omega

@[simp] theorem ofDay_dayNumber (d : Date) : ofDay d.dayNumber = d :=
  eq_of_dayNumber_eq (dayNumber_ofDay _)

end Date

/-! ## Times of a day -/

/-- A second of the calendar. -/
@[ext] structure DateTime where
  date : Date
  hour : Int
  minute : Int
  second : Int
  hour_nonneg : 0 ≤ hour
  hour_lt : hour < 24
  minute_nonneg : 0 ≤ minute
  minute_lt : minute < 60
  second_nonneg : 0 ≤ second
  second_lt : second < 60
deriving DecidableEq

namespace DateTime

/-- The seconds since the start of 1970-01-01. -/
def seconds (t : DateTime) : Int :=
  t.date.dayNumber * 86400 + t.hour * 3600 + t.minute * 60 + t.second

/-- The date and time of a second. -/
def ofSeconds (n : Int) : DateTime where
  date := Date.ofDay (n / 86400)
  hour := n % 86400 / 3600
  minute := n % 3600 / 60
  second := n % 60
  hour_nonneg := by omega
  hour_lt := by omega
  minute_nonneg := by omega
  minute_lt := by omega
  second_nonneg := by omega
  second_lt := by omega

/-- **Every second has a date and time.** -/
@[simp] theorem seconds_ofSeconds (n : Int) : (ofSeconds n).seconds = n := by
  show (Date.ofDay (n / 86400)).dayNumber * 86400 + n % 86400 / 3600 * 3600 +
    n % 3600 / 60 * 60 + n % 60 = n
  rw [Date.dayNumber_ofDay]
  omega

/-- **No second has two names.** -/
theorem eq_of_seconds_eq {t u : DateTime} (h : t.seconds = u.seconds) : t = u := by
  obtain ⟨d, h₁, m₁, s₁, _, _, _, _, _, _⟩ := t
  obtain ⟨e, h₂, m₂, s₂, _, _, _, _, _, _⟩ := u
  unfold seconds at h
  dsimp only at h
  have hdate : d = e := Date.eq_of_dayNumber_eq (by omega)
  subst hdate
  obtain ⟨rfl, rfl, rfl⟩ : h₁ = h₂ ∧ m₁ = m₂ ∧ s₁ = s₂ := by omega
  rfl

@[simp] theorem ofSeconds_seconds (t : DateTime) : ofSeconds t.seconds = t :=
  eq_of_seconds_eq (seconds_ofSeconds _)

/-- The second `hours` later. -/
def addHours (t : DateTime) (hours : Int) : DateTime := ofSeconds (t.seconds + 3600 * hours)

/-- Whole hours later, minute and second are the same, and the day and hour make up the rest. -/
theorem addHours_eq {t : DateTime} {d : Date} {hours hour : Int} (hour_nonneg : 0 ≤ hour)
    (hour_lt : hour < 24)
    (h : d.dayNumber * 24 + hour = t.date.dayNumber * 24 + t.hour + hours) :
    t.addHours hours = { t with date := d, hour, hour_nonneg, hour_lt } := by
  refine eq_of_seconds_eq ((seconds_ofSeconds _).trans ?_)
  unfold seconds
  dsimp only
  omega

/-- The three dates that a shift by at most a day comes to. -/
theorem addHours_same {t : DateTime} {hours : Int} (h₀ : 0 ≤ t.hour + hours)
    (h₁ : t.hour + hours < 24) : t.addHours hours =
      { t with hour := t.hour + hours, hour_nonneg := h₀, hour_lt := h₁ } :=
  addHours_eq h₀ h₁ (by omega)

theorem addHours_next {t : DateTime} {hours : Int} (h₀ : 0 ≤ t.hour + hours - 24)
    (h₁ : t.hour + hours - 24 < 24) : t.addHours hours =
      { t with
        date := t.date.next, hour := t.hour + hours - 24, hour_nonneg := h₀, hour_lt := h₁ } :=
  addHours_eq h₀ h₁ (by rw [Date.dayNumber_next]; omega)

theorem addHours_prev {t : DateTime} {hours : Int} (h₀ : 0 ≤ t.hour + hours + 24)
    (h₁ : t.hour + hours + 24 < 24) : t.addHours hours =
      { t with
        date := t.date.prev, hour := t.hour + hours + 24, hour_nonneg := h₀, hour_lt := h₁ } :=
  addHours_eq h₀ h₁ (by rw [Date.dayNumber_prev]; omega)

theorem addHours_year {t : DateTime} {hours : Int} (h₀ : -24 ≤ hours) (h₁ : hours ≤ 24) :
    t.date.year - 1 ≤ (t.addHours hours).date.year ∧
      (t.addHours hours).date.year ≤ t.date.year + 1 := by
  have hnonneg := t.hour_nonneg
  have hlt := t.hour_lt
  by_cases hprev : t.hour + hours < 0
  · rw [addHours_prev (by omega) (by omega)]
    have hyear := t.date.prev_year
    exact ⟨hyear.1, by dsimp only; omega⟩
  by_cases hsame : t.hour + hours < 24
  · rw [addHours_same (by omega) hsame]
    dsimp only
    omega
  · rw [addHours_next (by omega) (by omega)]
    have hyear := t.date.next_year
    exact ⟨by dsimp only; omega, hyear.2⟩

theorem addHours_injective {t : DateTime} {m n : Int} (h : t.addHours m = t.addHours n) :
    m = n := by
  have hseconds := congrArg seconds h
  unfold addHours at hseconds
  rw [seconds_ofSeconds, seconds_ofSeconds] at hseconds
  omega

end DateTime

end CdfCrypto.Lib
