import Mathlib.Algebra.Group.Nat.Defs
/-! The calendar of `rtc.c`: `rtc_time_to_epoch_seconds` and `rtc_epoch_to_calendar`. -/
namespace DeanOS.Rtc

/-- `rtc_time_t`. -/
@[ext] structure Time where
  year : Nat
  month : Nat
  day : Nat
  hour : Nat
  minute : Nat
  second : Nat

def isLeapYear (year : Nat) : Bool := year % 4 == 0 && year % 100 != 0 || year % 400 == 0

def yearLength (leap : Bool) : Nat := if leap then 366 else 365

/-- The loop over the years before the one this many years after 1970. -/
def daysBeforeYear : Nat → Nat
  | 0 => 0
  | n + 1 => daysBeforeYear n + yearLength (isLeapYear (1970 + n))

/-- The entry of `days_before_month`, and February 29. -/
def daysBeforeMonth (leap : Bool) (month : Nat) : Nat :=
  [0, 31, 59, 90, 120, 151, 181, 212, 243, 273, 304, 334].getD (month - 1) 0 + if 2 < month ∧ leap then 1 else 0

/-- The seconds before they are cut to 32 bits. -/
def Time.seconds (t : Time) : Nat :=
  (daysBeforeYear (t.year - 1970) + daysBeforeMonth (isLeapYear t.year) t.month + (t.day - 1)) * 86400 +
    t.hour * 3600 + t.minute * 60 + t.second

def timeToEpochSeconds (t : Time) : Nat :=
  if t.year < 1970 ∨ t.month < 1 ∨ 12 < t.month ∨ t.day < 1 ∨ 31 < t.day ∨ 23 < t.hour ∨ 59 < t.minute ∨ 59 < t.second then 0
  else t.seconds % 2 ^ 32

/-- The entry of `month_lengths` for a month counted from 0, and the longer February. -/
def monthLength (leap : Bool) (month : Nat) : Nat :=
  if month = 1 ∧ leap then 29 else [31, 28, 31, 30, 31, 30, 31, 31, 30, 31, 30, 31].getD month 0

/-- The loop over the years: every year takes a day at least. -/
def splitYears : Nat → Nat → Nat → Nat × Nat
  | 0, year, days => (year, days)
  | rounds + 1, year, days =>
    let length := yearLength (isLeapYear year)
    if days < length then (year, days) else splitYears rounds (year + 1) (days - length)

/-- The loop over the months, of which a year has 12. -/
def splitMonths (leap : Bool) : Nat → Nat → Nat → Nat × Nat
  | 0, month, days => (month, days)
  | rounds + 1, month, days =>
    if days < monthLength leap month then (month, days) else splitMonths leap rounds (month + 1) (days - monthLength leap month)

def epochToCalendar (epoch : Nat) : Time :=
  let rem := epoch % 86400
  let years := splitYears (epoch / 86400) 1970 (epoch / 86400)
  let months := splitMonths (isLeapYear years.1) 12 0 years.2
  ⟨years.1 % 2 ^ 16, (months.1 + 1) % 2 ^ 8, (months.2 + 1) % 2 ^ 8, rem / 3600, rem % 3600 / 60, rem % 60⟩

/-- A time of the Gregorian calendar from 1970 on. -/
structure Time.Valid (t : Time) : Prop where
  year : 1970 ≤ t.year
  month : 1 ≤ t.month ∧ t.month ≤ 12
  day : 1 ≤ t.day ∧ t.day ≤ monthLength (isLeapYear t.year) (t.month - 1)
  hour : t.hour < 24
  minute : t.minute < 60
  second : t.second < 60

/-- The calendar order. -/
def Time.Before (t u : Time) : Prop :=
  t.year < u.year ∨ t.year = u.year ∧ (t.month < u.month ∨ t.month = u.month ∧ (t.day < u.day ∨ t.day = u.day ∧
    (t.hour < u.hour ∨ t.hour = u.hour ∧ (t.minute < u.minute ∨ t.minute = u.minute ∧ t.second < u.second))))

/-- The last time with 32-bit seconds. -/
def last : Time := ⟨2106, 2, 7, 6, 28, 15⟩

theorem yearLength_pos (leap : Bool) : 0 < yearLength leap := by
  cases leap <;> decide

theorem splitYears_spec (rounds n days : Nat) (enough : days ≤ rounds) : ∃ m rest, splitYears rounds (1970 + n) days = (1970 + m, rest) ∧
    rest < yearLength (isLeapYear (1970 + m)) ∧ daysBeforeYear m + rest = daysBeforeYear n + days := by
  induction rounds generalizing n days with
  | zero =>
    obtain rfl := Nat.le_zero.mp enough
    exact ⟨n, 0, rfl, yearLength_pos _, rfl⟩
  | succ rounds ih =>
    rw [splitYears]
    split
    case isTrue inside => exact ⟨n, days, rfl, inside, rfl⟩
    case isFalse beyond =>
      have positive := yearLength_pos (isLeapYear (1970 + n))
      obtain ⟨m, rest, result, inside, total⟩ := ih (n + 1) (days - yearLength (isLeapYear (1970 + n))) (by omega)
      refine ⟨m, rest, result, inside, ?_⟩
      rw [total, daysBeforeYear]
      omega

theorem le_daysBeforeYear (n : Nat) : n ≤ daysBeforeYear n := by
  induction n with
  | zero => exact Nat.le_refl 0
  | succ n ih =>
    have := yearLength_pos (isLeapYear (1970 + n))
    rw [daysBeforeYear]
    omega

theorem splitMonths_spec : ∀ leap, ∀ days < yearLength leap, let months := splitMonths leap 12 0 days
    months.1 < 12 ∧ months.2 < monthLength leap months.1 ∧ daysBeforeMonth leap (months.1 + 1) + months.2 = days := by
  decide +kernel

/-- A month ends before a later one begins, and with the year at the latest. -/
theorem month_ends : ∀ leap, ∀ m < 13, ∀ n < 13, 0 < m → monthLength leap (m - 1) ≤ 31 ∧
    daysBeforeMonth leap m + monthLength leap (m - 1) ≤ if m < n then daysBeforeMonth leap n else yearLength leap := by
  decide +kernel

theorem year_ends (later : n < m) : daysBeforeYear n + yearLength (isLeapYear (1970 + n)) ≤ daysBeforeYear m := by
  induction m with
  | zero => omega
  | succ m ih =>
    rw [daysBeforeYear]
    rcases Nat.lt_succ_iff_lt_or_eq.mp later with earlier | rfl
    · have := ih earlier
      omega
    · exact Nat.le_refl _

namespace Time

theorem Valid.seconds_lt (a : Valid t) (b : Valid u) (before : t.Before u) : t.seconds < u.seconds := by
  obtain ⟨year, month, day, hour, minute, second⟩ := a
  obtain ⟨year', month', day', hour', minute', second'⟩ := b
  have ends := month_ends (isLeapYear t.year) t.month (by omega) u.month (by omega) (by omega)
  have years : 1970 + (t.year - 1970) = t.year := by omega
  rw [Before] at before
  rw [seconds, seconds]
  rcases before with earlier | ⟨same, before⟩
  · have := year_ends (n := t.year - 1970) (m := u.year - 1970) (by omega)
    have whole := month_ends (isLeapYear t.year) t.month (by omega) 0 (by omega) (by omega)
    rw [if_neg (by omega)] at whole
    rw [years] at this
    omega
  · rw [← same] at *
    rcases before with earlier | ⟨same, before⟩
    · rw [if_pos earlier] at ends
      omega
    · rw [← same]
      omega

theorem before_trichotomy (t u : Time) : t.Before u ∨ t = u ∨ u.Before t := by
  rw [Before, Before, Time.ext_iff]
  omega

theorem Valid.eq_of_seconds (a : Valid t) (b : Valid u) (same : t.seconds = u.seconds) : t = u := by
  rcases before_trichotomy t u with before | same | after
  · have := a.seconds_lt b before
    omega
  · exact same
  · have := b.seconds_lt a after
    omega

theorem Valid.before_iff (a : Valid t) (b : Valid u) : t.Before u ↔ t.seconds < u.seconds := by
  constructor
  · exact a.seconds_lt b
  · intro less
    rcases before_trichotomy t u with before | rfl | after
    · exact before
    · omega
    · have := b.seconds_lt a after
      omega

theorem last_valid : last.Valid := ⟨by decide, by decide, by decide, by decide, by decide, by decide⟩

theorem last_seconds : last.seconds = 2 ^ 32 - 1 := by decide +kernel

theorem Valid.representable_iff (a : Valid t) : ¬ last.Before t ↔ t.seconds < 2 ^ 32 := by
  rw [last_valid.before_iff a, last_seconds]
  omega

theorem Valid.epoch (a : Valid t) (within : ¬ last.Before t) : timeToEpochSeconds t = t.seconds := by
  have small := a.representable_iff.mp within
  obtain ⟨year, month, day, hour, minute, second⟩ := a
  have ends := month_ends (isLeapYear t.year) t.month (by omega) 0 (by omega) (by omega)
  rw [timeToEpochSeconds, if_neg (by omega), Nat.mod_eq_of_lt small]

end Time

theorem epochToCalendar_spec (below : epoch < 2 ^ 32) : (epochToCalendar epoch).Valid ∧ (epochToCalendar epoch).seconds = epoch := by
  obtain ⟨m, rest, years, inside, total⟩ := splitYears_spec (epoch / 86400) 0 (epoch / 86400) (Nat.le_refl _)
  obtain ⟨twelve, short, days⟩ := splitMonths_spec _ rest inside
  have few := le_daysBeforeYear m
  have first : daysBeforeYear 0 = 0 := rfl
  have bounded := (month_ends (isLeapYear (1970 + m)) _ (Nat.add_lt_add_right twelve 1) 0 (by decide) (Nat.succ_pos _)).1
  rw [epochToCalendar, years]
  generalize splitMonths (isLeapYear (1970 + m)) 12 0 rest = months at *
  rw [Nat.add_sub_cancel] at bounded
  rw [Nat.mod_eq_of_lt (b := 2 ^ 16) (by omega), Nat.mod_eq_of_lt (b := 2 ^ 8) (by omega), Nat.mod_eq_of_lt (b := 2 ^ 8) (by omega)]
  refine ⟨⟨Nat.le_add_right _ _, ⟨Nat.succ_pos _, twelve⟩, ⟨Nat.succ_pos _, short⟩, ?_, ?_, ?_⟩, ?_⟩
  all_goals dsimp only [Time.seconds]
  case refine_4 =>
    rw [Nat.add_sub_cancel_left]
    omega
  all_goals omega

/-- The two functions are inverse to each other up to the last representable time, and order is kept. -/
theorem epoch_calendar_inverse :
    (∀ epoch < 2 ^ 32, (epochToCalendar epoch).Valid ∧ ¬ last.Before (epochToCalendar epoch) ∧
      timeToEpochSeconds (epochToCalendar epoch) = epoch) ∧
    (∀ t : Time, t.Valid → ¬ last.Before t → timeToEpochSeconds t < 2 ^ 32 ∧ epochToCalendar (timeToEpochSeconds t) = t) ∧
    ∀ t u : Time, t.Valid → u.Valid → ¬ last.Before t → ¬ last.Before u →
      (t.Before u ↔ timeToEpochSeconds t < timeToEpochSeconds u) := by
  refine ⟨?_, ?_, ?_⟩
  · intro epoch below
    obtain ⟨valid, same⟩ := epochToCalendar_spec below
    have within := valid.representable_iff.mpr (by rwa [same])
    exact ⟨valid, within, (valid.epoch within).trans same⟩
  · intro t valid within
    have below := valid.representable_iff.mp within
    obtain ⟨again, same⟩ := epochToCalendar_spec below
    rw [valid.epoch within]
    exact ⟨below, again.eq_of_seconds valid same⟩
  · intro t u a b within within'
    rw [a.epoch within, b.epoch within']
    exact a.before_iff b

end DeanOS.Rtc
