import Mathlib.Data.Int.ConditionallyCompleteOrder
import Mathlib.Data.Int.Interval
import Mathlib.Tactic.IntervalCases
import Tracelane.Gateway.Calendar

/-
  The calendar's keys and windows agree: a window's instants
  are those of one key, and later windows have larger keys.
-/

namespace Tracelane.Gateway

--
-- Months
--

/- The first day of a month, counted from March of year 0. -/
def firstDay (n : Int) : Int :=
  let year := n / 12
  365 * year + year / 4 - year / 100 + year / 400 + (153 * (n % 12) + 2) / 5 - 719468

def Date.marchMonth (d : Date) : Int :=
  12 * d.year + d.month - 3

theorem firstDay_eq {year month : Int} (hLow : 0 ≤ month) (hHigh : month < 12) :
    firstDay (12 * year + month) =
      365 * year + year / 4 - year / 100 + year / 400 + (153 * month + 2) / 5 - 719468 := by
  have hYear : (12 * year + month) / 12 = year := by omega
  have hMonth : (12 * year + month) % 12 = month := by omega
  rw [firstDay, hYear, hMonth]

theorem daysFromCivil_eq {d : Date} (hLow : 1 ≤ d.month) (hHigh : d.month ≤ 12) :
    daysFromCivil d = firstDay d.marchMonth + d.day - 1 := by
  rcases d with ⟨year, month, day⟩
  simp only [daysFromCivil, Date.marchMonth] at *
  split
  · have hSplit : 12 * year + month - 3 = 12 * (year - 1) + (month + 9) := by omega
    rw [hSplit, firstDay_eq (by omega) (by omega)]
    omega
  · have hSplit : 12 * year + month - 3 = 12 * year + (month - 3) := by omega
    rw [hSplit, firstDay_eq (by omega) (by omega)]
    omega

theorem firstDay_strictMono : StrictMono firstDay := by
  refine strictMono_int_of_lt_succ (fun n => ?_)
  simp only [firstDay]
  omega

variable (days : Int)

/- A day by its era, century, four years, year, and rest. -/
theorem exists_parts :
    ∃ era c k r s : Int,
      days + 719468 = 146097 * era + 36524 * c + 1461 * k + 365 * r + s ∧
        (0 ≤ c ∧ c ≤ 3) ∧ (0 ≤ k ∧ k ≤ 24) ∧
        (0 ≤ r ∧ r ≤ 3) ∧ (0 ≤ s ∧ s ≤ 365) ∧
        (s = 365 → r = 3 ∧ (k = 24 → c = 3)) := by
  let z := days + 719468
  let c := min 3 (z % 146097 / 36524)
  let x := z % 146097 - 36524 * c
  let k := min 24 (x / 1461)
  let r := min 3 ((x - 1461 * k) / 365)
  exact ⟨z / 146097, c, k, r, x - 1461 * k - 365 * r, by omega,
    by omega, by omega, by omega, by omega, by omega⟩

theorem yearOfEra_eq {c k r s doe : Int}
    (hDoe : doe = 36524 * c + 1461 * k + 365 * r + s) (hC : 0 ≤ c ∧ c ≤ 3)
    (hK : 0 ≤ k ∧ k ≤ 24) (hR : 0 ≤ r ∧ r ≤ 3) (hS : 0 ≤ s ∧ s ≤ 365)
    (hLeap : s = 365 → r = 3 ∧ (k = 24 → c = 3)) :
    (doe - doe / 1460 + doe / 36524 - doe / 146096) / 365 = 100 * c + 4 * k + r := by
  have hCentury : doe / 36524 - doe / 146096 = c := by
    have hLast : 1461 * k + 365 * r + s < 36524 ∨ (c = 3 ∧ doe = 146096) := by omega
    cases hLast with
    | inl hBelow =>
      have hFull : doe / 36524 = c := by omega
      have hEra : doe / 146096 = 0 := by omega
      omega
    | inr hEnd => omega
  have hFour : doe / 1460 = 25 * c + k + (24 * c + k + 365 * r + s) / 1460 := by omega
  have hCarry :
      (24 * c + k + 365 * r + s) / 1460 ≤ s ∧ s < 365 + (24 * c + k + 365 * r + s) / 1460 := by
    omega
  generalize (24 * c + k + 365 * r + s) / 1460 = carry at hFour hCarry
  have hShift :
      doe - doe / 1460 + doe / 36524 - doe / 146096 =
        365 * (100 * c + 4 * k + r) + (s - carry) := by
    omega
  rw [hShift]
  omega

/- The days before a year, from those before its era. -/
theorem yearDays_eq {c k r : Int} (era : Int) (hC : 0 ≤ c ∧ c ≤ 3)
    (hK : 0 ≤ k ∧ k ≤ 24) (hR : 0 ≤ r ∧ r ≤ 3) :
    (400 * era + 100 * c + 4 * k + r) / 4 = 100 * era + 25 * c + k ∧
      (400 * era + 100 * c + 4 * k + r) / 100 = 4 * era + c ∧
      (400 * era + 100 * c + 4 * k + r) / 400 = era := by
  omega

theorem civilFromDays_spec :
    let d := civilFromDays days
    (1 ≤ d.month ∧ d.month ≤ 12) ∧
      (1 ≤ d.day ∧ d.day ≤ 31) ∧
      days = firstDay d.marchMonth + d.day - 1 ∧
      days < firstDay (d.marchMonth + 1) := by
  rcases exists_parts days with ⟨era, c, k, r, s, hDays, hC, hK, hR, hS, hLeap⟩
  have hEra : (days + 719468) / 146097 = era := by omega
  have hDoe : (days + 719468) % 146097 = 36524 * c + 1461 * k + 365 * r + s := by omega
  have hYear := yearDays_eq era hC hK hR
  have hYearDay :
      (days + 719468) % 146097 -
        (365 * (100 * c + 4 * k + r) +
          (100 * c + 4 * k + r) / 4 - (100 * c + 4 * k + r) / 100) = s := by
    have hHere := yearDays_eq 0 hC hK hR
    simp only [Int.mul_zero, Int.zero_add] at hHere
    omega
  have hDate :
      (civilFromDays days).marchMonth = 12 * (400 * era + 100 * c + 4 * k + r) + (5 * s + 2) / 153 ∧
        (1 ≤ (civilFromDays days).month ∧ (civilFromDays days).month ≤ 12) ∧
        (civilFromDays days).day = s - (153 * ((5 * s + 2) / 153) + 2) / 5 + 1 := by
    simp only [civilFromDays, hEra, Date.marchMonth, yearOfEra_eq hDoe hC hK hR hS hLeap, hYearDay]
    refine ⟨?_, ?_, trivial⟩
    · split <;> split <;> omega
    · split <;> omega
  clear hDoe hYearDay hEra
  generalize hMonth : (5 * s + 2) / 153 = month at hDate
  generalize hYearIs : 400 * era + 100 * c + 4 * k + r = year at hDate hYear
  simp only [hDate.1, hDate.2.2]
  refine ⟨hDate.2.1, by omega, ?_, ?_⟩
  · rw [firstDay_eq (by omega) (by omega)]
    omega
  · cases Decidable.em (month = 11) with
    | inl hLast =>
      have hNext : 12 * year + month + 1 = 12 * (year + 1) + 0 := by omega
      rw [hNext, firstDay_eq (Int.le_refl 0) (by omega)]
      omega
    | inr hInside =>
      rw [Int.add_assoc, firstDay_eq (by omega) (by omega)]
      omega

theorem firstDay_gc :
    GaloisConnection firstDay (fun days => (civilFromDays days).marchMonth) := by
  intro n days
  have hSpec := civilFromDays_spec days
  refine ⟨fun hFirst => ?_, fun hMonth => ?_⟩
  · exact Int.lt_add_one_iff.mp (firstDay_strictMono.lt_iff_lt.mp
      (Int.lt_of_le_of_lt hFirst hSpec.2.2.2))
  · refine (firstDay_strictMono.monotone hMonth).trans ?_
    change firstDay (civilFromDays days).marchMonth ≤ days
    omega

def newYear (year : Int) : Int :=
  daysFromCivil ⟨year, 1, 1⟩

theorem newYear_gc :
    GaloisConnection newYear (fun days => (civilFromDays days).year) := by
  intro year days
  have hSpec := civilFromDays_spec days
  have hFirst := firstDay_gc (12 * year + 1 - 3) days
  have hDays := daysFromCivil_eq (d := ⟨year, 1, 1⟩) (Int.le_refl 1) (by simp)
  simp only [Date.marchMonth, newYear] at *
  omega

theorem newYear_succ (year : Int) :
    newYear year + 365 ≤ newYear (year + 1) ∧ newYear (year + 1) ≤ newYear year + 366 := by
  simp only [newYear, daysFromCivil]
  omega

theorem newYear_spec :
    newYear (civilFromDays days).year ≤ days ∧ days < newYear ((civilFromDays days).year + 1) := by
  refine ⟨newYear_gc.l_u_le days, ?_⟩
  by_contra hNext
  exact Int.not_le.mpr (Int.lt_succ _) ((newYear_gc _ days).mp (Int.not_lt.mp hNext))

--
-- Periods
--

def dayKey (days : Int) : Int :=
  let d := civilFromDays days
  d.year * 10000 + d.month * 100 + d.day

def weekKey (days : Int) : Int :=
  (isoWeek days).1 * 100 + (isoWeek days).2

def monthKey (days : Int) : Int :=
  (civilFromDays days).year * 100 + (civilFromDays days).month

/- Days cut into periods, each with a key, in their order. -/
structure Periods (first next key : Int → Int) : Prop where
  own : ∀ d, first d ≤ d ∧ d < next d
  same : ∀ d e, first d ≤ e → e < next d → first e = first d ∧ key e = key d
  later : ∀ d e, next d ≤ e → key d < key e

variable {first next key : Int → Int}

theorem Periods.key_eq_iff (hPeriods : Periods first next key) (d e : Int) :
    key d = key e ↔ first d ≤ e ∧ e < next d := by
  refine ⟨fun hKey => ?_, fun hIn => (hPeriods.same d e hIn.1 hIn.2).2.symm⟩
  have hBefore : e < next d := by
    by_contra hAfter
    have hLater := hPeriods.later d e (Int.not_lt.mp hAfter)
    omega
  refine ⟨?_, hBefore⟩
  by_contra hEarlier
  have hD := hPeriods.own d
  have hE := hPeriods.own e
  cases lt_or_ge d (next e) with
  | inl hInside =>
    have hSame := hPeriods.same e d (by omega) hInside
    omega
  | inr hPast =>
    have hLater := hPeriods.later e d hPast
    omega

theorem periods_monthly :
    Periods (fun d => firstDay (civilFromDays d).marchMonth)
      (fun d => firstDay ((civilFromDays d).marchMonth + 1))
      monthKey := by
  refine ⟨fun d => ⟨firstDay_gc.l_u_le d, (civilFromDays_spec d).2.2.2⟩,
    fun d e hFirst hNext => ?_, fun d e hNext => ?_⟩
  · have hLow := (firstDay_gc _ e).mp hFirst
    have hHigh := (firstDay_gc _ e).not.mp (Int.not_le.mpr hNext)
    have hMonth := le_antisymm (Int.lt_add_one_iff.mp (Int.not_le.mp hHigh)) hLow
    have hD := civilFromDays_spec d
    have hE := civilFromDays_spec e
    refine ⟨congrArg firstDay hMonth, ?_⟩
    simp only [Date.marchMonth, monthKey] at hMonth ⊢
    omega
  · have hLow := (firstDay_gc _ e).mp hNext
    have hD := civilFromDays_spec d
    have hE := civilFromDays_spec e
    simp only [Date.marchMonth, monthKey] at *
    omega

theorem periods_daily :
    Periods (fun d => d) (fun d => d + 1) dayKey := by
  refine ⟨fun d => by omega, fun d e _ _ => ?_,
    fun d e hNext => ?_⟩
  · have hSame : e = d := by omega
    rw [hSame]
    exact ⟨rfl, rfl⟩
  · have hMonth := firstDay_gc.monotone_u (Int.le_of_lt hNext)
    have hD := civilFromDays_spec d
    have hE := civilFromDays_spec e
    cases Int.lt_or_eq_of_le hMonth with
    | inl hBefore =>
      simp only [Date.marchMonth, dayKey] at hBefore ⊢
      omega
    | inr hSame =>
      simp only [hSame] at hD
      simp only [Date.marchMonth, dayKey] at hSame hD hE ⊢
      omega

/- The days of a week, by its Thursday. -/
theorem thursday_spec (d : Int) :
    d - 3 ≤ d - numDaysFromMonday d + 3 ∧ d - numDaysFromMonday d + 3 ≤ d + 3 := by
  simp only [numDaysFromMonday]
  omega

theorem isoWeek_spec (d : Int) :
    (civilFromDays d).year - 1 ≤ (isoWeek d).1 ∧
      (isoWeek d).1 ≤ (civilFromDays d).year + 1 ∧
      1 ≤ (isoWeek d).2 ∧ (isoWeek d).2 ≤ 53 := by
  have hThursday := thursday_spec d
  simp only [isoWeek]
  generalize d - numDaysFromMonday d + 3 = a at hThursday ⊢
  have hDay := newYear_spec d
  have hWeek := newYear_spec a
  have hLong := newYear_succ (civilFromDays a).year
  have hBefore := newYear_succ ((civilFromDays d).year - 1)
  have hAfter := newYear_succ ((civilFromDays d).year + 1)
  have hLow := newYear_gc ((civilFromDays d).year - 1) a
  have hHigh := newYear_gc ((civilFromDays d).year + 1 + 1) a
  rw [Int.sub_add_cancel] at hBefore
  simp only [newYear] at *
  omega

theorem periods_weekly :
    Periods (fun d => d - numDaysFromMonday d) (fun d => d - numDaysFromMonday d + 7) weekKey := by
  refine ⟨fun d => ?_, fun d e hFirst hNext => ?_, fun d e hNext => ?_⟩
  · simp only [numDaysFromMonday]
    omega
  · have hSame : e - numDaysFromMonday e = d - numDaysFromMonday d := by
      simp only [numDaysFromMonday] at *
      omega
    simp only [weekKey, isoWeek, hSame]
    exact ⟨trivial, trivial⟩
  · have hD := isoWeek_spec d
    have hE := isoWeek_spec e
    have hWeek : d - numDaysFromMonday d + 3 + 7 ≤ e - numDaysFromMonday e + 3 := by
      simp only [numDaysFromMonday] at *
      omega
    have hYear := newYear_gc.monotone_u (by omega :
      d - numDaysFromMonday d + 3 ≤ e - numDaysFromMonday e + 3)
    cases Int.lt_or_eq_of_le hYear with
    | inl hBefore =>
      simp only [weekKey, isoWeek] at *
      omega
    | inr hSame =>
      simp only [weekKey, isoWeek, hSame]
      omega

/- From year 1 to the year before the last one of chrono's dates, so that windows end in range. -/
abbrev InRange (now : DateTime) : Prop :=
  1 ≤ (civilFromDays (dayIndex now)).year ∧ (civilFromDays (dayIndex now)).year ≤ 262141

/-
  The key of `t` is that of the instants of its window, `t` is
  one of them, and what comes after has a larger key.
-/
def Agrees (window : BudgetWindow) (t u : DateTime) : Prop :=
  ∃ reset,
    resetsAt window t = some reset ∧
      (periodKey window t = periodKey window u ↔ windowStart window t ≤ u ∧ u < reset) ∧
      (windowStart window t ≤ t ∧ t < reset) ∧
      (reset ≤ u → periodKey window t < periodKey window u)

theorem u32Key_cast {n : Int} (hFits : 0 ≤ n ∧ n < 4294967296) :
    (u32Key n : Int) = n := by
  rw [u32Key, Int.emod_eq_of_lt hFits.1 hFits.2, Int.toNat_of_nonneg hFits.1]

theorem Periods.agrees {window : BudgetWindow} {t u : DateTime} (hPeriods : Periods first next key)
    (hStart : windowStart window t = first (dayIndex t) * secsPerDay)
    (hReset : resetsAt window t = some (next (dayIndex t) * secsPerDay))
    (hT : (periodKey window t : Int) = key (dayIndex t))
    (hU : (periodKey window u : Int) = key (dayIndex u)) :
    Agrees window t u := by
  have hDay : ∀ n now, n * secsPerDay ≤ now ↔ n ≤ dayIndex now :=
    fun n now => (Int.le_ediv_iff_mul_le (by decide)).symm
  have hIff := hPeriods.key_eq_iff (dayIndex t) (dayIndex u)
  have hLater := hPeriods.later (dayIndex t) (dayIndex u)
  rw [← hT, ← hU] at hIff hLater
  refine ⟨_, hReset, ?_, ?_, fun hNext => ?_⟩
  · rw [hStart, ← Int.not_le, hDay, hDay, Int.not_le, ← hIff, Int.natCast_inj]
  · rw [hStart, ← Int.not_le, hDay, hDay, Int.not_le]
    exact hPeriods.own (dayIndex t)
  · exact Int.ofNat_lt.mp (hLater ((hDay _ u).mp hNext))

theorem windowStart_monthly (t : DateTime) :
    windowStart .monthly t = firstDay (civilFromDays (dayIndex t)).marchMonth * secsPerDay := by
  have hSpec := civilFromDays_spec (dayIndex t)
  exact congrArg (· * secsPerDay) (by omega)

theorem resetsAt_monthly (t : DateTime) :
    resetsAt .monthly t =
      some (firstDay ((civilFromDays (dayIndex t)).marchMonth + 1) * secsPerDay) := by
  simp only [resetsAt, windowStart_monthly, dayIndex,
    Int.mul_ediv_cancel _ (by decide : secsPerDay ≠ 0)]
  generalize (civilFromDays (t / secsPerDay)).marchMonth = n
  have hMonth : (civilFromDays (firstDay n)).marchMonth = n :=
    firstDay_strictMono.injective (firstDay_gc.l_u_l_eq_l n)
  have hSpec := civilFromDays_spec (firstDay n)
  generalize civilFromDays (firstDay n) = d at hMonth hSpec
  have hNext :
      ∀ m, m = n + 1 →
        some ((firstDay m + 1 - 1) * secsPerDay) = some (firstDay (n + 1) * secsPerDay) := by
    rintro m rfl
    rw [Int.add_sub_cancel]
  simp only [Date.marchMonth] at hMonth
  split
  · rw [daysFromCivil_eq (by simp) (by simp)]
    exact hNext _ (by simp only [Date.marchMonth]; omega)
  · rw [daysFromCivil_eq (by simp only; omega) (by simp only; omega)]
    exact hNext _ (by simp only [Date.marchMonth]; omega)

theorem periodKey_agrees {window : BudgetWindow} {t u : DateTime}
    (hCalendar : window.rollingHours = none) (hT : InRange t) (hU : InRange u) :
    Agrees window t u := by
  cases window with
  | daily =>
    have hKey : ∀ now, InRange now → _ := fun now hNow =>
      u32Key_cast (n := dayKey (dayIndex now)) (by
        have hSpec := civilFromDays_spec (dayIndex now)
        simp only [InRange, dayKey] at hNow ⊢
        omega)
    exact periods_daily.agrees rfl (congrArg some (Int.add_mul _ 1 _).symm) (hKey t hT) (hKey u hU)
  | weekly =>
    have hKey : ∀ now, InRange now → _ := fun now hNow =>
      u32Key_cast (n := weekKey (dayIndex now)) (by
        have hSpec := isoWeek_spec (dayIndex now)
        simp only [InRange, weekKey] at hNow ⊢
        omega)
    exact periods_weekly.agrees rfl (congrArg some (Int.add_mul _ 7 _).symm) (hKey t hT) (hKey u hU)
  | monthly =>
    have hKey : ∀ now, InRange now → _ := fun now hNow =>
      u32Key_cast (n := monthKey (dayIndex now)) (by
        have hSpec := civilFromDays_spec (dayIndex now)
        simp only [InRange, monthKey] at hNow ⊢
        omega)
    exact periods_monthly.agrees (windowStart_monthly t)
      (resetsAt_monthly t) (hKey t hT) (hKey u hU)
  | rolling1h | rolling24h | rolling7d | rolling30d => cases hCalendar

/- Two days of the ISO week 40 of 2026. -/
theorem sampleWeek_agrees :
    Agrees .weekly 1791115200 1791028800 :=
  periodKey_agrees rfl (by decide) (by decide)

end Tracelane.Gateway
