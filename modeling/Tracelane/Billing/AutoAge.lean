import Tracelane.Billing.Rating

/-
  Auto-age: the widest indexed window whose projected overage stays under a tenant's spend ceiling.
-/

namespace Tracelane.Billing

section

variable (ceilingUsd : ℚ) (fits : ℤ → ℚ)

/- The binary search, from a window that fits. -/
def widen (lo hi : ℤ) : ℤ :=
  if lo < hi then
    let mid := lo + (hi - lo + 1) / 2
    if fits mid ≤ ceilingUsd then widen mid hi else widen lo (mid - 1)
  else lo
termination_by (hi - lo).toNat

def findAutoAgeWindow (planWindowDays : ℤ) : Option ℤ :=
  if planWindowDays < 1 then none
  else if fits planWindowDays ≤ ceilingUsd then none
  else if fits 1 > ceilingUsd then some 1
  else some (widen ceilingUsd fits 1 planWindowDays)

def affordable (planWindowDays : ℤ) : Set ℤ :=
  { w | w ∈ Set.Icc 1 planWindowDays ∧ fits w ≤ ceilingUsd }

structure Widest (planWindowDays : ℤ) (found : Option ℤ) : Prop where
  unneeded : found = none ↔ planWindowDays < 1 ∨ fits planWindowDays ≤ ceilingUsd
  narrowed :
    ∀ w ∈ found,
      IsGreatest (affordable ceilingUsd fits planWindowDays) w ∨
        affordable ceilingUsd fits planWindowDays = ∅ ∧ w = 1

end

--
-- The Search
--

variable {ceilingUsd : ℚ} {fits : ℤ → ℚ} {lo hi plan w : ℤ}

theorem le_widen : lo ≤ widen ceilingUsd fits lo hi := by
  fun_induction widen with
  | case1 lo hi _ mid _ ih =>
    have hMid : lo ≤ mid := by simp only [mid]; omega
    exact hMid.trans ih
  | case2 _ _ _ _ _ ih => exact ih
  | case3 => exact le_rfl

theorem one_le_findAutoAgeWindow (hFound : w ∈ findAutoAgeWindow ceilingUsd fits plan) :
    1 ≤ w := by
  unfold findAutoAgeWindow at hFound
  split_ifs at hFound <;> cases hFound
  · exact le_rfl
  · exact le_widen

/- `lo` is affordable throughout, and nothing above `hi` is. -/
theorem widen_isGreatest (hCost : MonotoneOn fits (Set.Icc 1 plan))
    (hLo : lo ∈ affordable ceilingUsd fits plan)
    (hHi : hi ∈ upperBounds (affordable ceilingUsd fits plan)) (hPlan : hi ≤ plan) :
    IsGreatest (affordable ceilingUsd fits plan) (widen ceilingUsd fits lo hi) := by
  have hFrom := hLo.1.1
  fun_induction widen with
  | case1 lo hi _ mid hFits ih =>
    have hMid : 1 ≤ mid ∧ mid ≤ plan := by simp only [mid]; omega
    exact ih ⟨hMid, hFits⟩ hHi hPlan hMid.1
  | case2 lo hi _ mid hFits ih =>
    have hMid : 1 ≤ mid ∧ mid ≤ hi := by simp only [mid]; omega
    refine ih hLo (fun w hWindow => ?_) (by omega) hFrom
    by_contra hAbove
    have hMore := hCost ⟨hMid.1, hMid.2.trans hPlan⟩ hWindow.1 (by omega)
    exact hFits (hMore.trans hWindow.2)
  | case3 lo hi hDone =>
    exact ⟨hLo, fun w hWindow => (hHi hWindow).trans (not_lt.mp hDone)⟩

theorem findAutoAgeWindow_widest (hCost : MonotoneOn fits (Set.Icc 1 plan)) :
    Widest ceilingUsd fits plan (findAutoAgeWindow ceilingUsd fits plan) where
  unneeded := by
    unfold findAutoAgeWindow
    split_ifs <;> simp_all
  narrowed := by
    intro w hFound
    unfold findAutoAgeWindow at hFound
    split_ifs at hFound with hPlan _ hOne <;> cases hFound
    · refine .inr ⟨Set.eq_empty_of_forall_notMem (fun w hWindow => ?_), rfl⟩
      have hMore := hCost ⟨le_rfl, not_lt.mp hPlan⟩ hWindow.1 hWindow.1.1
      exact absurd (hMore.trans hWindow.2) (not_le.mpr hOne)
    · exact .inl (widen_isGreatest hCost ⟨⟨le_rfl, not_lt.mp hPlan⟩, not_lt.mp hOne⟩
        (fun w hWindow => hWindow.1.2) le_rfl)

--
-- One Run for a Tenant
--

inductive OverflowMode where
| autoAge
| autoOverage
deriving DecidableEq

/- The resolved entitlements the run reads. -/
structure Ceilings where
  spendCeilingMicroUsd : Option ℤ
  overflowMode : OverflowMode
  ingestBytesIncluded : Option ℕ
  hotBytesIncluded : Option ℕ
  seriesIncluded : Option ℤ
  scanUnitsIncluded : Option ℤ
  evalRunsIncluded : Option ℤ

/- The column has a check that a narrowed window is one day or more. -/
@[ext]
structure TenantMeta where
  indexedWindowDays : ℤ
  autoAgeWindowDays : Option ℤ
  narrowed : ∀ w ∈ autoAgeWindowDays, 1 ≤ w

def TenantMeta.effectiveWindowDays (tenant : TenantMeta) : ℤ :=
  tenant.autoAgeWindowDays.getD tenant.indexedWindowDays

/- What the period has accrued, and the bytes hot in the window now in force. -/
structure Accrued where
  hotBytesAtCurrentWindow : Option ℚ
  seriesPeriod : Option ℚ
  ingestPeriod : Option ℚ
  scanPeriod : Option ℚ
  evalPeriod : Option ℚ

def gb (bytes : ℚ) : ℚ :=
  bytes / 1000000000

section

variable (card : RateCard) (resolved : Ceilings) (accrued : Accrued) (tenant : TenantMeta)

def fixedOverageUsd : ℚ :=
  (rate card .ingestGb (gb (accrued.ingestPeriod.getD 0))
      (resolved.ingestBytesIncluded.map (fun b => gb b)) 0).overageUsd +
    (rate card .series (accrued.seriesPeriod.getD 0)
      (resolved.seriesIncluded.map (↑)) 0).overageUsd +
    (rate card .scanUnits (gb (accrued.scanPeriod.getD 0))
      (resolved.scanUnitsIncluded.map (↑)) 0).overageUsd +
    (rate card .evalRuns (accrued.evalPeriod.getD 0)
      (resolved.evalRunsIncluded.map (↑)) 0).overageUsd

/- Overage with the hot meter projected to the window `w`. -/
def projectedUsd (w : ℤ) : ℚ :=
  let currentWindow := tenant.effectiveWindowDays
  let scale : ℚ := if currentWindow > 0 then w / currentWindow else 0
  let hotGbMonth := gb (accrued.hotBytesAtCurrentWindow.getD 0 * scale)
  fixedOverageUsd card resolved accrued +
    (rate card .hotGbMonth hotGbMonth (resolved.hotBytesIncluded.map (fun b => gb b)) 0).overageUsd

def newWindow : Option ℤ :=
  match resolved.spendCeilingMicroUsd, resolved.overflowMode with
  | some ceiling, .autoAge =>
      findAutoAgeWindow (ceiling / 1000000) (projectedUsd card resolved accrued tenant)
        tenant.indexedWindowDays
  | _, _ => none

theorem one_le_newWindow : ∀ w ∈ newWindow card resolved accrued tenant, 1 ≤ w := by
  unfold newWindow
  intro w hFound
  split at hFound
  · exact one_le_findAutoAgeWindow hFound
  · cases hFound

/- The tenant's row after a run whose write succeeds. -/
def applyAutoAge : TenantMeta :=
  { tenant with
    autoAgeWindowDays := newWindow card resolved accrued tenant
    narrowed := one_le_newWindow card resolved accrued tenant }

end

/- No band has a negative rate. -/
def RateCard.NoRebate (card : RateCard) (meter : RatedMeter) : Prop :=
  ∀ bands ∈ card.bands meter, ∀ b ∈ bands, 0 ≤ b.usdPerUnit

/- A tenant whose hot bytes are `perDay` for each day of its window. -/
def Proportional (perDay : ℚ) (accrued : Accrued) (tenant : TenantMeta) : Prop :=
  accrued.hotBytesAtCurrentWindow.getD 0 = perDay * tenant.effectiveWindowDays

variable {card : RateCard} {resolved : Ceilings} {accrued : Accrued} {tenant : TenantMeta}
variable {perDay : ℚ}

theorem effectiveWindowDays_pos (hPlan : 1 ≤ tenant.indexedWindowDays) :
    0 < tenant.effectiveWindowDays := by
  unfold TenantMeta.effectiveWindowDays
  cases hAged : tenant.autoAgeWindowDays with
  | none => exact hPlan
  | some w => exact tenant.narrowed w hAged

/- The window the bytes were measured at cancels out. -/
theorem projectedUsd_eq (hBytes : Proportional perDay accrued tenant)
    (hPlan : 1 ≤ tenant.indexedWindowDays) :
    projectedUsd card resolved accrued tenant = fun w : ℤ =>
      fixedOverageUsd card resolved accrued +
        (rate card .hotGbMonth (gb (perDay * w))
          (resolved.hotBytesIncluded.map (fun b => gb b)) 0).overageUsd := by
  have hWindow := effectiveWindowDays_pos hPlan
  have hNonzero : (tenant.effectiveWindowDays : ℚ) ≠ 0 := Int.cast_ne_zero.mpr hWindow.ne'
  funext w
  simp only [projectedUsd, if_pos hWindow]
  rw [hBytes, mul_assoc, mul_div_cancel₀ _ hNonzero]

theorem newWindow_congr {again : TenantMeta} {hot : Option ℚ}
    (hPlan : again.indexedWindowDays = tenant.indexedWindowDays)
    (hBytes : Proportional perDay accrued tenant)
    (hAgain : Proportional perDay { accrued with hotBytesAtCurrentWindow := hot } again) :
    newWindow card resolved { accrued with hotBytesAtCurrentWindow := hot } again =
      newWindow card resolved accrued tenant := by
  unfold newWindow
  rw [hPlan]
  split
  · rcases lt_or_ge tenant.indexedWindowDays 1 with hNone | hSome
    · simp only [findAutoAgeWindow, if_pos hNone]
    · rw [projectedUsd_eq hBytes hSome, projectedUsd_eq hAgain (hPlan ▸ hSome)]
      simp only [fixedOverageUsd]
  · rfl

theorem overage_mono {meter : RatedMeter} {included : Option ℚ} {used used' : ℚ}
    (hRates : card.NoRebate meter) (hMore : used ≤ used') :
    (rate card meter used included 0).overageUsd ≤ (rate card meter used' included 0).overageUsd := by
  cases included with
  | none => exact le_rfl
  | some included =>
    cases hBands : card.bands meter with
    | none => simp [rate, hBands]
    | some bands =>
      change overageUsd .. ≤ overageUsd ..
      rw [overageUsd_eq_asked hBands le_rfl, overageUsd_eq_asked hBands le_rfl]
      exact List.sum_le_sum (fun b hMem => Band.cost_mono (hRates bands hBands b hMem) hMore)

/- A wider window is projected to cost no less. -/
theorem projectedUsd_mono (hRates : card.NoRebate .hotGbMonth)
    (hBytes : 0 ≤ accrued.hotBytesAtCurrentWindow.getD 0) :
    Monotone (projectedUsd card resolved accrued tenant) := by
  intro w w' hWider
  refine add_le_add le_rfl (overage_mono hRates ?_)
  unfold gb
  split
  · rename_i hWindow
    have hCast : (0 : ℚ) ≤ tenant.effectiveWindowDays := Int.cast_nonneg hWindow.le
    gcongr
  · exact le_rfl

theorem autoAge_settles :
    (∀ (ceilingUsd : ℚ) (fits : ℤ → ℚ) (planWindowDays : ℤ),
      MonotoneOn fits (Set.Icc 1 planWindowDays) →
      Widest ceilingUsd fits planWindowDays (findAutoAgeWindow ceilingUsd fits planWindowDays)) ∧
    (∀ (card : RateCard) (resolved : Ceilings) (accrued : Accrued) (tenant : TenantMeta)
      (ceiling : ℤ),
      resolved.spendCeilingMicroUsd = some ceiling →
      resolved.overflowMode = .autoAge →
      card.NoRebate .hotGbMonth →
      0 ≤ accrued.hotBytesAtCurrentWindow.getD 0 →
      Widest (ceiling / 1000000) (projectedUsd card resolved accrued tenant)
        tenant.indexedWindowDays (applyAutoAge card resolved accrued tenant).autoAgeWindowDays) ∧
    ∀ (card : RateCard) (resolved : Ceilings) (accrued : Accrued) (tenant : TenantMeta)
      (perDay : ℚ) (hot : Option ℚ),
      let aged := applyAutoAge card resolved accrued tenant
      let later := { accrued with hotBytesAtCurrentWindow := hot }
      Proportional perDay accrued tenant →
      Proportional perDay later aged →
      applyAutoAge card resolved later aged = aged := by
  refine ⟨fun _ _ _ => findAutoAgeWindow_widest, ?_, ?_⟩
  · intro card resolved accrued tenant ceiling hCeiling hMode hRates hBytes
    simp only [applyAutoAge, newWindow, hCeiling, hMode]
    exact findAutoAgeWindow_widest ((projectedUsd_mono hRates hBytes).monotoneOn _)
  intro card resolved accrued tenant perDay hot aged later hBytes hLater
  have hPlan : aged.indexedWindowDays = tenant.indexedWindowDays := rfl
  exact TenantMeta.ext hPlan (newWindow_congr hPlan hBytes hLater)

/- A dollar for each GB, two dollars to spend, and a GB for each of three days. -/
def dollarCard : RateCard :=
  ⟨fun _ => some [⟨0, none, 1⟩]⟩

def twoDollars : Ceilings :=
  ⟨some 2000000, .autoAge, none, some 0, none, none, none⟩

def threeDays : TenantMeta :=
  ⟨3, none, nofun⟩

def hotGb (days : ℚ) : Accrued :=
  ⟨some (1000000000 * days), none, none, none, none⟩

theorem threeDays_settles :
    let aged := applyAutoAge dollarCard twoDollars (hotGb 3) threeDays
    Widest 2 (projectedUsd dollarCard twoDollars (hotGb 3) threeDays) 3 aged.autoAgeWindowDays ∧
      applyAutoAge dollarCard twoDollars (hotGb aged.effectiveWindowDays) aged = aged := by
  refine ⟨?_, autoAge_settles.2.2 _ _ _ _ 1000000000 (some (1000000000 * _)) rfl rfl⟩
  have hWidest := autoAge_settles.2.1 dollarCard twoDollars (hotGb 3) threeDays 2000000 rfl rfl
    (by simp [RateCard.NoRebate, dollarCard]) (by norm_num [hotGb])
  norm_num at hWidest
  exact hWidest

end Tracelane.Billing
