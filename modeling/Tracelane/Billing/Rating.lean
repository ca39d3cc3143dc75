import Mathlib.MeasureTheory.Integral.Bochner.Set
import Mathlib.MeasureTheory.Measure.Lebesgue.Basic
import Mathlib.Tactic.Linarith

/-
  What one billed meter costs: usage above the allowance and the burst exemption, along a ladder of
  graduated bands. Amounts are exact rationals.
-/

open MeasureTheory List

namespace Tracelane.Billing

inductive RatedMeter where
| ingestGb
| hotGbMonth
| series
| scanUnits
| coldGbMonth
| evalRuns
deriving DecidableEq

/- `[lo, hi)` in the meter's own unit; no `hi` is the top band. -/
structure Band where
  lo : ℚ
  hi : Option ℚ
  usdPerUnit : ℚ

structure RateCard where
  bands : RatedMeter → Option (List Band)

structure Rated where
  used : ℚ
  included : Option ℚ
  burstExempt : ℚ
  overageUnits : ℚ
  overageUsd : ℚ

/- Where a band ends, or usage before it. -/
def Band.top (used : ℚ) (b : Band) : ℚ :=
  b.hi.elim used (min · used)

def bandedCost (bands : List Band) (used exemptUpTo : ℚ) : ℚ :=
  bands.foldl
    (fun cost b =>
      let lo := max b.lo exemptUpTo
      let hi := b.top used
      if hi > lo then cost + (hi - lo) * b.usdPerUnit else cost)
    0

def rate (card : RateCard) (meter : RatedMeter) (used : ℚ) (included : Option ℚ)
    (burstExempt : ℚ) : Rated :=
  match included with
  | none => ⟨used, none, 0, 0, 0⟩
  | some included =>
      let burstExempt := min (max burstExempt 0) (max (used - included) 0)
      let exemptUpTo := included + burstExempt
      ⟨used, some included, burstExempt,
        max (used - exemptUpTo) 0,
        ((card.bands meter).map (fun bands => bandedCost bands used exemptUpTo)).getD 0⟩

--
-- The Band Price
--

/- In order from `lo`, each band from where the last one ended. -/
inductive Partitions : ℚ → List Band → Prop
| last (lo usd : ℚ) : Partitions lo [⟨lo, none, usd⟩]
| cons {lo hi : ℚ} {bands : List Band} (usd : ℚ) :
    lo ≤ hi →
    Partitions hi bands →
    Partitions lo (⟨lo, some hi, usd⟩ :: bands)

def Band.span (b : Band) : Set ℝ :=
  { x | b.lo ≤ x ∧ ∀ hi ∈ b.hi, x < hi }

open Classical in
/- What the unit at `x` costs: the rate of the band it is in. -/
noncomputable def price (bands : List Band) (x : ℝ) : ℝ :=
  ((bands.find? (fun b => x ∈ b.span)).map (fun b => (b.usdPerUnit : ℝ))).getD 0

/- The same, of one band alone. -/
noncomputable def Band.price (b : Band) : ℝ → ℝ :=
  b.span.indicator (fun _ => (b.usdPerUnit : ℝ))

/- What one band adds to the cost. -/
def Band.cost (used exempt : ℚ) (b : Band) : ℚ :=
  max (b.top used - max b.lo exempt) 0 * b.usdPerUnit

variable {b : Band} {bands : List Band} {lo used exempt : ℚ}

theorem bandedCost_eq_sum :
    bandedCost bands used exempt = (bands.map (Band.cost used exempt)).sum := by
  rw [sum_eq_foldl, foldl_map]
  unfold bandedCost
  congr 1
  funext cost b
  simp only [Band.cost]
  split
  · rename_i hCharged
    rw [max_eq_left (sub_nonneg.mpr (le_of_lt hCharged))]
  · rename_i hFree
    rw [max_eq_right (sub_nonpos.mpr (not_lt.mp hFree)), zero_mul, add_zero]

theorem Partitions.le_lo (hBands : Partitions lo bands) (hMem : b ∈ bands) :
    lo ≤ b.lo := by
  induction hBands with
  | last => simp_all
  | cons _ hStep _ ih =>
    rcases mem_cons.mp hMem with rfl | hMem
    · exact le_rfl
    · exact hStep.trans (ih hMem)

theorem price_eq_sum (hBands : Partitions lo bands) (x : ℝ) :
    price bands x = (bands.map (fun b => b.price x)).sum := by
  induction hBands with
  | last lo usd =>
    by_cases hIn : x ∈ Band.span ⟨lo, none, usd⟩ <;> simp [price, Band.price, hIn]
  | @cons lo hi bands usd _ hRest ih =>
    rw [map_cons, sum_cons, ← ih]
    by_cases hIn : x ∈ Band.span ⟨lo, some hi, usd⟩
    · -- Later bands start where this one ends.
      have hLater : price bands x = 0 := by
        rw [ih]
        refine sum_eq_zero ?_
        simp only [mem_map]
        rintro _ ⟨b, hMem, rfl⟩
        have hStart : (hi : ℝ) ≤ b.lo := by exact_mod_cast hRest.le_lo hMem
        refine Set.indicator_of_notMem (fun hAgain => ?_) _
        exact absurd (hIn.2 hi rfl) (by linarith [hAgain.1])
      rw [hLater, add_zero]
      simp [price, Band.price, hIn]
    · simp [price, Band.price, hIn]

theorem Band.measurable_span :
    MeasurableSet b.span := by
  have hSpan : b.span = Set.Ici ↑b.lo ∩ ⋂ hi ∈ b.hi, Set.Iio ↑hi := by
    ext x
    simp [Band.span]
  rw [hSpan]
  exact measurableSet_Ici.inter (.iInter fun hi => .iInter fun _ => measurableSet_Iio)

theorem Band.charged :
    Set.Ico (exempt : ℝ) used ∩ b.span = Set.Ico ((max b.lo exempt : ℚ) : ℝ) (b.top used : ℚ) := by
  ext x
  cases hHi : b.hi <;> simp [Band.span, Band.top, hHi] <;> tauto

theorem Band.integral_price :
    IntegrableOn b.price (Set.Ico (exempt : ℝ) used) ∧
      ∫ x in Set.Ico (exempt : ℝ) used, b.price x = b.cost used exempt := by
  constructor
  · exact (integrableOn_const measure_Ico_lt_top.ne).indicator b.measurable_span
  · unfold Band.price
    rw [setIntegral_indicator b.measurable_span, b.charged,
      setIntegral_const, Real.volume_real_Ico, smul_eq_mul]
    simp [Band.cost]

theorem integral_sum (bands : List Band) :
    IntegrableOn (fun x => (bands.map (fun b => b.price x)).sum) (Set.Ico (exempt : ℝ) used) ∧
      ∫ x in Set.Ico (exempt : ℝ) used, (bands.map (fun b => b.price x)).sum =
        ((bands.map (Band.cost used exempt)).sum : ℚ) := by
  induction bands with
  | nil => simp
  | cons b bands ih =>
    have hHere := @Band.integral_price b used exempt
    simp only [map_cons, sum_cons]
    refine ⟨hHere.1.add ih.1, ?_⟩
    rw [integral_add hHere.1 ih.1, hHere.2, ih.2]
    push_cast
    rfl

--
-- How the Cost Moves
--

theorem Band.cost_mono {used' : ℚ} (hRate : 0 ≤ b.usdPerUnit) (hUsed : used ≤ used') :
    b.cost used exempt ≤ b.cost used' exempt := by
  have hTop : b.top used ≤ b.top used' := by
    unfold Band.top
    cases b.hi with
    | none => exact hUsed
    | some hi => exact min_le_min_left hi hUsed
  unfold Band.cost
  gcongr

theorem Band.cost_anti {exempt' : ℚ} (hRate : 0 ≤ b.usdPerUnit) (hExempt : exempt ≤ exempt') :
    b.cost used exempt' ≤ b.cost used exempt := by
  unfold Band.cost
  gcongr

/- Past usage it does not matter where the exemption ends. -/
theorem Band.cost_of_le (hExempt : used ≤ exempt) :
    b.cost used exempt = 0 := by
  have hTop : b.top used ≤ used := by
    unfold Band.top
    cases b.hi with
    | none => exact le_rfl
    | some hi => exact min_le_right hi used
  have hFree : b.top used - max b.lo exempt ≤ 0 :=
    sub_nonpos.mpr (hTop.trans (hExempt.trans (le_max_right _ _)))
  rw [Band.cost, max_eq_right hFree, zero_mul]

theorem Band.cost_split {mid : ℚ} (hLo : b.lo ≤ mid) (hHi : ∀ hi ∈ b.hi, mid ≤ hi) :
    Band.cost used exempt { b with hi := some mid } + Band.cost used exempt { b with lo := mid } =
      b.cost used exempt := by
  rcases b with ⟨lo, _ | hi, usd⟩
  · simp only [Band.cost, Band.top, Option.elim, ← add_mul]
    congr 1
    grind
  · simp only [Band.cost, Band.top, Option.elim, ← add_mul]
    have hMid := hHi hi rfl
    congr 1
    grind

theorem Band.cost_eq_zero_iff :
    b.cost used exempt = 0 ↔ ∀ x ∈ Set.Ico (exempt : ℝ) used, b.price x = 0 := by
  constructor
  · intro hFree x hCharged
    by_cases hIn : x ∈ b.span
    · have hBoth := b.charged.subset ⟨hCharged, hIn⟩
      have hSome : max b.lo exempt < b.top used := by exact_mod_cast hBoth.1.trans_lt hBoth.2
      rcases mul_eq_zero.mp hFree with hNone | hRate
      · exact absurd hNone (lt_max_of_lt_left (sub_pos.mpr hSome)).ne'
      · rw [Band.price, Set.indicator_of_mem hIn, hRate, Rat.cast_zero]
    · exact Set.indicator_of_notMem hIn _
  · intro hPrice
    rcases lt_or_ge (max b.lo exempt) (b.top used) with hSome | hNone
    · -- The first unit of the overlap is charged the band's rate.
      have hFirst : ((max b.lo exempt : ℚ) : ℝ) ∈ Set.Ico (exempt : ℝ) used ∩ b.span :=
        b.charged.symm.subset ⟨le_rfl, by exact_mod_cast hSome⟩
      have hRate := hPrice _ hFirst.1
      rw [Band.price, Set.indicator_of_mem hFirst.2] at hRate
      rw [Band.cost, Rat.cast_eq_zero.mp hRate, mul_zero]
    · rw [Band.cost, max_eq_right (sub_nonpos.mpr hNone), zero_mul]

--
-- The Rated Meter
--

variable {card : RateCard} {meter : RatedMeter} {included burst : ℚ}

section

variable (card : RateCard) (meter : RatedMeter) (used included burst : ℚ)

def overageUsd : ℚ :=
  (rate card meter used (some included) burst).overageUsd

/- Where charging starts: past the allowance and the part of the exemption that is used. -/
def exemptPoint (used included burst : ℚ) : ℚ :=
  included + min burst (max (used - included) 0)

/- The cost is the integral of the price over what is charged. -/
structure Priced (bands : List Band) : Prop where
  integral :
    overageUsd card meter used included burst =
      ∫ x in Set.Ico (exemptPoint used included burst : ℝ) used, price bands x
  free :
    overageUsd card meter used included burst = 0 ↔
      ∀ x ∈ Set.Ico (exemptPoint used included burst : ℝ) used, ¬0 < price bands x
  more :
    ∀ used' ≥ used,
      overageUsd card meter used included burst ≤ overageUsd card meter used' included burst
  allowed :
    ∀ included' ≥ included,
      overageUsd card meter used included' burst ≤ overageUsd card meter used included burst
  exempted :
    ∀ burst' ≥ burst,
      overageUsd card meter used included burst' ≤ overageUsd card meter used included burst
  split :
    ∀ front b back mid card',
      bands = front ++ b :: back →
      b.lo ≤ mid →
      (∀ hi ∈ b.hi, mid ≤ hi) →
      card'.bands meter =
        some (front ++ { b with hi := some mid } :: { b with lo := mid } :: back) →
      overageUsd card' meter used included burst = overageUsd card meter used included burst

end

theorem overageUsd_eq_sum (hBands : card.bands meter = some bands) (hBurst : 0 ≤ burst) :
    overageUsd card meter used included burst =
      (bands.map (Band.cost used (exemptPoint used included burst))).sum := by
  simp [overageUsd, exemptPoint, rate, hBands, hBurst, bandedCost_eq_sum]

/- An exemption that is clipped ends at or above usage. -/
theorem overageUsd_eq_asked (hBands : card.bands meter = some bands) (hBurst : 0 ≤ burst) :
    overageUsd card meter used included burst =
      (bands.map (Band.cost used (included + burst))).sum := by
  rw [overageUsd_eq_sum hBands hBurst]
  congr 1
  refine map_congr_left (fun b _ => ?_)
  unfold exemptPoint
  rcases le_total burst (max (used - included) 0) with hAll | hSome
  · rw [min_eq_left hAll]
  · rw [min_eq_right hSome, Band.cost_of_le, Band.cost_of_le] <;> grind

theorem sum_cost_eq_zero_iff (hBands : Partitions lo bands)
    (hRates : ∀ b ∈ bands, 0 ≤ b.usdPerUnit) :
    (bands.map (Band.cost used exempt)).sum = 0 ↔
      ∀ x ∈ Set.Ico (exempt : ℝ) used, ¬0 < price bands x := by
  have hCost : ∀ c ∈ bands.map (Band.cost used exempt), 0 ≤ c := by
    simp only [mem_map]
    rintro _ ⟨b, hMem, rfl⟩
    exact mul_nonneg (le_max_right _ _) (hRates b hMem)
  have hPrice : ∀ x, ∀ p ∈ bands.map (fun b => b.price x), 0 ≤ p := by
    simp only [mem_map]
    rintro x _ ⟨b, hMem, rfl⟩
    exact Set.indicator_nonneg (fun _ _ => Rat.cast_nonneg.mpr (hRates b hMem)) x
  simp only [price_eq_sum hBands, not_lt]
  constructor
  · intro hFree x hCharged
    refine (sum_eq_zero ?_).le
    simp only [mem_map]
    rintro _ ⟨b, hMem, rfl⟩
    exact Band.cost_eq_zero_iff.mp
      (all_zero_of_le_zero_le_of_sum_eq_zero hCost hFree (mem_map_of_mem hMem)) x hCharged
  · intro hFree
    refine sum_eq_zero ?_
    simp only [mem_map]
    rintro _ ⟨b, hMem, rfl⟩
    refine Band.cost_eq_zero_iff.mpr (fun x hCharged => ?_)
    exact all_zero_of_le_zero_le_of_sum_eq_zero (hPrice x)
      ((hFree x hCharged).antisymm (sum_nonneg (hPrice x))) (mem_map_of_mem hMem)

theorem rate_priced (hBands : card.bands meter = some bands) (hLadder : Partitions 0 bands)
    (hRates : ∀ b ∈ bands, 0 ≤ b.usdPerUnit) (hBurst : 0 ≤ burst) :
    Priced card meter used included burst bands where
  integral := by
    rw [overageUsd_eq_sum hBands hBurst, ← (integral_sum bands).2]
    simp only [price_eq_sum hLadder]
  free := by
    rw [overageUsd_eq_sum hBands hBurst]
    exact sum_cost_eq_zero_iff hLadder hRates
  more := by
    intro used' hMore
    rw [overageUsd_eq_asked hBands hBurst, overageUsd_eq_asked hBands hBurst]
    exact sum_le_sum (fun b hMem => Band.cost_mono (hRates b hMem) hMore)
  allowed := by
    intro included' hMore
    rw [overageUsd_eq_asked hBands hBurst, overageUsd_eq_asked hBands hBurst]
    exact sum_le_sum (fun b hMem => Band.cost_anti (hRates b hMem) (by linarith))
  exempted := by
    intro burst' hMore
    rw [overageUsd_eq_asked hBands hBurst, overageUsd_eq_asked hBands (hBurst.trans hMore)]
    exact sum_le_sum (fun b hMem => Band.cost_anti (hRates b hMem) (by linarith))
  split := by
    rintro front b back mid card' rfl hLo hHi hSplit
    rw [overageUsd_eq_asked hBands hBurst, overageUsd_eq_asked hSplit hBurst]
    simp only [map_append, map_cons, sum_append, sum_cons, ← Band.cost_split hLo hHi, add_assoc]

theorem graduated_priced :
    Priced ⟨fun _ => some [⟨0, some 10, 1⟩, ⟨10, none, 2⟩]⟩
      .hotGbMonth 12 5 3 [⟨0, some 10, 1⟩, ⟨10, none, 2⟩] :=
  rate_priced rfl (.cons 1 (by norm_num) (.last 10 2)) (by simp)
    (by norm_num)

end Tracelane.Billing
