import Mathlib.Tactic.FieldSimp
import Mathlib.Tactic.Linarith
import Tracelane.Gateway.Limits
import Tracelane.Lib.Metered

/-
  What a refusal tells the client, and how fast a bucket pays.

  The denial that is reported has the longest wait, but a cost no bucket can hold asks for a minute
  only.  A bucket that is evicted has not been used for a minute and is full again, so that eviction
  pays nothing.
-/

namespace Tracelane.Gateway

open List Nat

namespace TenantBuckets

open Bucket

variable {cfg : LimitConfig} {tb : TenantBuckets} {checks : List Check}
variable {now : Instant}

--
-- Retrying
--

/- A limit is a whole number, and so is a stored capacity. -/
def Whole (tb : TenantBuckets) : Prop :=
  ∀ k b, tb.map.lookup k = some b → ∃ n : Nat, b.capacity = n

variable {b : Bucket}

theorem refill_capacity {limit : Nat} (hWhole : ∃ n : Nat, b.capacity = n) :
    (b.refill limit now).capacity = limit := by
  rcases hWhole with ⟨n, hCapacity⟩
  simp only [refill, hCapacity]
  split
  · rfl
  · rename_i hNear
    by_contra hOther
    have hApart : (limit : ℤ) - n ≠ 0 := by
      rw [sub_ne_zero]
      exact_mod_cast Ne.symm hOther
    have hFar : (1 : ℚ) ≤ |(limit : ℚ) - n| := by exact_mod_cast Int.one_le_abs hApart
    unfold f64Epsilon at hNear
    linarith

theorem Whole.refilled (hWhole : tb.Whole) (c : Check) :
    (tb.refilled now c).capacity = c.limit := by
  apply refill_capacity
  cases hLookup : tb.map.lookup c.key with
  | none => exact ⟨c.limit, rfl⟩
  | some b => exact hWhole _ _ hLookup

variable {k : BucketKey}

theorem Whole.modify {f : Bucket → Bucket} (hWhole : tb.Whole)
    (hSame : ∀ b, (f b).capacity = b.capacity) :
    (tb.modify k f).Whole := by
  intro k' b hLookup
  by_cases hKey : k' = k
  · subst hKey
    rw [lookup_modify, Option.map_eq_some_iff] at hLookup
    rcases hLookup with ⟨b', hStored, rfl⟩
    rw [hSame]
    exact hWhole _ _ hStored
  · rw [lookup_modify_ne hKey] at hLookup
    exact hWhole _ _ hLookup

theorem Whole.makeRoom (hWhole : tb.Whole) :
    (tb.makeRoom cfg checks now).Whole := by
  intro k b hLookup
  rcases lookup_makeRoom cfg tb checks now k with hSame | ⟨hGone, _⟩
  · exact hWhole k b (hSame ▸ hLookup)
  · rw [hGone] at hLookup
    cases hLookup

theorem Whole.admitAll (hWhole : tb.Whole) :
    (tb.admitAll cfg checks now).2.Whole := by
  refine admit_keeps hWhole.makeRoom ?_ ?_ hWhole
  · intro state c hState k b hLookup
    by_cases hKey : k = c.key
    · subst hKey
      rw [lookup_checkBucket] at hLookup
      cases hLookup
      exact ⟨c.limit, hState.refilled c⟩
    · rw [lookup_checkBucket_ne state c k hKey] at hLookup
      exact hState k b hLookup
  · intro tb c hTb
    exact Whole.modify hTb (fun _ => rfl)

/- The buckets a tenant may have. -/
inductive Reachable (cfg : LimitConfig) : TenantBuckets → Prop
| new : Reachable cfg {}
| admitAll {tb : TenantBuckets}
    (checks : List Check) (now : Instant)
    (hBefore : Reachable cfg tb) :
    Reachable cfg (tb.admitAll cfg checks now).2
| reconcile {tb : TenantBuckets}
    (r : Reservation) (actualTokens : Nat)
    (hBefore : Reachable cfg tb) :
    Reachable cfg (tb.reconcile r actualTokens)

theorem Reachable.whole (hReachable : Reachable cfg tb) :
    tb.Whole := by
  induction hReachable with
  | new => exact fun _ _ hLookup => nomatch hLookup
  | admitAll checks now _ ih => exact ih.admitAll
  | reconcile r actualTokens _ ih =>
    exact foldlRecOn (motive := Whole) _ _ ih (fun _ hTb _ _ => Whole.modify hTb (fun _ => rfl))

/- A call whose buckets are all there needs no room. -/
theorem makeRoom_of_stored (hStored : ∀ c ∈ checks, (tb.map.lookup c.key).isSome = true) :
    tb.refusesRoom cfg checks now = false ∧ tb.makeRoom cfg checks now = tb := by
  have hNone : tb.newEndUsers checks = 0 := by
    unfold newEndUsers
    rw [length_eq_zero_iff, filter_eq_nil_iff]
    intro c hMem
    simp [Option.isSome_iff_ne_none.mp (hStored c hMem)]
  simp [refusesRoom, makeRoom, overCapacity, hNone]

/- The bucket can hold a cost, and fills up to it in an hour. -/
def Fillable (b : Bucket) (limit cost : Nat) : Prop :=
  cost ≤ limit ∧ (cost : ℚ) ≤ b.tokens + 60 * limit + tolerance

theorem fits_iff (b : Bucket) (cost : Nat) :
    b.fits cost = true ↔ (cost : ℚ) ≤ b.tokens + tolerance := by
  simp [fits]

/- A wait no shorter than the bucket asks for. -/
theorem refill_fits_iff {limit cost r : Nat}
    (hCapacity : b.capacity = limit) (hRefill : b.lastRefill = now)
    (hWait : b.fits cost = false → cost ≤ limit → b.waitSecs cost ≤ r) (hMost : r ≤ 3600) :
    (b.refill limit (now + Duration.fromSecs r)).fits cost = true ↔ Fillable b limit cost := by
  have hTokens :
      (b.refill limit (now + Duration.fromSecs r)).tokens =
        min (b.tokens + r * limit / 60) limit := by
    simp [refill, hRefill, saturatingDurationSince, asSecs, Duration.fromSecs, nanosPerSec]
  have hHour : (r : ℚ) * limit ≤ 3600 * limit :=
    mul_le_mul_of_nonneg_right (by exact_mod_cast hMost)
      (cast_nonneg _)
  have hTolerance : 0 < tolerance ∧ tolerance < 1 := by norm_num [tolerance]
  rw [fits_iff, hTokens, ← min_add_add_right, le_min_iff]
  constructor
  · rintro ⟨hFills, hHolds⟩
    refine ⟨?_, by linarith⟩
    have hBelow : (cost : ℚ) < limit + 1 := by linarith
    exact_mod_cast Nat.lt_succ_iff.mp (by exact_mod_cast hBelow)
  · rintro ⟨hHolds, hHours⟩
    have hHolds' : (cost : ℚ) ≤ limit := by exact_mod_cast hHolds
    refine ⟨?_, by linarith⟩
    cases hFits : b.fits cost with
    | true =>
      rw [fits_iff] at hFits
      have hGain : (0 : ℚ) ≤ r * limit / 60 := by positivity
      linarith
    | false =>
      have hAsked := hWait hFits hHolds
      rw [← Bool.not_eq_true, fits_iff, not_le] at hFits
      have hPos : (0 : ℚ) < limit := by
        by_contra hZero
        linarith
      rw [waitSecs, hCapacity, if_neg (by linarith), min_le_iff, Int.toNat_le, max_le_iff,
        Int.ceil_le, div_le_iff₀ (by linarith)] at hAsked
      rcases hAsked with ⟨hShort, _⟩ | hLong
      · push_cast at hShort
        linarith
      · have hSame : (r : ℚ) = 3600 := by exact_mod_cast le_antisymm hMost hLong
        rw [hSame]
        linarith

theorem denial_retryAfterSecs_le (b : Bucket) (c : Check) :
    (denial b c).retryAfterSecs ≤ 3600 := by
  unfold denial waitSecs
  simp only
  split
  · decide
  · split
    · decide
    · exact min_le_right _ _

/- A refusal not for room is the worst of the denials. -/
theorem admit_refused_worst (hDistinct : (checks.map Check.key).Nodup)
    {d : LimitDenial} (hRefused : (tb.admitAll cfg checks now).1 = .error d)
    (hCode : d.code ≠ "end_user_limit_capacity") :
    let refused := (tb.makeRoom cfg checks now).refusals now checks
    tb.refusesRoom cfg checks now = false ∧ d ∈ refused ∧
      ∀ e ∈ refused, e.retryAfterSecs ≤ d.retryAfterSecs := by
  intro refused
  rcases admit_cases cfg tb checks now with
    ⟨_, hAdmit⟩ | ⟨_, hAdmit⟩ | ⟨hRoom, _, _, hFold, hAdmit⟩ | ⟨_, _, _, hAdmit⟩
  · simp [hAdmit] at hRefused
  · rw [hAdmit] at hRefused
    cases hRefused
    exact absurd rfl hCode
  · rw [hAdmit] at hRefused
    cases hRefused
    have hWorst := @foldl_checkBucket_snd checks now hDistinct (tb.makeRoom cfg checks now, none)
    rw [hFold] at hWorst
    rcases foldl_worse refused none with ⟨hNone, _⟩ | ⟨e, hSome, hIn, hAll⟩
    · cases hWorst.trans hNone
    · cases hWorst.trans hSome
      exact ⟨hRoom, hIn, hAll⟩
  · rw [hAdmit] at hRefused
    cases hRefused

/- When the same call succeeds for a client that waited. -/
theorem retry_isOk_iff (hReachable : Reachable cfg tb) (hDistinct : (checks.map Check.key).Nodup)
    {d : LimitDenial} (hRefused : (tb.admitAll cfg checks now).1 = .error d)
    (hCode : d.code ≠ "end_user_limit_capacity") :
    ((tb.admitAll cfg checks now).2.admitAll cfg checks
        (now + Duration.fromSecs d.retryAfterSecs)).1.isOk = true ↔
      ∀ c ∈ checks, Fillable ((tb.makeRoom cfg checks now).refilled now c) c.limit c.cost := by
  rcases admit_refused_worst hDistinct hRefused hCode with ⟨hRoom, hDenied, hWorst⟩
  have hStored := fun c (hMem : c ∈ checks) =>
    admit_refused_lookup hDistinct hRoom hRefused hMem
  rcases makeRoom_of_stored
      (fun c hMem => Option.isSome_iff_exists.mpr ⟨_, hStored c hMem⟩) with
    ⟨hRoom', hSame⟩
  rw [admit_isOk_iff hDistinct hRoom', hSame]
  refine forall₂_congr (fun c hMem => ?_)
  have hMost : d.retryAfterSecs ≤ 3600 := by
    rcases mem_map.mp hDenied with ⟨c', _, rfl⟩
    exact denial_retryAfterSecs_le _ c'
  unfold refilled
  rw [hStored c hMem, Option.getD_some]
  refine refill_fits_iff (hReachable.whole.makeRoom.refilled c) rfl ?_ hMost
  intro hFits hHolds
  have hAsked := hWorst _ (mem_map_of_mem (mem_filter.mpr ⟨hMem, by simp [hFits]⟩))
  simpa [denial, not_lt.mpr hHolds] using hAsked

/- One request a minute, and one token a minute. -/
def oneRequest : Check where
  key := ⟨.workspace, .all, .rpm⟩
  limit := 1
  cost := 1

def twoTokens : Check where
  key := ⟨.workspace, .all, .tpm⟩
  limit := 1
  cost := 2

/- The minute's request is gone. -/
def spentMinute : TenantBuckets :=
  (admitAll Limits.oneEndUser {} [oneRequest] 0).2

def waitMinute : LimitDenial where
  code := "rpm_limit_workspace"
  scope := .workspace
  dim := .all
  kind := .rpm
  limit := 1
  requested := 1
  retryAfterSecs := 60
  exceedsCapacity := false

/- Two tokens never fit, and the client is told to wait. -/
theorem waitMinute_vain :
    let checks := [oneRequest, twoTokens]
    let said := spentMinute.admitAll Limits.oneEndUser checks 0
    said.1 = .error waitMinute ∧
      (said.2.admitAll Limits.oneEndUser checks (Duration.fromSecs 60)).1.isOk = false := by
  decide +kernel

theorem waitMinute_isOk_iff :
    ((spentMinute.admitAll Limits.oneEndUser [oneRequest]
        0).2.admitAll Limits.oneEndUser [oneRequest]
          (0 + Duration.fromSecs waitMinute.retryAfterSecs)).1.isOk =
        true ↔
      ∀ c ∈ [oneRequest],
        Fillable
          ((spentMinute.makeRoom Limits.oneEndUser [oneRequest] 0).refilled 0 c)
          c.limit c.cost :=
  retry_isOk_iff (.admitAll _ _ .new) (by decide)
    (by decide +kernel) (by decide)

--
-- Rates
--

/- A call, and whether it was admitted. -/
structure Ask where
  checks : List Check
  now : Instant
  admitted : Bool

/- What a call took from the bucket. -/
def Ask.taken (k : BucketKey) (x : Ask) : Option Nat :=
  if x.admitted then
    (x.checks.find? (fun c => c.key = k)).map Check.cost
  else none

/-
  A call while the bucket keeps its limit.  Before it anything may have been done to other buckets.
-/
def serve (cfg : LimitConfig) (k : BucketKey) (limit : Nat) (tb : TenantBuckets)
    (x : Ask) (tb' : TenantBuckets) : Prop :=
  (x.checks.map Check.key).Nodup ∧
    (∀ c ∈ x.checks, c.key = k → c.limit = limit) ∧
    ∃ tb₁ : TenantBuckets,
      tb₁.map.lookup k = tb.map.lookup k ∧
        x.admitted = (tb₁.admitAll cfg x.checks x.now).1.isOk ∧
        tb' = (tb₁.admitAll cfg x.checks x.now).2

/- What a call took, less the slack, in the unit below. -/
def Ask.charge (unit : Nat) (k : BucketKey) (x : Ask) : ℤ :=
  (x.taken k).elim 0 (fun cost => (cost * unit : Nat) - 60)

variable {limit unit : Nat}

/- What the bucket could pay at an instant, and the slack. -/
def worth (limit unit : Nat) (b : Bucket) (t : Instant) : ℚ :=
  (b.tokens + tolerance) * unit + ((t - b.lastRefill) * limit : Nat)

def level (limit unit : Nat) (b : Option Bucket) (t : Instant) : Nat :=
  b.elim (limit * unit) (fun b => min (limit * unit) ⌊worth limit unit b t⌋.toNat)

/- The bucket has been refilled since it was used. -/
def Refilled (limit unit : Nat) (b : Bucket) : Prop :=
  min ((limit * unit : Nat) : ℚ) ((b.lastRefill - b.lastUsed) * limit : Nat) ≤
    (b.tokens + tolerance) * unit

/- The unit is a nanosecond's gain under a limit of one. -/
def IsUnit (unit : Nat) : Prop :=
  unit = 60 * nanosPerSec

theorem IsUnit.cast (hUnit : IsUnit unit) :
    (unit : ℚ) = 60 * 1000000000 := by
  rw [hUnit]
  norm_num [nanosPerSec]

theorem worth_refill (hUnit : IsUnit unit) (b : Bucket) :
    worth limit unit (b.refill limit now) now =
      min (worth limit unit b now) (limit * unit + 60 : Nat) := by
  simp only [worth, refill, asSecs, Nat.sub_self, saturatingDurationSince, ← min_add_add_right,
    Nat.zero_mul, min_mul_of_nonneg _ _ (cast_nonneg unit)]
  push_cast
  rw [hUnit.cast]
  norm_num [nanosPerSec, tolerance]
  congr 1
  · ring
  · ring

theorem level_refill (hUnit : IsUnit unit) (b : Bucket) :
    level limit unit (some (b.refill limit now)) now = level limit unit (some b) now := by
  simp only [level, Option.elim_some, worth_refill hUnit, Int.floor_mono.map_min, Int.floor_natCast]
  omega

theorem level_full {t : Instant} (hFull : ((limit * unit : Nat) : ℚ) ≤ worth limit unit b t) :
    level limit unit (some b) t = limit * unit := by
  have hFloor : ((limit * unit : Nat) : ℤ) ≤ ⌊worth limit unit b t⌋ :=
    Int.le_floor.mpr (by exact_mod_cast hFull)
  simp only [level, Option.elim_some]
  omega

theorem worth_ge (hRefilled : Refilled limit unit b) (t : Instant) :
    min ((limit * unit : Nat) : ℚ) ((t - b.lastUsed) * limit : Nat) ≤ worth limit unit b t := by
  unfold Refilled at hRefilled
  unfold worth
  rw [min_le_iff] at hRefilled ⊢
  have hTime :
      (t - b.lastUsed) * limit ≤
        (b.lastRefill - b.lastUsed) * limit + (t - b.lastRefill) * limit := by
    rw [← add_mul]
    exact mul_le_mul_right _ (by omega)
  have hTime' := (cast_le (α := ℚ)).mpr hTime
  have hPast : (0 : ℚ) ≤ ((t - b.lastRefill) * limit : Nat) := cast_nonneg _
  push_cast at hTime' hPast hRefilled ⊢
  rcases hRefilled with hFull | hSince
  · exact Or.inl (by linarith)
  · exact Or.inr (by linarith)

theorem refilled_refill (hUnit : IsUnit unit) (hRefilled : Refilled limit unit b) :
    Refilled limit unit (b.refill limit now) := by
  have hSame :
      worth limit unit (b.refill limit now) now =
        ((b.refill limit now).tokens + tolerance) * unit := by
    simp [worth, refill]
  unfold Refilled
  rw [← hSame, worth_refill hUnit, le_min_iff]
  refine ⟨worth_ge hRefilled now, (min_le_left _ _).trans ?_⟩
  exact cast_le.mpr (le_add_right _ _)

/- A debit pays for its cost, less the slack. -/
theorem level_debit (hUnit : IsUnit unit)
    (now : Instant) {cost : Nat} (hRefill : b.lastRefill = now)
    (hLevel : b.tokens ≤ limit) (hFits : b.fits cost = true) :
    ((cost * unit : Nat) : ℤ) - 60 + level limit unit (some (b.debit cost now)) now ≤
        level limit unit (some b) now ∧
      Refilled limit unit (b.debit cost now) := by
  rw [fits_iff] at hFits
  have hWorth : worth limit unit b now = b.tokens * unit + (60 : Nat) := by
    simp only [worth, hRefill, Nat.sub_self, Nat.zero_mul, add_mul, hUnit.cast]
    norm_num [tolerance]
  have hPaid :
      worth limit unit (b.debit cost now) now = worth limit unit b now - (cost * unit : Nat) := by
    simp only [worth, debit]
    push_cast
    ring
  have hFull : ⌊b.tokens * unit⌋ ≤ (limit * unit : Nat) := by
    rw [← Int.floor_natCast (R := ℚ)]
    apply Int.floor_mono
    push_cast
    exact mul_le_mul_of_nonneg_right hLevel (cast_nonneg _)
  have hLeft : (cost * unit : Nat) ≤ ⌊worth limit unit b now⌋ := by
    rw [Int.le_floor]
    simp only [worth, hRefill, Nat.sub_self, Nat.zero_mul]
    push_cast
    have hPays := mul_le_mul_of_nonneg_right hFits (cast_nonneg unit)
    linarith
  constructor
  · simp only [level, Option.elim_some, hPaid, Int.floor_sub_natCast]
    rw [hWorth, Int.floor_add_natCast] at hLeft ⊢
    omega
  · refine (min_le_right _ _).trans ?_
    simp only [debit, hRefill, Nat.sub_self, Nat.zero_mul]
    have hNonneg : 0 ≤ b.tokens - cost + tolerance := by linarith
    positivity

/- An evicted bucket was as good as full. -/
theorem level_makeRoom (checks : List Check) (now : Instant)
    (hUnit : IsUnit unit) (hIdle : Duration.fromSecs 60 ≤ cfg.idle)
    (hRefilled : ∀ b ∈ tb.map.lookup k, Refilled limit unit b) :
    level limit unit ((tb.makeRoom cfg checks now).map.lookup k) now =
        level limit unit (tb.map.lookup k) now ∧
      ∀ b ∈ (tb.makeRoom cfg checks now).map.lookup k, Refilled limit unit b := by
  rcases lookup_makeRoom cfg tb checks now k with hSame | ⟨hGone, hIdled⟩
  · rw [hSame]
    exact ⟨rfl, hRefilled⟩
  · rw [hGone]
    refine ⟨?_, by simp⟩
    cases hLookup : tb.map.lookup k with
    | none => rfl
    | some b =>
      have hWorth := worth_ge (hRefilled b hLookup) now
      have hLong : unit ≤ now - b.lastUsed := by
        rw [hUnit]
        exact hIdle.trans (hIdled b hLookup)
      rw [min_eq_left] at hWorth
      · exact (level_full hWorth).symm
      · rw [cast_le, mul_comm]
        exact mul_le_mul_right _ hLong

theorem level_refilled (now : Instant) (hUnit : IsUnit unit) {c : Check} (hLimit : c.limit = limit)
    (hRefilled : ∀ b ∈ tb.map.lookup c.key, Refilled limit unit b) :
    level limit unit (some (tb.refilled now c)) now = level limit unit (tb.map.lookup c.key) now ∧
      Refilled limit unit (tb.refilled now c) := by
  subst hLimit
  unfold refilled
  cases hLookup : tb.map.lookup c.key with
  | some b =>
    exact ⟨level_refill hUnit b, refilled_refill hUnit (hRefilled b hLookup)⟩
  | none =>
    have hNew : Refilled c.limit unit (.new c.limit now) := by
      refine (min_le_right _ _).trans ?_
      simp [new, tolerance]
      positivity
    refine ⟨(level_refill hUnit _).trans ?_, refilled_refill hUnit hNew⟩
    apply level_full
    simp [worth, new, add_mul, tolerance]

/- What a call does to the bucket. -/
theorem serve_pays (hUnit : IsUnit unit) (hIdle : Duration.fromSecs 60 ≤ cfg.idle)
    {x : Ask} {tb' : TenantBuckets}
    (hRefilled : ∀ b ∈ tb.map.lookup k, Refilled limit unit b)
    (hServe : serve cfg k limit tb x tb') :
    (∀ b ∈ tb'.map.lookup k, Refilled limit unit b) ∧
      x.charge unit k + level limit unit (tb'.map.lookup k) x.now ≤
        level limit unit (tb.map.lookup k) x.now := by
  rcases hServe with ⟨hDistinct, hLimit, tb₁, hSame, hAdmitted, rfl⟩
  rw [← hSame] at hRefilled ⊢
  rcases level_makeRoom x.checks x.now hUnit hIdle hRefilled with ⟨hRoom, hKept⟩
  rw [← hRoom]
  cases hFind : x.checks.find? (fun c => c.key = k) with
  | none =>
    have hKey : k ∉ x.checks.map Check.key := by simpa using hFind
    rw [admit_others hKey]
    exact ⟨hKept, by simp [Ask.charge, Ask.taken, hFind]⟩
  | some c =>
    have hMem := mem_of_find?_eq_some hFind
    have hKey : c.key = k := by simpa using find?_some hFind
    subst hKey
    rcases level_refilled x.now hUnit (hLimit c hMem rfl) hKept with ⟨hLevel, hStays⟩
    have hTaken :
        x.taken c.key =
          if (tb₁.admitAll cfg x.checks x.now).1.isOk then
            some c.cost
          else none := by
      simp [Ask.taken, hAdmitted, hFind]
    rw [Ask.charge, hTaken]
    rcases admit_cases cfg tb₁ x.checks x.now with
      ⟨hNil, _⟩ | ⟨_, hAdmit⟩ | ⟨hFree, _, _, _, hAdmit⟩ | ⟨_, _, _, hAdmit⟩
    · simp [hNil] at hMem
    · rw [hAdmit]
      exact ⟨hKept, by simp [Except.isOk, Except.toBool]⟩
    · rw [admit_refused_lookup hDistinct hFree (by rw [hAdmit]) hMem, hAdmit, ← hLevel]
      exact ⟨by simpa using hStays,
        by simp [Except.isOk, Except.toBool]⟩
    · rcases admit_ok_lookup hDistinct (by rw [hAdmit]) hMem with ⟨hFits, hLookup⟩
      rcases level_debit hUnit x.now rfl
          ((refilled_tokens_le c).trans_eq
            (by rw [hLimit c hMem rfl])) hFits with
        ⟨hPays, hUsed⟩
      rw [hLookup, hAdmit, ← hLevel]
      exact ⟨by simpa using hUsed, hPays⟩

theorem metered (hUnit : IsUnit unit) (hIdle : Duration.fromSecs 60 ≤ cfg.idle) (k : BucketKey) :
    Metered (serve cfg k limit) Ask.now (Ask.charge unit k)
      (fun tb => level limit unit (tb.map.lookup k)) limit
      (fun tb => ∀ b ∈ tb.map.lookup k, Refilled limit unit b) where
  keeps := fun _ _ _ hKept hServe => (serve_pays hUnit hIdle hKept hServe).1
  pays := fun _ _ _ hKept hServe => (serve_pays hUnit hIdle hKept hServe).2
  grows := by
    intro tb a b hOrder
    cases tb.map.lookup k with
    | none => exact le_add_right _ _
    | some c =>
      have hMore : worth limit unit c b ≤ worth limit unit c a + (limit * (b - a) : Nat) := by
        unfold worth
        rw [add_assoc, ← cast_add, mul_comm limit, ← add_mul]
        gcongr
        omega
      have hFloor := Int.floor_mono hMore
      rw [Int.floor_add_natCast] at hFloor
      simp only [level, Option.elim_some]
      omega

theorem sum_charges (k : BucketKey) (asks : List Ask) :
    (asks.map (Ask.charge unit k)).sum =
      (asks.filterMap (Ask.taken k)).sum * unit - 60 * (asks.filterMap (Ask.taken k)).length := by
  induction asks with
  | nil => simp
  | cons x asks ih =>
    rw [map_cons, sum_cons, ih]
    cases hTaken : x.taken k with
    | none => simp [Ask.charge, hTaken]
    | some cost =>
      simp [Ask.charge, hTaken]
      ring

/-
  In any interval of time a bucket pays out its limit, what it
  gains in that time, and the slack of each admission.
-/
theorem admitted_le (hIdle : Duration.fromSecs 60 ≤ cfg.idle) {k : BucketKey} {asks : List Ask}
    (hRun : Transition.Run (serve cfg k limit) {} asks tb)
    (hSorted : asks.Pairwise (fun x y => x.now ≤ y.now)) {lo hi : Instant} (hOrder : lo ≤ hi) :
    let costs := (asks.filter (fun x => lo ≤ x.now ∧ x.now ≤ hi)).filterMap (Ask.taken k)
    (costs.sum : ℚ) ≤ limit + limit * asSecs (hi - lo) / 60 + tolerance * costs.length := by
  intro costs
  obtain ⟨unit, hUnit⟩ : ∃ unit, IsUnit unit := ⟨_, rfl⟩
  have hTop : ∀ (tb : TenantBuckets) t, level limit unit (tb.map.lookup k) t ≤ limit * unit := by
    intro tb t
    cases tb.map.lookup k with
    | none => exact le_rfl
    | some b => exact min_le_left _ _
  have hCharged :=
    (metered hUnit hIdle k).charged_within_le hTop hRun (by simp)
      hOrder hSorted
  rw [sum_charges] at hCharged
  have hBound :
      (costs.sum : ℚ) * unit - 60 * costs.length ≤ limit * unit + limit * ((hi : ℚ) - lo) := by
    exact_mod_cast hCharged
  rw [hUnit.cast] at hBound
  rw [asSecs, cast_sub hOrder]
  generalize costs.sum = total at hBound ⊢
  norm_num [nanosPerSec, tolerance]
  linarith

def oneAMinute (user : Nat) : Check :=
  { Limits.endUserCheck user .rpm with limit := 1 }

/- The first user comes early, waits, and comes back once the second has taken the one place. -/
def minuteAsks : List Ask :=
  [⟨[oneAMinute 1], 0, true⟩,
    ⟨[oneAMinute 1], Duration.fromSecs 30, false⟩,
    ⟨[oneAMinute 1], Duration.fromSecs 60, true⟩,
    ⟨[oneAMinute 2], Duration.fromSecs 180, true⟩,
    ⟨[oneAMinute 1], Duration.fromSecs 300, true⟩]

/- What the first user's bucket paid by an instant. -/
def minuteCosts (hi : Instant) : List Nat :=
  (minuteAsks.filter (fun x => 0 ≤ x.now ∧ x.now ≤ hi)).filterMap (Ask.taken (oneAMinute 1).key)

theorem minuteAsks_admitted_le :
    ∃ tb,
      Transition.Run (serve Limits.oneEndUser (oneAMinute 1).key 1) {} minuteAsks tb ∧
        tb.map.lookup (oneAMinute 2).key = none ∧
        minuteCosts (Duration.fromSecs 60) = [1, 1] ∧
        minuteCosts (Duration.fromSecs 300) = [1, 1, 1] ∧
        ∀ hi,
          ((minuteCosts hi).sum : ℚ) ≤
            (1 : Nat) + (1 : Nat) * asSecs (hi - 0) / 60 + tolerance * (minuteCosts hi).length := by
  have hFound :
      ∃ tb,
        Transition.Run
            (fun tb x tb' =>
              (x.admitted == (admitAll Limits.oneEndUser tb x.checks x.now).1.isOk) = true ∧
                some (admitAll Limits.oneEndUser tb x.checks x.now).2 = some tb')
            {} minuteAsks tb ∧
          tb.map.lookup (oneAMinute 2).key = none :=
    Transition.Run.eval_guard (by decide +kernel)
  have hNamed :
      ∀ x ∈ minuteAsks,
        (x.checks.map Check.key).Nodup ∧
          ∀ c ∈ x.checks, c.key = (oneAMinute 1).key → c.limit = 1 := by
    decide
  obtain ⟨tb, hRun, hGone⟩ := hFound
  have hServed :
      Transition.Run (serve Limits.oneEndUser (oneAMinute 1).key 1) {} minuteAsks tb := by
    apply hRun.mono
    rintro s t x hMem ⟨hAdmitted, hNext⟩
    rcases hNamed x hMem with ⟨hDistinct, hLimit⟩
    exact ⟨hDistinct, hLimit, s, rfl, eq_of_beq hAdmitted, (Option.some.inj hNext).symm⟩
  refine ⟨tb, hServed, hGone, by decide, by decide, fun hi => ?_⟩
  exact admitted_le (by decide) hServed (by decide) (Nat.zero_le hi)

end TenantBuckets

end Tracelane.Gateway
