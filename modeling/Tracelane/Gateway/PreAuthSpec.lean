import Mathlib.Data.Rat.Init
import Mathlib.Algebra.BigOperators.Ring.List
import Mathlib.Algebra.Order.Field.Rat
import Mathlib.Tactic.NormNum
import Mathlib.Tactic.Linarith
import Tracelane.Gateway.PreAuth
import Tracelane.Lib.Metered

/-
  What the pre-auth throttle grants in an interval of time.

  The level of a bucket is what it could pay out now, the time since its last refill included.
  Every call pays for its grants out of the levels; a missing bucket has the level of a full one, so
  that a sweep and a re-creation change nothing.  The time a refill leaves uncounted can stand on
  top of a full bucket, hence the slack.
-/

open Transition Nat

namespace Tracelane.Gateway

namespace PreAuth

open Option

--
-- Accounts
--

/- A bucket of the limiter, whether or not it is there. -/
inductive Account where
| own (key : SourceKey)
| overflow
deriving DecidableEq

/- Where a token taken for a key came from. -/
def accountOf (key : SourceKey) (overflow : Bool) : Account :=
  if overflow then .overflow else .own key

/- One token from an account, seen by an account. -/
def oneToken (from_ a : Account) : ℤ :=
  if from_ = a then 1 else 0

variable (policy : AuthThrottlePolicy)

/- The tokens of a reservation that came from an account. -/
def reserved (a : Account) (source : SourceKey) (r : Reservation) : ℤ :=
  oneToken (accountOf source r.primaryOverflow) a +
    if r.wideTaken then
      match source.wide policy with
      | some wide => oneToken (accountOf wide r.wideOverflow) a
      | none => 0
    else 0

/- The grants minus the refunds of an event. -/
def tokens (a : Account) (e : Event) : ℤ :=
  match e.call, e.answer with
  | .acquire source, .granted r => reserved policy a source r
  | .refund source r, _ => - reserved policy a source r
  | _, _ => 0

/- What is charged to an account between two times. -/
def charged (a : Account) (trace : List Event) (lo hi : Instant) : ℤ :=
  ((trace.filter (fun e => lo ≤ e.time ∧ e.time ≤ hi)).map (tokens policy a)).sum

--
-- Levels
--

/- A millitoken, in the unit a nanosecond refills. -/
def milliUnits : Nat := 60000000

def tokenUnits : Nat := milliUnits * milliPerToken

/- A full bucket's level. -/
def topUnits : Nat := milliUnits * policy.burstMilli

/- What a refill can leave uncounted. -/
def slackUnits : Nat :=
  milliUnits + 1000 * policy.refillPerMinute

/- The tokens of a bucket, with the time since its refill. -/
def Bucket.amount (b : Bucket) (now : Nat) : Nat :=
  milliUnits * b.milli + policy.refillPerMinute * (now - b.since)

def Bucket.level (b : Bucket) (now : Nat) : Nat :=
  min (topUnits policy + slackUnits policy) (b.amount policy now)

def level (a : Account) (s : Inner) (now : Nat) : Nat :=
  match a with
  | .own key => (s.buckets.lookup key).elim (topUnits policy) (fun b => b.level policy now)
  | .overflow => s.overflow.level policy now

structure Inv (s : Inner) : Prop where
  own : ∀ key b, s.buckets.lookup key = some b → b.milli ≤ policy.burstMilli
  overflow : s.overflow.milli ≤ policy.burstMilli
  room : s.buckets.entries.length ≤ policy.maxSources

variable {policy} (b : Bucket)

theorem Bucket.level_le (now : Nat) :
    b.level policy now ≤ topUnits policy + slackUnits policy := by
  unfold Bucket.level
  exact min_le_left _ _

variable (a : Account)

theorem level_le (s : Inner) (now : Nat) :
    level policy a s now ≤ topUnits policy + slackUnits policy := by
  cases a with
  | own key =>
    cases hLookup : s.buckets.lookup key with
    | none =>
      simp only [level, hLookup, elim_none]
      omega
    | some b =>
      simp only [level, hLookup, elim_some]
      exact b.level_le now
  | overflow => exact s.overflow.level_le now

theorem Bucket.level_grows {early late : Nat} (hOrder : early ≤ late) :
    b.level policy late ≤ b.level policy early + policy.refillPerMinute * (late - early) := by
  have hTime : late - b.since ≤ (early - b.since) + (late - early) := by omega
  have hRefill := mul_le_mul_left policy.refillPerMinute hTime
  rw [mul_add] at hRefill
  unfold Bucket.level Bucket.amount
  omega

theorem level_grows (s : Inner) (early late : Nat) (hOrder : early ≤ late) :
    level policy a s late ≤ level policy a s early + policy.refillPerMinute * (late - early) := by
  cases a with
  | own key =>
    cases hLookup : s.buckets.lookup key with
    | none =>
      simp only [level, hLookup, elim_none]
      omega
    | some b =>
      simp only [level, hLookup, elim_some]
      exact b.level_grows hOrder
  | overflow => exact s.overflow.level_grows hOrder

--
-- Buckets
--

/- A refill makes no more than the time it counts. -/
theorem accrued_le (now : Nat) :
    milliUnits * accrued policy b now ≤ policy.refillPerMinute * (now - b.since) := by
  simp only [accrued, saturatingDurationSince, milliUnits]
  set us := min ((now - b.since) / 1000) u64Max
  have hUs : us * 1000 ≤ now - b.since := by omega
  have hTime := mul_le_mul_left policy.refillPerMinute hUs
  have hSwap : policy.refillPerMinute * (us * 1000) = us * policy.refillPerMinute * 1000 := by
    ring
  omega

/- Time that makes nothing is worth less than the slack. -/
theorem uncounted_le {b : Bucket} {now : Nat} (hNone : accrued policy b now = 0) :
    policy.refillPerMinute * (now - b.since) ≤ slackUnits policy := by
  unfold slackUnits milliUnits
  simp only [accrued, saturatingDurationSince] at hNone
  by_cases hRate : policy.refillPerMinute = 0
  · rw [hRate, zero_mul]
    exact zero_le _
  · have hPos : 1 ≤ policy.refillPerMinute := by omega
    have hUs :
        (now - b.since) / 1000 ≤ u64Max →
          (now - b.since) / 1000 * policy.refillPerMinute < 60000 := by
      intro hFits
      rw [min_eq_left hFits] at hNone
      unfold u64Max at hNone
      omega
    have hFits : (now - b.since) / 1000 ≤ u64Max := by
      by_contra hNot
      have hOver : u64Max ≤ (now - b.since) / 1000 := by omega
      rw [min_eq_right hOver] at hNone
      have hMany := mul_le_mul_left u64Max hPos
      unfold u64Max at hNone hMany
      omega
    have hWhole := hUs hFits
    have hTime : now - b.since ≤ (now - b.since) / 1000 * 1000 + 1000 := by omega
    calc
      policy.refillPerMinute * (now - b.since)
        ≤ policy.refillPerMinute * ((now - b.since) / 1000 * 1000 + 1000) := mul_le_mul_left _ hTime
      _ = (now - b.since) / 1000 * policy.refillPerMinute * 1000 +
            1000 * policy.refillPerMinute := by
          ring
      _ ≤ 60000000 + 1000 * policy.refillPerMinute := by
          omega

section Refill

variable {b : Bucket} (hBound : b.milli ≤ policy.burstMilli)

include hBound

variable (now : Nat)

theorem refill_milli_le :
    (refill policy b now).milli ≤ policy.burstMilli := by
  simp only [refill]
  split
  · exact min_le_right _ _
  · exact hBound

/- After a refill nothing is cut off the level. -/
theorem refill_amount_le_top :
    (refill policy b now).amount policy now ≤ topUnits policy + slackUnits policy := by
  have hMilli := mul_le_mul_left milliUnits (refill_milli_le hBound now)
  unfold Bucket.amount topUnits
  apply Nat.add_le_add hMilli
  simp only [refill]
  split_ifs
  · rw [Nat.sub_self, Nat.mul_zero]
    exact zero_le _
  · exact uncounted_le (by omega)

omit hBound in
theorem refill_amount_le :
    (refill policy b now).amount policy now ≤ b.amount policy now := by
  simp only [refill]
  split
  · have hAdd : milliUnits * accrued policy b now ≤ policy.refillPerMinute * (now - b.since) :=
      accrued_le b now
    have hMilli :
        min (min (b.milli + accrued policy b now) u64Max) policy.burstMilli ≤
          b.milli + accrued policy b now := by
      omega
    have hUnits := mul_le_mul_left milliUnits hMilli
    rw [mul_add] at hUnits
    simp only [Bucket.amount, Nat.sub_self, Nat.mul_zero]
    omega
  · exact le_refl _

theorem refill_amount_le_level :
    (refill policy b now).amount policy now ≤ b.level policy now :=
  Nat.le_min.mpr ⟨refill_amount_le_top hBound now, refill_amount_le now⟩

/- What a taken token pays. -/
def spent {α : Type} : Except Nat α → Nat
| .ok _ => tokenUnits
| .error _ => 0

/- A bucket pays for the token it gives. -/
theorem take_pays :
    spent (take policy b now).1 + (take policy b now).2.level policy now ≤ b.level policy now := by
  apply le_trans _ (refill_amount_le_level hBound now)
  simp only [take]
  split_ifs with hEnough
  · have hUnits := mul_le_mul_left milliUnits hEnough
    simp only [spent, Bucket.level, Bucket.amount, tokenUnits, Nat.mul_sub]
    omega
  · simp only [spent, Bucket.level]
    omega

theorem take_milli_le :
    (take policy b now).2.milli ≤ policy.burstMilli := by
  have hRefill := refill_milli_le hBound now
  simp only [take]
  split
  · exact le_trans (sub_le _ _) hRefill
  · exact hRefill

end Refill

theorem putBack_level_le (policy : AuthThrottlePolicy) (b : Bucket) (now : Nat) :
    (putBack policy b).level policy now ≤ tokenUnits + b.level policy now := by
  have hMilli : min (b.milli + milliPerToken) policy.burstMilli ≤ b.milli + milliPerToken :=
    min_le_left _ _
  have hUnits := mul_le_mul_left milliUnits hMilli
  rw [mul_add] at hUnits
  simp only [Bucket.level, Bucket.amount, putBack, tokenUnits]
  omega

--
-- Calls
--

/- A part of a call that charges an account some tokens. -/
def Pays (policy : AuthThrottlePolicy) (now : Nat) (a : Account) (c : ℤ) (s t : Inner) : Prop :=
  Inv policy s → Inv policy t ∧ c * tokenUnits + level policy a t now ≤ level policy a s now

section Calls

variable {now : Nat} {a : Account} {s t u : Inner} {key : SourceKey}
variable {b : Bucket}

theorem Pays.trans {c d : ℤ} (hFirst : Pays policy now a c s u)
    (hSecond : Pays policy now a d u t) :
    Pays policy now a (c + d) s t := by
  intro hInv
  rcases hFirst hInv with ⟨hMiddle, hPaid⟩
  rcases hSecond hMiddle with ⟨hEnd, hLater⟩
  refine ⟨hEnd, ?_⟩
  rw [add_mul]
  omega

theorem Pays.refl :
    Pays policy now a 0 s s := by
  intro hInv
  exact ⟨hInv, by omega⟩

@[simp] theorem level_overflow :
    level policy .overflow s now = s.overflow.level policy now :=
  rfl

theorem level_own_of_some (hLookup : s.buckets.lookup key = some b) :
    level policy (.own key) s now = b.level policy now := by
  simp only [level, hLookup, elim_some]

theorem level_own_of_none (hLookup : s.buckets.lookup key = none) :
    level policy (.own key) s now = topUnits policy := by
  simp only [level, hLookup, elim_none]

/- A full bucket is worth as much as none. -/
theorem top_le_level (hFull : policy.burstMilli ≤ b.milli) :
    topUnits policy ≤ b.level policy now := by
  have hUnits := mul_le_mul_left milliUnits hFull
  unfold Bucket.level Bucket.amount
  unfold topUnits at *
  omega

theorem full_level :
    (Bucket.full policy now).level policy now = topUnits policy := by
  simp only [Bucket.level, Bucket.amount, Bucket.full, Nat.sub_self, Nat.mul_zero, Nat.add_zero]
  unfold topUnits
  omega

theorem length_insert (s : Inner) (key : SourceKey) (b : Bucket) :
    (s.buckets.insert key b).entries.length + (s.buckets.lookup key).elim 0 (fun _ => 1) =
      1 + s.buckets.entries.length := by
  have hWeigh := HashTable.weigh_insert (fun _ _ => 1) s.buckets key b
  rw [HashTable.weigh_one, HashTable.weigh_one] at hWeigh
  exact hWeigh

/- Writing the bucket of a key that has one, or has room. -/
theorem Inv.insert (hInv : Inv policy s)
    (hRoom : s.buckets.lookup key = none → s.buckets.entries.length < policy.maxSources)
    (hBound : b.milli ≤ policy.burstMilli) :
    Inv policy { s with buckets := s.buckets.insert key b } where
  own := HashTable.forall_lookup_insert hBound hInv.own
  overflow := hInv.overflow
  room := by
    have hLen := length_insert s key b
    have hOld := hInv.room
    cases hLookup : s.buckets.lookup key with
    | none =>
      have hFree := hRoom hLookup
      simp only [hLookup, elim_none] at hLen
      show (s.buckets.insert key b).entries.length ≤ _
      omega
    | some old =>
      simp only [hLookup, elim_some] at hLen
      show (s.buckets.insert key b).entries.length ≤ _
      omega

theorem level_insert_self :
    level policy (.own key) { s with buckets := s.buckets.insert key b } now = b.level policy now :=
  level_own_of_some (AList.lookup_insert _)

theorem level_insert_of_ne (hOther : a ≠ .own key) :
    level policy a { s with buckets := s.buckets.insert key b } now = level policy a s now := by
  cases a with
  | overflow => rfl
  | own key' =>
    have hKey : key' ≠ key := by
      intro hSame
      exact hOther (by rw [hSame])
    simp only [level, AList.lookup_insert_ne hKey]

theorem level_overflow_of_ne (hOther : a ≠ .overflow) :
    level policy a { s with overflow := b } now = level policy a s now := by
  cases a with
  | overflow => exact absurd rfl hOther
  | own key' => rfl

@[simp] theorem oneToken_self :
    oneToken a a = 1 :=
  if_pos rfl

theorem oneToken_of_ne {from_ : Account} (hOther : a ≠ from_) :
    oneToken from_ a = 0 :=
  if_neg (Ne.symm hOther)

/- The token a single charge took. -/
def taken (key : SourceKey) (a : Account) : Except Nat Bool → ℤ
| .ok overflow => oneToken (accountOf key overflow) a
| .error _ => 0

theorem taken_map_self (key : SourceKey) (r : Except Nat Unit) (overflow : Bool) :
    taken key (accountOf key overflow) (r.map (fun _ => overflow)) * tokenUnits = spent r := by
  cases r with
  | error retryAfter => exact Int.zero_mul _
  | ok => simp [Except.map, taken, spent]

theorem taken_map_of_ne (r : Except Nat Unit) {overflow : Bool}
    (hOther : a ≠ accountOf key overflow) :
    taken key a (r.map (fun _ => overflow)) = 0 := by
  cases r with
  | error retryAfter => rfl
  | ok => exact oneToken_of_ne hOther

/- Charge a bucket that is worth no more than its account. -/
theorem pays_own (hBound : b.milli ≤ policy.burstMilli)
    (hWorth : b.level policy now ≤ level policy (.own key) s now)
    (hRoom : s.buckets.lookup key = none → s.buckets.entries.length < policy.maxSources) :
    Pays policy now a
      (taken key a ((take policy b now).1.map (fun _ => false)))
      s
      { s with
        buckets := s.buckets.insert key (take policy b now).2 } := by
  intro hInv
  refine ⟨hInv.insert hRoom (take_milli_le hBound now), ?_⟩
  by_cases hOwn : a = .own key
  · have hPaid := take_pays hBound now
    have hTaken := taken_map_self key (take policy b now).1 false
    simp only [accountOf, Bool.false_eq_true, if_false] at hTaken
    rw [hOwn, hTaken, level_insert_self]
    omega
  · rw [taken_map_of_ne _ hOwn, level_insert_of_ne hOwn]
    omega

theorem pays_overflow :
    Pays policy now a
      (taken key a ((take policy s.overflow now).1.map (fun _ => true)))
      s
      { s with overflow := (take policy s.overflow now).2 } := by
  intro hInv
  refine ⟨⟨hInv.own, take_milli_le hInv.overflow now, hInv.room⟩, ?_⟩
  by_cases hOverflow : a = .overflow
  · have hPaid := take_pays hInv.overflow now
    have hTaken := taken_map_self key (take policy s.overflow now).1 true
    simp only [accountOf, if_true] at hTaken
    rw [hOverflow, hTaken]
    simp only [level_overflow]
    omega
  · rw [taken_map_of_ne _ hOverflow, level_overflow_of_ne hOverflow]
    omega

theorem lookup_sweep :
    (sweep policy s now).buckets.lookup key =
      ((s.buckets.lookup key).map
        (fun b => refill policy b now)).filter (fun b => b.milli < policy.burstMilli) := by
  simp only [sweep, HashTable.lookup_retain, HashTable.lookup_mapVal]

/- A sweep forgets only what is worth a full bucket. -/
theorem sweep_pays :
    Pays policy now a 0 s (sweep policy s now) := by
  intro hInv
  refine ⟨⟨?_, hInv.overflow, ?_⟩, ?_⟩
  · intro key b hLookup
    rw [lookup_sweep, filter_eq_some_iff, map_eq_some_iff] at hLookup
    rcases hLookup with ⟨⟨old, hOld, rfl⟩, _⟩
    exact refill_milli_le (hInv.own key old hOld) now
  · calc
      (sweep policy s now).buckets.entries.length
        ≤ (s.buckets.mapVal (fun b => refill policy b now)).entries.length :=
          List.length_filter_le _ _
      _ = s.buckets.entries.length := by
          simp [HashTable.mapVal]
      _ ≤ policy.maxSources := hInv.room
  · suffices hLevel :
        level policy a (sweep policy s now) now ≤
          level policy a s now by
      omega
    cases a with
    | overflow => exact le_refl _
    | own key =>
      cases hOld : s.buckets.lookup key with
      | none =>
        have hNew : (sweep policy s now).buckets.lookup key = none := by simp [lookup_sweep, hOld]
        rw [level_own_of_none hOld, level_own_of_none hNew]
      | some old =>
        have hWorth := refill_amount_le_level (hInv.own key old hOld) now
        rw [level_own_of_some hOld]
        apply le_trans _ hWorth
        by_cases hKept : (refill policy old now).milli < policy.burstMilli
        · have hNew : (sweep policy s now).buckets.lookup key = some (refill policy old now) := by
            simp [lookup_sweep, hOld, hKept]
          rw [level_own_of_some hNew]
          exact min_le_right _ _
        · have hFull : policy.burstMilli ≤ (refill policy old now).milli := by omega
          have hNew : (sweep policy s now).buckets.lookup key = none := by
            simp [lookup_sweep, hOld, hFull]
          rw [level_own_of_none hNew]
          exact le_trans (top_le_level hFull) (min_le_right _ _)

theorem maybeSweep_cases :
    maybeSweep policy s now = s ∨
      ∃ lastSweepMs, maybeSweep policy s now = sweep policy { s with lastSweepMs } now := by
  rw [maybeSweep]
  split
  · exact .inl rfl
  · exact .inr ⟨_, rfl⟩

theorem maybeSweep_pays :
    Pays policy now a 0 s (maybeSweep policy s now) := by
  rcases maybeSweep_cases with hSkip | ⟨lastSweepMs, hSwept⟩
  · rw [hSkip]
    exact .refl
  · intro hInv
    rw [hSwept]
    exact sweep_pays (s := { s with lastSweepMs }) { hInv with }

theorem lookup_maybeSweep (hLookup : s.buckets.lookup key = none) :
    (maybeSweep policy s now).buckets.lookup key = none := by
  rcases maybeSweep_cases with hSkip | ⟨lastSweepMs, hSwept⟩
  · rw [hSkip]
    exact hLookup
  · rw [hSwept, lookup_sweep, hLookup]
    rfl

theorem acquireOne_pays (s : Inner) (key : SourceKey) :
    Pays policy now a
      (taken key a (acquireOne policy s key now).1) s
      (acquireOne policy s key now).2 := by
  intro hInv
  cases hLookup : s.buckets.lookup key with
  | some b =>
    simp only [acquireOne, hLookup]
    apply pays_own (hInv.own key b hLookup) _ _ hInv
    · rw [level_own_of_some hLookup]
    · simp [hLookup]
  | none =>
    simp only [acquireOne, hLookup]
    have hFirst :
        Pays policy now a 0 s
          (if s.isFull policy then maybeSweep policy s now else s) := by
      split
      · exact maybeSweep_pays
      · exact .refl
    have hMissing :
        (if s.isFull policy then maybeSweep policy s now
          else s).buckets.lookup key = none := by
      split
      · exact lookup_maybeSweep hLookup
      · exact hLookup
    generalize
      (if s.isFull policy then maybeSweep policy s now
        else s) = u at hFirst hMissing ⊢
    rw [← zero_add (taken key a _)]
    apply Pays.trans hFirst _ hInv
    split
    · exact pays_overflow
    · rename_i hFree
      apply pays_own (le_refl _)
      · rw [full_level, level_own_of_none hMissing]
      · intro _
        simpa [Inner.isFull] using hFree

theorem refundOne_pays (key : SourceKey) (overflow : Bool) :
    Pays policy now a (- oneToken (accountOf key overflow) a) s
      (refundOne policy s key overflow) := by
  intro hInv
  cases overflow with
  | true =>
    refine ⟨⟨hInv.own, min_le_right _ _, hInv.room⟩, ?_⟩
    by_cases hOverflow : a = .overflow
    · subst hOverflow
      have hBack := putBack_level_le policy s.overflow now
      simp only [refundOne, accountOf, if_true, oneToken_self, level_overflow]
      omega
    · simp only [refundOne, accountOf, if_true,
        oneToken_of_ne hOverflow, level_overflow_of_ne hOverflow]
      omega
  | false =>
    simp only [refundOne, accountOf, Bool.false_eq_true, if_false]
    cases hLookup : s.buckets.lookup key with
    | none =>
      refine ⟨hInv, ?_⟩
      by_cases hOwn : a = .own key
      · subst hOwn
        simp only [oneToken_self]
        omega
      · simp only [oneToken_of_ne hOwn]
        omega
    | some b =>
      refine ⟨hInv.insert (by simp [hLookup]) (min_le_right _ _), ?_⟩
      by_cases hOwn : a = .own key
      · subst hOwn
        have hBack := putBack_level_le policy b now
        simp only [oneToken_self, level_insert_self, level_own_of_some hLookup]
        omega
      · simp only [oneToken_of_ne hOwn, level_insert_of_ne hOwn]
        omega

/- What an `acquire` charges an account. -/
def granted (policy : AuthThrottlePolicy) (a : Account)
    (source : SourceKey) : Except Nat Reservation → ℤ
| .ok r => reserved policy a source r
| .error _ => 0

theorem acquire_pays (source : SourceKey) :
    Pays policy now a
      (granted policy a source (acquire policy s source now).1)
      s (acquire policy s source now).2 := by
  have hPrimary :
      Pays policy now a
        (taken source a (acquireOne policy s source now).1) s
        (acquireOne policy s source now).2 :=
    acquireOne_pays s source
  unfold acquire
  generalize acquireOne policy s source now = r at hPrimary ⊢
  rcases r with ⟨first, u⟩
  cases first with
  | error retryAfter => exact hPrimary
  | ok primaryOverflow =>
    cases hWide : source.wide policy with
    | none => simpa [granted, reserved, taken] using hPrimary
    | some wide =>
      have hSecond :
          Pays policy now a
            (taken wide a (acquireOne policy u wide now).1) u
            (acquireOne policy u wide now).2 :=
        acquireOne_pays u wide
      simp only
      generalize acquireOne policy u wide now = r at hSecond ⊢
      rcases r with ⟨second, t⟩
      cases second with
      | ok wideOverflow => simpa [granted, reserved, taken, hWide] using hPrimary.trans hSecond
      | error retryAfter =>
        -- The wide bucket refused: the first token is
        -- given back.
        have hUndo := (hPrimary.trans hSecond).trans (refundOne_pays source primaryOverflow)
        simpa [granted, taken] using hUndo

theorem refund_pays (source : SourceKey) (r : Reservation) :
    Pays policy now a (- reserved policy a source r) s (refund policy s source r) := by
  have hPrimary :
      Pays policy now a
        (- oneToken (accountOf source r.primaryOverflow) a) s
        (refundOne policy s source r.primaryOverflow) :=
    refundOne_pays source r.primaryOverflow
  unfold refund reserved
  cases r.wideTaken with
  | false => simpa using hPrimary
  | true =>
    cases source.wide policy with
    | none => simpa using hPrimary
    | some wide =>
      have hBoth := hPrimary.trans (refundOne_pays wide r.wideOverflow)
      simpa [neg_add, add_comm] using hBoth

/- Every call pays for what it charges. -/
theorem step_pays {e : Event} (hStep : step policy s e = some t) :
    Pays policy e.time a (tokens policy a e) s t := by
  rcases e with ⟨time, call, answer⟩
  simp only [step, ite_none_right_eq_some, some.injEq] at hStep
  rcases hStep with ⟨rfl, rfl⟩
  cases call with
  | acquire source =>
    have hPaid :
        Pays policy time a
          (granted policy a source (acquire policy s source time).1)
          s (acquire policy s source time).2 :=
      acquire_pays source
    simp only [perform]
    generalize acquire policy s source time = r at hPaid ⊢
    rcases r with ⟨result, u⟩
    cases result with
    | ok _ | error _ => exact hPaid
  | refund source r => exact refund_pays source r
  | sweep => exact maybeSweep_pays

end Calls

--
-- Runs
--

theorem metered :
    Metered (fun s e t => step policy s e = some t)
      Event.time
      (fun e => tokens policy a e * tokenUnits)
      (level policy a) policy.refillPerMinute
      (Inv policy) where
  keeps := by
    intro s e t hInv hStep
    exact (step_pays (a := a) hStep hInv).1
  pays := by
    intro s e t hInv hStep
    exact (step_pays hStep hInv).2
  grows := level_grows a

theorem new_inv (start : Nat) :
    Inv policy (Inner.new policy start) where
  own := by
    intro key b hLookup
    simp [Inner.new] at hLookup
  overflow := le_refl _
  room := zero_le _

theorem charged_units_le {start : Nat} {trace : List Event} {s : Inner}
    (hRun : Run (fun s e t => step policy s e = some t) (Inner.new policy start) trace s)
    (hSorted : trace.Pairwise (fun d e => d.time ≤ e.time))
    (a : Account) {lo hi : Nat} (hOrder : lo ≤ hi) :
    charged policy a trace lo hi * tokenUnits ≤
      topUnits policy + slackUnits policy + policy.refillPerMinute * ((hi : ℤ) - lo) := by
  have hCharged := (metered a).charged_within_le (level_le a) hRun (new_inv start) hOrder hSorted
  rw [List.sum_map_mul_right] at hCharged
  exact_mod_cast hCharged

/-
  In every interval of time, the grants less the refunds of a bucket are at most the burst and the
  refill of that time, up to one millitoken and the refill of one microsecond.  No bucket holds more
  than the burst, and no more than `max_sources` buckets are kept.
-/
theorem grants_within_bounded (policy : AuthThrottlePolicy) (start : Instant) (trace : List Event)
    (s : Inner)
    (hRun : Run (fun s e t => step policy s e = some t) (Inner.new policy start) trace s)
    (hSorted : trace.Pairwise (fun d e => d.time ≤ e.time)) :
    (∀ a lo hi, lo ≤ hi →
      (charged policy a trace lo hi : ℚ) ≤ policy.burst +
          policy.refillPerMinute * (((hi : ℚ) - lo) / 1000 + 1) / 60000000 +
          1 / 1000) ∧
      (∀ key b, s.buckets.lookup key = some b → b.milli ≤ policy.burst * milliPerToken) ∧
      s.overflow.milli ≤ policy.burst * milliPerToken ∧
      s.buckets.entries.length ≤ policy.maxSources := by
  have hInv : Inv policy s := by
    apply hRun.invariant (metered .overflow).keeps
    exact new_inv start
  refine ⟨?_, hInv.own, hInv.overflow, hInv.room⟩
  intro a lo hi hOrder
  have hUnits := charged_units_le hRun hSorted a hOrder
  have hRat :
      (charged policy a trace lo hi : ℚ) * 60000000000 ≤
        60000000000 * policy.burst +
          (60000000 + 1000 * policy.refillPerMinute) +
          policy.refillPerMinute * ((hi : ℚ) - lo) := by
    have hCast := Int.cast_le (R := ℚ).mpr hUnits
    simp only [tokenUnits, topUnits, slackUnits, milliUnits,
      milliPerToken, AuthThrottlePolicy.burstMilli] at hCast
    push_cast at hCast
    linarith
  linarith

/- One token, a new one every second, one source. -/
def oneASecond : AuthThrottlePolicy where
  burst := 1
  refillPerMinute := 60
  maxSources := 1
  ipv6PrefixLen := 64
  ipv6WidePrefixLen := 48
  sweepIntervalMs := 1000

def primaryOnly : Reservation where
  primaryOverflow := false
  wideTaken := false
  wideOverflow := false

/-
  A token taken and given back fills the bucket at time zero. Taking it again after 999 microseconds
  refills nothing, so the next refill counts those microseconds too.
-/
def banked : List Event :=
  [⟨0, .acquire 1, .granted primaryOnly⟩,
    ⟨0, .refund 1 primaryOnly, .done⟩,
    ⟨999000, .acquire 1, .granted primaryOnly⟩,
    ⟨1000000000, .acquire 1, .granted primaryOnly⟩]

theorem banked_sorted :
    banked.Pairwise (fun d e => d.time ≤ e.time) := by
  decide

theorem banked_runs :
    ∃ s, Run (fun s e t => step oneASecond s e = some t) (Inner.new oneASecond 0) banked s := by
  have hFold : (banked.foldlM (step oneASecond) (Inner.new oneASecond 0)).isSome := by decide
  rcases isSome_iff_exists.mp hFold with ⟨s, hSome⟩
  exact ⟨s, .of_foldlM hSome⟩

/- Two tokens within less than a second of refill. -/
theorem banked_exceeds :
    ∃ s,
      Run (fun s e t => step oneASecond s e = some t) (Inner.new oneASecond 0) banked s ∧
        banked.Pairwise (fun d e => d.time ≤ e.time) ∧
        ¬ (charged oneASecond (.own 1) banked 999000 1000000000 : ℚ) ≤
          oneASecond.burst +
            oneASecond.refillPerMinute * ((1000000000 - 999000) / 1000) / 60000000 := by
  rcases banked_runs with ⟨s, hRun⟩
  have hCharged : charged oneASecond (.own 1) banked 999000 1000000000 = 2 := by decide
  refine ⟨s, hRun, banked_sorted, ?_⟩
  rw [hCharged]
  norm_num [oneASecond]

theorem banked_bounded :
    (charged oneASecond (.own 1) banked 999000 1000000000 : ℚ) ≤
      oneASecond.burst +
        oneASecond.refillPerMinute *
          ((((1000000000 : Nat) : ℚ) - (999000 : Nat)) / 1000 + 1) / 60000000 +
        1 / 1000 := by
  rcases banked_runs with ⟨s, hRun⟩
  exact (grants_within_bounded oneASecond 0 banked s hRun
    banked_sorted).1 (.own 1) 999000 1000000000 (by decide)

end PreAuth

end Tracelane.Gateway
