import Tracelane.Gateway.Intake

/-
  What the upload intake keeps over every interleaving of its calls.

  The semaphore always balances against the permits owned, and the ledger against what the permits
  count as held.  The reserve is short only by what small paying tenants hold and by what permits
  being dropped have not given back yet.
-/

namespace Tracelane.Gateway

open Nat List

namespace Intake

open Shares
open Transition (Run)
open Option Function

variable {τ : Type} (l : MediaLimits) (tier : τ → PlanTier)

--
-- Accounts
--

namespace Permit

/- What a permit being dropped still owns. -/
def pending (p : Permit τ) : Nat :=
  if p.phase = .dropping then p.bytes else 0

/- What a permit owns otherwise. -/
def kept (p : Permit τ) : Nat :=
  if p.phase = .dropping then 0 else p.bytes

def freeMib (p : Permit τ) : Nat :=
  if tier p.tenant = .free then p.heldMib else 0

def slot (p : Permit τ) : Nat :=
  if p.phase = .gone then 0 else 1

theorem kept_add_pending (p : Permit τ) :
    p.kept + p.pending = p.bytes := by
  unfold kept pending
  split <;> simp

/- The reservation and the buffer, wherever the call stands. -/
def Fits (p : Permit τ) : Prop :=
  match p.phase with
  | .opening => p.heldMib = 0 ∧ p.bytes = 0 ∧ p.buffer.requested = 0
  | .idle => p.bytes = p.heldMib ∧ p.buffer.requested ≤ p.heldMib * mib
  | .growing want cause =>
      p.bytes = p.heldMib ∧ p.heldMib < want ∧
        p.buffer.requested ≤ p.heldMib * mib ∧
        (cause.buffer p.buffer).requested ≤ want * mib ∧
        (cause = .first → p.heldMib = 0)
  | .shrinking want => p.bytes = want ∧ want < p.heldMib ∧ p.buffer.requested ≤ want * mib
  | .dropping => p.heldMib = 0
  | .failed
  | .closing
  | .gone => p.heldMib = 0 ∧ p.bytes = 0

theorem Fits.kept_le {p : Permit τ} (hFits : p.Fits) :
    p.kept ≤ p.heldMib := by
  unfold Fits at hFits
  unfold kept
  cases hPhase : p.phase <;> simp only [hPhase] at hFits <;> simp <;> omega

end Permit

open Permit

variable [DecidableEq τ]

namespace ByteBudget

variable (s : ByteBudget τ)

/- What tenants that may draw on the reserve hold. -/
def smallPaying : Nat :=
  small Permit.tenant kept (fun t => decide (tier t ≠ .free))
    l.bodyBufferReserveTenantMaxMb s.permits

/- What permits being dropped have not given back yet. -/
def dropping : Nat :=
  total pending s.permits

/- No call is in progress. -/
def Quiet : Prop :=
  ∀ p ∈ s.permits, p.phase = .idle ∨ p.phase = .gone

structure Sound : Prop where
  fits : ∀ p ∈ s.permits, p.Fits
  taken : s.available + total Permit.bytes s.permits = l.bodyBufferBudgetMb
  ledger : ∀ t, s.perTenant t = held Permit.tenant Permit.heldMib s.permits t
  free : s.freeHeld = total (freeMib tier) s.permits
  slots : ∀ t, s.slots t = held Permit.tenant slot s.permits t
  share : ∀ t, s.perTenant t ≤ l.shareMib (tier t)
  freeTotal : s.freeHeld ≤ l.bodyBufferFreeTenantsTotalMb
  reserve : l.bodyBufferReservedForNewTenantsMb ≤ s.available + s.dropping + s.smallPaying l tier

/- What the checks of `ensure` establish. -/
structure Admitted (t : τ) (more : Nat) : Prop where
  share : s.perTenant t + more ≤ l.shareMib (tier t)
  free : tier t = .free → s.freeHeld + more ≤ l.bodyBufferFreeTenantsTotalMb
  reserve :
    l.bodyBufferReservedForNewTenantsMb ≤ s.available - more ∨
      s.perTenant t + more ≤ l.reserveTenantMaxMib (tier t)

/- Growth under way holds the lock, and its checks stand. -/
def Locked : Prop :=
  ∀ i p want cause, s.permits[i]? = some p →
    p.phase = .growing want cause → s.lock = some i ∧ s.Admitted l tier p.tenant (want - p.heldMib)

end ByteBudget

open ByteBudget

variable {l : MediaLimits} {tier : τ → PlanTier} {s s' : ByteBudget τ} {i : Nat}
variable {p q : Permit τ}

omit [DecidableEq τ] in
theorem admitted_of_check {t : τ} {more : Nat} (hCheck : check l tier s t more = none) :
    s.Admitted l tier t more := by
  unfold check at hCheck
  dsimp only at hCheck
  split at hCheck
  · cases hCheck
  · split at hCheck
    · cases hCheck
    · split at hCheck
      · cases hCheck
      · rename_i hShare hFree hReserve
        refine ⟨by omega, fun hTier => ?_, ?_⟩
        · simp only [hTier, true_and] at hFree
          omega
        · omega

--
-- Moves of One Permit
--

/- A permit moves on, and the shared accounts follow it. -/
structure Move (tier : τ → PlanTier) (s : ByteBudget τ) (i : Nat)
    (p q : Permit τ) (s' : ByteBudget τ) : Prop where
  found : s.permits[i]? = some p
  permits : s'.permits = s.permits.set i q
  tenant : q.tenant = p.tenant
  fits : q.Fits
  taken : s'.available + q.bytes = s.available + p.bytes
  others : ∀ t, t ≠ p.tenant → s'.perTenant t = s.perTenant t
  ledger : s'.perTenant p.tenant + p.heldMib = s.perTenant p.tenant + q.heldMib
  free : s'.freeHeld + freeMib tier p = s.freeHeld + freeMib tier q
  otherSlots : ∀ t, t ≠ p.tenant → s'.slots t = s.slots t
  slots : s'.slots p.tenant + slot p = s.slots p.tenant + slot q

namespace Move

section

variable (hMove : Move tier s i p q s')
include hMove

omit [DecidableEq τ] in
theorem fits_all (hFits : ∀ p ∈ s.permits, p.Fits) :
    ∀ p ∈ s'.permits, p.Fits := by
  intro p' hMem
  rw [hMove.permits] at hMem
  rcases mem_or_eq_of_mem_set hMem with hOld | rfl
  · exact hFits p' hOld
  · exact hMove.fits

/- An account by tenant that follows the permit balances. -/
theorem balances {account account' : τ → Nat} {size : Permit τ → Nat}
    (hOthers : ∀ t, t ≠ p.tenant → account' t = account t)
    (hOwn : account' p.tenant + size p = account p.tenant + size q)
    (hBefore : ∀ t, account t = held Permit.tenant size s.permits t) (t : τ) :
    account' t = held Permit.tenant size s'.permits t := by
  rw [hMove.permits]
  by_cases hSame : t = p.tenant
  · subst hSame
    have hSet := held_set Permit.tenant size hMove.found hMove.tenant
    have := hBefore p.tenant
    omega
  · rw [hOthers t hSame, hBefore t, held_set_ne Permit.tenant size hMove.found hMove.tenant hSame]

/- All but the caps and the reserve follows the permit. -/
theorem sound (hSound : s.Sound l tier)
    (hShare : s'.perTenant p.tenant ≤ l.shareMib (tier p.tenant))
    (hFreeTotal : s'.freeHeld ≤ l.bodyBufferFreeTenantsTotalMb)
    (hReserve :
      l.bodyBufferReservedForNewTenantsMb ≤ s'.available + s'.dropping + s'.smallPaying l tier) :
    s'.Sound l tier where
  fits := hMove.fits_all hSound.fits
  taken := by
    have hSet := total_set Permit.bytes hMove.found q
    have hTaken := hSound.taken
    have hBytes := hMove.taken
    rw [hMove.permits]
    omega
  ledger := hMove.balances hMove.others hMove.ledger hSound.ledger
  free := by
    have hSet := total_set (freeMib tier) hMove.found q
    have hFree := hSound.free
    have hOwn := hMove.free
    rw [hMove.permits]
    omega
  slots := hMove.balances hMove.otherSlots hMove.slots hSound.slots
  share := by
    intro t
    by_cases hSame : t = p.tenant
    · rw [hSame]
      exact hShare
    · rw [hMove.others t hSame]
      exact hSound.share t
  freeTotal := hFreeTotal
  reserve := hReserve

/- What is given back eases the caps and the reserve. -/
theorem released (hSound : s.Sound l tier)
    (hHeld : q.heldMib ≤ p.heldMib) (hKept : q.kept ≤ p.kept) :
    s'.Sound l tier := by
  have hFree : freeMib tier q ≤ freeMib tier p := by
    unfold freeMib
    rw [hMove.tenant]
    split <;> omega
  refine hMove.sound hSound ?_ ?_ ?_
  · have := hMove.ledger
    have := hSound.share p.tenant
    omega
  · have := hMove.free
    have := hSound.freeTotal
    omega
  · have hSmall :=
      small_release Permit.tenant kept (fun t => decide (tier t ≠ .free))
        l.bodyBufferReserveTenantMaxMb hMove.found hMove.tenant hKept
    have hPending := total_set pending hMove.found q
    have hTaken := hMove.taken
    have hReserve := hSound.reserve
    have hSplitP := p.kept_add_pending
    have hSplitQ := q.kept_add_pending
    unfold smallPaying dropping at *
    rw [hMove.permits]
    omega

end

end Move

--
-- The Lock
--

namespace ByteBudget

/- Other permits do not grow while this one may. -/
omit [DecidableEq τ] in
theorem Locked.alone (hLocked : s.Locked l tier) (hLock : s.lock = none ∨ s.lock = some i)
    (hPermits : s'.permits = s.permits.set i q)
    (hGrowing :
      ∀ want cause, q.phase = .growing want cause →
        s'.lock = some i ∧ s'.Admitted l tier q.tenant (want - q.heldMib)) :
    s'.Locked l tier := by
  intro j r want cause hAt hPhase
  rw [hPermits, getElem?_set] at hAt
  split at hAt
  · split at hAt <;> cases hAt
    rename_i hSame _
    rw [← hSame]
    exact hGrowing want cause hPhase
  · rename_i hOther
    rcases hLocked j r want cause hAt hPhase with ⟨hHeld, _⟩
    rcases hLock with hNone | hOwn
    · rw [hNone] at hHeld
      cases hHeld
    · rw [hOwn, some.injEq] at hHeld
      exact absurd hHeld hOther

/- Permits given back meanwhile do not undo the checks. -/
omit [DecidableEq τ] in
theorem Locked.eased (hLocked : s.Locked l tier) (hPermits : s'.permits = s.permits.set i q)
    (hIdle : ∀ want cause, q.phase ≠ .growing want cause)
    (hLock : s'.lock = s.lock) (hAvailable : s.available ≤ s'.available)
    (hLedger : s'.perTenant = s.perTenant) (hFree : s'.freeHeld = s.freeHeld) :
    s'.Locked l tier := by
  intro j r want cause hAt hPhase
  rw [hPermits, getElem?_set] at hAt
  split at hAt
  · split at hAt <;> cases hAt
    exact absurd hPhase (hIdle want cause)
  · rcases hLocked j r want cause hAt hPhase with ⟨hHeld, hShare, hFreeTotal, hReserve⟩
    refine ⟨hLock.trans hHeld, ?_, ?_, ?_⟩
    · rw [hLedger]
      exact hShare
    · rw [hFree]
      exact hFreeTotal
    · rw [hLedger]
      omega

end ByteBudget

--
-- The Calls
--

/- The invariant of the intake. -/
structure Inv (l : MediaLimits) (tier : τ → PlanTier) (s : ByteBudget τ) : Prop where
  sound : s.Sound l tier
  locked : s.Locked l tier

theorem le_mibFor (bytes : Nat) :
    bytes ≤ mibFor bytes * mib := by
  unfold mibFor mib
  omega

/- A permit that owns and holds what it did moves on alone. -/
omit [DecidableEq τ] in
theorem Move.here (hAt : s.permits[i]? = some p) (hTenant : q.tenant = p.tenant)
    (hBytes : q.bytes = p.bytes) (hHeld : q.heldMib = p.heldMib)
    (hSlot : slot q = slot p) (hFits : q.Fits) (k : Option Nat) :
    Move tier s i p q
      { s with permits := s.permits.set i q, lock := k } where
  found := hAt
  permits := rfl
  tenant := hTenant
  fits := hFits
  taken := by rw [hBytes]
  others _ _ := rfl
  ledger := by rw [hHeld]
  free := by rw [freeMib, freeMib, hTenant, hHeld]
  otherSlots _ _ := rfl
  slots := by rw [hSlot]

variable {want : Nat} {cause : Growth} {r : Option Refusal}

/- What is known of a permit that asks for more. -/
structure Asking (p : Permit τ) (want : Nat) (cause : Growth) :
    Prop where
  owns : p.bytes = p.heldMib
  covered : p.buffer.requested ≤ p.heldMib * mib
  covers : (cause.buffer p.buffer).requested ≤ want * mib
  first : cause = .first → p.heldMib = 0

omit [DecidableEq τ] in
theorem Asking.refused_fits (hAsking : Asking p want cause) :
    (refused p cause).Fits := by
  cases cause with
  | first =>
    have hHeld := hAsking.first rfl
    exact ⟨hHeld, hAsking.owns.trans hHeld⟩
  | append need target slack =>
    exact ⟨hAsking.owns, hAsking.covered⟩

omit [DecidableEq τ] in
theorem refused_same (p : Permit τ) (cause : Growth) :
    (refused p cause).tenant = p.tenant ∧
      (refused p cause).bytes = p.bytes ∧
      (refused p cause).heldMib = p.heldMib ∧
      slot (refused p cause) = 1 ∧
      (refused p cause).kept = p.bytes ∧
      ∀ want cause', (refused p cause).phase ≠ .growing want cause' := by
  cases cause <;> simp [refused, slot, kept]

omit [DecidableEq τ] in
theorem slot_kept (hDropping : p.phase ≠ .dropping) (hGone : p.phase ≠ .gone) :
    slot p = 1 ∧ p.kept = p.bytes := by
  simp [slot, kept, hDropping, hGone]

section

variable (hInv : Inv l tier s) (hAt : s.permits[i]? = some p) (hDropping : p.phase ≠ .dropping)
  (hGone : p.phase ≠ .gone)
include hInv hAt hDropping hGone

/- A call answered without growth leaves the accounts. -/
theorem Inv.here
    (hSame :
      q.tenant = p.tenant ∧ q.bytes = p.bytes ∧
        q.heldMib = p.heldMib ∧ slot q = 1 ∧
        q.kept = p.bytes)
    (hFits : q.Fits)
    {k : Option Nat}
    (hLocked : ByteBudget.Locked l tier { s with permits := s.permits.set i q, lock := k }) :
    Inv l tier { s with permits := s.permits.set i q, lock := k } := by
  rcases hSame with ⟨hTenant, hBytes, hHeld, hSlot, hKept⟩
  rcases slot_kept hDropping hGone with ⟨hSlotP, hKeptP⟩
  have hMove : Move tier s i p q
      { s with permits := s.permits.set i q, lock := k } :=
    .here hAt hTenant hBytes hHeld (by rw [hSlot, hSlotP]) hFits k
  exact ⟨hMove.released hInv.sound (by omega) (by omega), hLocked⟩

theorem ensure_inv (hAsking : Asking p want cause)
    (hEnsure : ensure l tier s i p want cause = some (s', r)) :
    Inv l tier s' := by
  unfold ensure at hEnsure
  split at hEnsure
  · rename_i hEnough
    cases hEnsure
    refine hInv.here hAt hDropping hGone ?_ ?_ ?_
    · simp [slot, kept]
    · have hCovers := hAsking.covers
      have := mul_le_mul_right mib hEnough
      exact ⟨hAsking.owns, by dsimp only; omega⟩
    · exact hInv.locked.eased rfl (by simp) rfl le_rfl rfl rfl
  · rename_i hMore
    split at hEnsure
    · cases hEnsure
    · rename_i hLock
      rw [ne_eq, not_not] at hLock
      split at hEnsure
      · rcases refused_same p cause with ⟨hTenant, hBytes, hHeld, hSlot, hKept, hIdle⟩
        cases hEnsure
        refine hInv.here hAt hDropping hGone ⟨hTenant, hBytes, hHeld, hSlot, hKept⟩
          hAsking.refused_fits ?_
        exact hInv.locked.eased rfl hIdle rfl le_rfl rfl rfl
      · rename_i hCheck
        have hAdmitted := admitted_of_check hCheck
        cases hEnsure
        refine hInv.here hAt hDropping hGone ?_ ?_ ?_
        · simp [slot, kept]
        · exact ⟨hAsking.owns, Nat.lt_of_not_le hMore,
            hAsking.covered, hAsking.covers, hAsking.first⟩
        · refine hInv.locked.alone (.inl hLock) rfl ?_
          intro want' cause' hPhase
          cases hPhase
          exact ⟨rfl, { hAdmitted with }⟩

end

theorem grant_move (hAt : s.permits[i]? = some p)
    (hPhase : p.phase = .growing want cause) (hFits : p.Fits)
    (hRoom : want - p.heldMib ≤ s.available) :
    Move tier s i p (grown p want cause)
      { (s.draw tier p.tenant (want - p.heldMib)).put i
          (grown p want cause) with lock := none } := by
  simp only [Fits, hPhase] at hFits
  rcases hFits with ⟨hOwns, hMore, _, hCovers, _⟩
  refine ⟨hAt, rfl, rfl, ?_, ?_, ?_, ?_, ?_, ?_, ?_⟩
  · refine ⟨?_, hCovers⟩
    simp only [grown]
    omega
  · simp only [grown, put, draw]
    omega
  · intro t hOther
    exact update_of_ne hOther _ _
  · simp only [grown, put, draw, update_self]
    omega
  · by_cases hFree : tier p.tenant = .free
    · simp only [grown, put, draw, freeMib, hFree, if_true]
      omega
    · simp [grown, put, draw, freeMib, hFree]
  · intro t _
    rfl
  · simp [grown, put, draw, slot, hPhase]

/-
  Growth below the reserve is that of a paying tenant within
  the allowance, since a free tenant has none.
-/
theorem grant_reserve (hNone : l.bodyBufferFreeReserveTenantMaxMb = 0)
    (hSound : s.Sound l tier) (hAt : s.permits[i]? = some p)
    (hPhase : p.phase = .growing want cause)
    (hAdmitted : s.Admitted l tier p.tenant (want - p.heldMib))
    (hRoom : want - p.heldMib ≤ s.available) :
    l.bodyBufferReservedForNewTenantsMb ≤
      s.available - (want - p.heldMib) +
        total pending (s.permits.set i (grown p want cause)) +
        small Permit.tenant kept
          (fun t => decide (tier t ≠ .free))
          l.bodyBufferReserveTenantMaxMb
          (s.permits.set i (grown p want cause)) := by
  rcases hAdmitted.reserve with hAbove | hWithin
  · omega
  · have hFits := hSound.fits p (mem_of_getElem? hAt)
    simp only [Fits, hPhase] at hFits
    rcases hFits with ⟨hOwns, hMore, _, _, _⟩
    have hPaying : tier p.tenant ≠ .free := by
      intro hFree
      rw [MediaLimits.reserveTenantMaxMib, if_pos hFree, hNone] at hWithin
      omega
    rw [MediaLimits.reserveTenantMaxMib, if_neg hPaying] at hWithin
    have hTenant : (grown p want cause).tenant = p.tenant := rfl
    have hKept : p.kept = p.heldMib := by simp [kept, hPhase, hOwns]
    have hGrown : (grown p want cause).kept = want := by
      simp only [kept, grown, reduceCtorEq, if_false]
      omega
    have hHeld := held_set Permit.tenant kept hAt hTenant
    have hLess : held Permit.tenant kept s.permits p.tenant ≤ s.perTenant p.tenant := by
      rw [hSound.ledger p.tenant]
      refine sum_le_sum (fun x hMem => ?_)
      have := (hSound.fits x hMem).kept_le
      split <;> omega
    have hGrow :=
      small_grow Permit.tenant kept (fun t => decide (tier t ≠ .free))
        l.bodyBufferReserveTenantMaxMb hAt hTenant (by omega) (by simpa using hPaying) (by omega)
    have hPending := total_set pending hAt (grown p want cause)
    have hPendingP : pending p = 0 := by simp [pending, hPhase]
    have hReserve := hSound.reserve
    unfold smallPaying dropping at hReserve
    omega

theorem Inv.fits (hInv : Inv l tier s) (hAt : s.permits[i]? = some p) :
    p.Fits :=
  hInv.sound.fits p (mem_of_getElem? hAt)

theorem grant_inv (hNone : l.bodyBufferFreeReserveTenantMaxMb = 0)
    (hInv : Inv l tier s) (hAt : s.permits[i]? = some p) (hPhase : p.phase = .growing want cause) :
    Inv l tier (s.grant tier i p want cause).1 := by
  rcases hInv.locked i p want cause hAt hPhase with ⟨hLock, hAdmitted⟩
  have hFits := hInv.fits hAt
  unfold grant
  dsimp only
  split_ifs with hRoom
  · refine ⟨(grant_move hAt hPhase hFits hRoom.2).sound hInv.sound ?_ ?_ ?_, ?_⟩
    · simp only [put, draw, update_self]
      exact hAdmitted.share
    · simp only [put, draw]
      split
      · rename_i hFree
        exact hAdmitted.free hFree
      · exact hInv.sound.freeTotal
    · exact grant_reserve hNone hInv.sound hAt hPhase hAdmitted hRoom.2
    · refine hInv.locked.alone (.inr hLock) rfl ?_
      intro want' cause' hGrowing
      cases hGrowing
  · rcases refused_same p cause with ⟨hTenant, hBytes, hHeld, hSlot, hKept, hIdle⟩
    simp only [Fits, hPhase] at hFits
    rcases hFits with ⟨hOwns, _, hCovered, hCovers, hFirst⟩
    have hAsking : Asking p want cause := ⟨hOwns, hCovered, hCovers, hFirst⟩
    refine hInv.here hAt (by simp [hPhase]) (by simp [hPhase]) ⟨hTenant, hBytes, hHeld, hSlot,
      hKept⟩ hAsking.refused_fits ?_
    refine hInv.locked.alone (.inr hLock) rfl ?_
    intro want' cause' hGrowing
    exact absurd hGrowing (hIdle want' cause')

section

variable (hInv : Inv l tier s) (hAt : s.permits[i]? = some p) (hPhase : p.phase = .idle)
include hInv hAt hPhase

theorem append_inv {chunk limit slack : Nat}
    (hAppend : s.append l tier i p chunk limit slack = some (s', r)) :
    Inv l tier s' := by
  have hFits := hInv.fits hAt
  simp only [Fits, hPhase] at hFits
  unfold append at hAppend
  dsimp only at hAppend
  split at hAppend
  · refine ensure_inv hInv hAt (by simp [hPhase]) (by simp [hPhase]) ?_ hAppend
    exact ⟨hFits.1, hFits.2, le_mibFor _, nofun⟩
  · cases hAppend
    refine hInv.here hAt (by simp [hPhase]) (by simp [hPhase]) ?_ ?_ ?_
    · simp [slot, kept, hPhase]
    · simpa [Fits, hPhase] using hFits
    · exact hInv.locked.eased rfl (by simp [hPhase]) rfl le_rfl rfl rfl

theorem shrinkTo_inv {bytes : Nat} :
    Inv l tier (s.shrinkTo i p bytes) := by
  have hFits := hInv.fits hAt
  simp only [Fits, hPhase] at hFits
  rcases hFits with ⟨hOwns, hCovered⟩
  have hCovers := le_mibFor bytes
  unfold shrinkTo
  dsimp only
  split_ifs
  · refine hInv.here hAt (by simp [hPhase]) (by simp [hPhase]) ?_ ?_ ?_
    · simp [slot, kept, hPhase]
    · simp only [Fits, hPhase]
      omega
    · exact hInv.locked.eased rfl (by simp [hPhase]) rfl le_rfl rfl rfl
  · refine ⟨Move.released (i := i) (p := p)
      ⟨hAt, rfl, rfl, ?_, ?_, fun _ _ => rfl, rfl, ?_, fun _ _ => rfl, ?_⟩ hInv.sound le_rfl ?_, ?_⟩
    · simp only [Fits]
      omega
    · dsimp only
      omega
    · simp [freeMib, put]
    · simp [slot, hPhase, put]
    · simp only [kept, hPhase, reduceCtorEq, if_false]
      omega
    · refine hInv.locked.eased rfl (by simp) rfl ?_ rfl rfl
      simp

end

theorem releaseLedger_move {give : Nat} (hAt : s.permits[i]? = some p)
    (hTenant : q.tenant = p.tenant) (hFits : q.Fits)
    (hBytes : q.bytes = p.bytes) (hSlot : slot q = slot p)
    (hGive : q.heldMib + give = p.heldMib) (hSound : s.Sound l tier) :
    Move tier s i p q ((s.releaseLedger tier p.tenant give).put i q) := by
  -- what is given back was counted in both accounts
  have hLedger : p.heldMib ≤ s.perTenant p.tenant := by
    have hSet := held_set Permit.tenant Permit.heldMib hAt hTenant
    have := hSound.ledger p.tenant
    have hZero := held_set Permit.tenant Permit.heldMib hAt
      (show ({ p with heldMib := 0 } : Permit τ).tenant = p.tenant from rfl)
    dsimp only at hZero
    omega
  have hFree : freeMib tier p ≤ s.freeHeld := by
    have hZero := total_set (freeMib tier) hAt { p with heldMib := 0 }
    have := hSound.free
    simp only [freeMib, ite_self] at hZero
    unfold freeMib at *
    omega
  refine ⟨hAt, rfl, hTenant, hFits, ?_, ?_, ?_, ?_, ?_, ?_⟩
  · simp [releaseLedger, put, hBytes]
  · intro t hOther
    exact update_of_ne hOther _ _
  · simp only [releaseLedger, put, update_self]
    omega
  · simp only [releaseLedger, put, freeMib, hTenant] at hFree ⊢
    split_ifs with hTier
    · simp only [hTier, if_true] at hFree
      omega
    · rfl
  · intro t _
    rfl
  · simp [releaseLedger, put, hSlot]

section

variable (hInv : Inv l tier s)
include hInv

section

variable (hAt : s.permits[i]? = some p)
include hAt

theorem settle_inv (hPhase : p.phase = .shrinking want) (hLock : s.lock = none) :
    Inv l tier (s.settle tier i p want) := by
  have hFits := hInv.fits hAt
  simp only [Fits, hPhase] at hFits
  rcases hFits with ⟨hOwns, hLess, hCovered⟩
  have hMove :
      Move tier s i p { p with heldMib := want, phase := .idle } (s.settle tier i p want) :=
    releaseLedger_move hAt rfl ⟨hOwns, hCovered⟩ rfl (by simp [slot, hPhase]) (by dsimp only; omega)
      hInv.sound
  refine ⟨hMove.released hInv.sound hLess.le ?_, hInv.locked.alone (.inl hLock) rfl nofun⟩
  simp [kept, hPhase]

theorem drop_inv (hPhase : p.phase = .idle ∨ p.phase = .failed) (hLock : s.lock = none) :
    Inv l tier (s.drop tier i p) := by
  have hSlot : slot p = 1 := by
    rcases hPhase with hPhase | hPhase <;> simp [slot, hPhase]
  have hMove : Move tier s i p { p with heldMib := 0, phase := .dropping } (s.drop tier i p) :=
    releaseLedger_move hAt rfl rfl rfl (by rw [hSlot]; rfl) (by simp) hInv.sound
  refine ⟨hMove.released hInv.sound (zero_le _) ?_, hInv.locked.alone (.inl hLock) rfl nofun⟩
  simp [kept]

theorem releaseBytes_inv (hPhase : p.phase = .dropping) :
    Inv l tier (s.releaseBytes i p) := by
  have hFits := hInv.fits hAt
  simp only [Fits, hPhase] at hFits
  refine ⟨Move.released (i := i) (p := p)
    ⟨hAt, rfl, rfl, ⟨hFits, rfl⟩, rfl, fun _ _ => rfl, rfl,
      rfl, fun _ _ => rfl, ?_⟩ hInv.sound le_rfl ?_, ?_⟩
  · simp [slot, hPhase, put, releaseBytes]
  · simp [kept]
  · exact hInv.locked.eased rfl (by simp) rfl (le_add_right _ _) rfl rfl

theorem releaseSlot_inv (hPhase : p.phase = .closing) :
    Inv l tier (s.releaseSlot i p) := by
  have hFits := hInv.fits hAt
  simp only [Fits, hPhase] at hFits
  have hOwn : 1 ≤ s.slots p.tenant := by
    have hZero := held_set Permit.tenant slot hAt
      (show ({ p with phase := .gone } : Permit τ).tenant = p.tenant from rfl)
    have := hInv.sound.slots p.tenant
    simp only [slot, hPhase, reduceCtorEq, if_false, if_true] at hZero
    unfold slot at *
    omega
  refine ⟨Move.released (i := i) (p := p)
    ⟨hAt, rfl, rfl, hFits, rfl, fun _ _ => rfl, rfl, rfl,
      fun t hOther => update_of_ne hOther _ _, ?_⟩
    hInv.sound le_rfl ?_, ?_⟩
  · simp only [releaseSlot, update_self, slot, hPhase, reduceCtorEq, if_false, if_true]
    omega
  · simp [kept, hPhase]
  · exact hInv.locked.eased rfl (by simp) rfl le_rfl rfl rfl

end

theorem acquire_inv {t : τ} :
    Inv l tier (s.acquire l t).1 := by
  unfold acquire
  split
  · exact hInv
  · refine ⟨⟨?_, ?_, ?_, ?_, ?_, hInv.sound.share, hInv.sound.freeTotal, ?_⟩, ?_⟩
    · refine forall_mem_append.mpr ⟨hInv.sound.fits, forall_mem_singleton.mpr ?_⟩
      exact ⟨rfl, rfl, rfl⟩
    · simpa [total_append] using hInv.sound.taken
    · intro u
      simpa [held_append] using hInv.sound.ledger u
    · simpa [total_append, freeMib] using hInv.sound.free
    · intro u
      have := hInv.sound.slots u
      rw [held_append]
      by_cases hSame : u = t
      · simp [hSame, slot] at this ⊢
        exact this
      · simp [hSame, Ne.symm hSame, this]
    · have hReserve := hInv.sound.reserve
      have hSmall :=
        small_append Permit.tenant kept (fun t => decide (tier t ≠ .free))
          l.bodyBufferReserveTenantMaxMb s.permits
          (show kept ({ tenant := t } : Permit τ) = 0 from rfl)
      unfold smallPaying dropping at *
      dsimp only
      rw [total_append, hSmall]
      simpa [pending] using hReserve
    · intro j p want cause hAt hPhase
      rw [getElem?_append] at hAt
      split at hAt
      · rcases hInv.locked j p want cause hAt hPhase with ⟨hLock, hAdmitted⟩
        exact ⟨hLock, { hAdmitted with }⟩
      · rw [mem_singleton.mp (mem_of_getElem? hAt)] at hPhase
        cases hPhase

end

--
-- Runs
--

theorem step_inv {e : Event τ} (hNone : l.bodyBufferFreeReserveTenantMaxMb = 0)
    (hInv : Inv l tier s) (hStep : step l tier s e = some (s', r)) :
    Inv l tier s' := by
  have hMoved :
      ∀ {i p}, s.permits[i]? = some p → move l tier s i p e = some (s', r) → Inv l tier s' := by
    intro i p hAt hMove
    have hFits := hInv.fits hAt
    cases e with
    | acquire t => cases hMove
    | first j =>
      rw [move] at hMove
      split at hMove
      · rename_i hPhase
        simp only [Fits, hPhase] at hFits
        rcases hFits with ⟨hHeld, hBytes, hEmpty⟩
        refine ensure_inv hInv hAt (by simp [hPhase])
          (by simp [hPhase]) ⟨?_, ?_, ?_, fun _ => hHeld⟩ hMove
        · rw [hBytes, hHeld]
        · rw [hEmpty]
          exact zero_le _
        · simp [Growth.buffer, hEmpty]
      · cases hMove
    | append j chunk limit slack =>
      rw [move] at hMove
      split at hMove
      · rename_i hPhase
        exact append_inv hInv hAt hPhase hMove
      · cases hMove
    | grant j =>
      rw [move] at hMove
      split at hMove
      · rename_i want cause hPhase
        have hGrant := grant_inv hNone hInv hAt hPhase
        rw [some.inj hMove] at hGrant
        exact hGrant
      · cases hMove
    | shrinkTo j bytes =>
      rw [move] at hMove
      split at hMove <;> cases hMove
      rename_i hPhase
      exact shrinkTo_inv hInv hAt hPhase
    | settle j =>
      rw [move] at hMove
      split at hMove
      · rename_i want hPhase
        split at hMove <;> cases hMove
        rename_i hLock
        exact settle_inv hInv hAt hPhase hLock
      · cases hMove
    | drop j =>
      rw [move] at hMove
      split at hMove <;> cases hMove
      rename_i hPhase
      exact drop_inv hInv hAt hPhase.1 hPhase.2
    | releaseBytes j =>
      rw [move] at hMove
      split at hMove <;> cases hMove
      rename_i hPhase
      exact releaseBytes_inv hInv hAt hPhase
    | releaseSlot j =>
      rw [move] at hMove
      split at hMove <;> cases hMove
      rename_i hPhase
      exact releaseSlot_inv hInv hAt hPhase
  unfold step at hStep
  split at hStep
  · rename_i t
    have hAcquire := acquire_inv (t := t) hInv
    rw [some.inj hStep] at hAcquire
    exact hAcquire
  · rcases bind_eq_some_iff.mp hStep with ⟨i, _, hStep⟩
    rcases bind_eq_some_iff.mp hStep with ⟨p, hAt, hStep⟩
    exact hMoved hAt hStep

theorem new_inv (hReserve : l.bodyBufferReservedForNewTenantsMb ≤ l.bodyBufferBudgetMb) :
    Inv l tier (new τ l) := by
  refine ⟨⟨nofun, rfl, fun _ => rfl, rfl, fun _ => rfl, fun _ => zero_le _, zero_le _, ?_⟩, ?_⟩
  · exact le_trans hReserve (le_add_right _ _)
  · intro i p want cause hAt
    cases hAt

/- The steps of the intake, whatever their answers. -/
def Steps (l : MediaLimits) (tier : τ → PlanTier) (s : ByteBudget τ)
    (e : Event τ) (s' : ByteBudget τ) : Prop :=
  ∃ r, step l tier s e = some (s', r)

theorem run_inv {events : List (Event τ)} (hNone : l.bodyBufferFreeReserveTenantMaxMb = 0)
    (hReserve : l.bodyBufferReservedForNewTenantsMb ≤ l.bodyBufferBudgetMb)
    (hRun : Run (Steps l tier) (new τ l) events s) :
    Inv l tier s :=
  hRun.invariant (fun _ _ _ hInv ⟨_, hStep⟩ => step_inv hNone hInv hStep) (new_inv hReserve)

--
-- Refusals
--

/- The permit a step asks for, and how much it is to hold. -/
def asks (s : ByteBudget τ) : Event τ → Option (Permit τ × Nat)
| .first i => do
    let p ← s.permits[i]?
    some (p, 1)
| .append i chunk limit _ => do
    let p ← s.permits[i]?
    some (p,
      mibFor (target p.buffer (p.buffer.len + chunk) limit))
| .grant i => do
    let p ← s.permits[i]?
    match p.phase with
    | .growing want _ => some (p, want)
    | _ => none
| _ => none

omit [DecidableEq τ] in
theorem check_none {more : Nat} (hPaying : tier p.tenant ≠ .free)
    (hAlone : s.perTenant p.tenant = p.heldMib) (hMore : p.heldMib + more ≤ 32) :
    check mediaLimits tier s p.tenant more = none := by
  unfold check
  simp only [MediaLimits.shareMib, MediaLimits.reserveTenantMaxMib, hPaying, if_false, mediaLimits,
    false_and, hAlone]
  rw [if_neg (by omega), if_neg (by omega)]

/-
  A tenant that holds nothing else and asks for no more than the allowance passes every check, so
  that only the semaphore can refuse it.
-/
theorem refused_cases {e : Event τ} {answer : Refusal}
    (hStep : step mediaLimits tier s e = some (s', some answer))
    (hAsks : asks s e = some (p, want)) (hPaying : tier p.tenant ≠ .free)
    (hAlone : s.perTenant p.tenant = p.heldMib) (hWithin : want ≤ 32) :
    s.available < want - p.heldMib := by
  have hNever : ∀ {i cause}, ensure mediaLimits tier s i p want cause ≠ some (s', some answer) := by
    intro i cause hEnsure
    unfold ensure at hEnsure
    split at hEnsure
    · cases hEnsure
    · rw [check_none hPaying hAlone (by omega)] at hEnsure
      split at hEnsure <;> cases hEnsure
  cases e with
  | first i =>
    rcases bind_eq_some_iff.mp hAsks with ⟨p', hAt, hSome⟩
    cases hSome
    simp only [step, Event.permit, bind_eq_bind, bind_some, hAt, move] at hStep
    split at hStep
    · exact absurd hStep hNever
    · cases hStep
  | append i chunk limit slack =>
    rcases bind_eq_some_iff.mp hAsks with ⟨p', hAt, hSome⟩
    cases hSome
    simp only [step, Event.permit, bind_eq_bind, bind_some, hAt, move] at hStep
    split at hStep
    · unfold append at hStep
      dsimp only at hStep
      split at hStep
      · exact absurd hStep hNever
      · cases hStep
    · cases hStep
  | grant i =>
    rcases bind_eq_some_iff.mp hAsks with ⟨p', hAt, hSome⟩
    split at hSome <;> cases hSome
    rename_i want' cause hPhase
    simp only [step, Event.permit, bind_eq_bind, bind_some, hAt, move, hPhase,
      some.injEq] at hStep
    unfold grant at hStep
    dsimp only at hStep
    split at hStep
    · cases hStep
    · omega
  | acquire _ | shrinkTo _ _ | settle _ | drop _ | releaseBytes _ | releaseSlot _ => cases hAsks

/- What holds whenever no call is in progress. -/
structure Balanced (l : MediaLimits) (tier : τ → PlanTier) (s : ByteBudget τ) : Prop where
  taken : s.available + total Permit.heldMib s.permits = l.bodyBufferBudgetMb
  ledger : ∀ t, s.perTenant t = held Permit.tenant Permit.heldMib s.permits t
  covered : ∀ p ∈ s.permits, p.phase = .idle → p.buffer.requested ≤ p.heldMib * mib
  share : ∀ t, s.perTenant t ≤ l.shareMib (tier t)
  freeTotal : total (freeMib tier) s.permits ≤ l.bodyBufferFreeTenantsTotalMb

theorem balanced_of_quiet (hSound : s.Sound l tier) (hQuiet : s.Quiet) :
    Balanced l tier s where
  taken := by
    rw [← hSound.taken]
    congr 1
    refine total_congr (fun p hMem => ?_)
    have hFits := hSound.fits p hMem
    rcases hQuiet p hMem with hIdle | hGone
    · simp only [Fits, hIdle] at hFits
      exact hFits.1.symm
    · simp only [Fits, hGone] at hFits
      rw [hFits.1, hFits.2]
  ledger := hSound.ledger
  covered p hMem hIdle := by
    have hFits := hSound.fits p hMem
    simp only [Fits, hIdle] at hFits
    exact hFits.2
  share := hSound.share
  freeTotal := by
    rw [← hSound.free]
    exact hSound.freeTotal

/-
  Over every interleaving of the intake's calls: the accounts balance whenever none is in progress,
  the budget is short of its reserve only by what small paying tenants hold and what permits being
  dropped have yet to give back, and no paying tenant is refused otherwise within its allowance.
-/
theorem intake_balanced_and_reserved (tier : τ → PlanTier) {events : List (Event τ)}
    {s : ByteBudget τ} (hRun : Run (Steps mediaLimits tier) (new τ mediaLimits) events s) :
    (s.Quiet → Balanced mediaLimits tier s) ∧
      mediaLimits.bodyBufferReservedForNewTenantsMb ≤
        s.available + s.dropping + s.smallPaying mediaLimits tier ∧
      (∀ e s' answer p want,
        step mediaLimits tier s e = some (s', some answer) →
        asks s e = some (p, want) →
        tier p.tenant ≠ .free →
        s.perTenant p.tenant = p.heldMib →
        want ≤ mediaLimits.bodyBufferReserveTenantMaxMb →
          mediaLimits.bodyBufferReservedForNewTenantsMb <
            s.dropping + s.smallPaying mediaLimits tier + (want - p.heldMib)) ∧
      ∀ t, (∀ p ∈ s.permits, p.tenant = t → p.phase = .gone) →
        (s.acquire mediaLimits t).2 = none := by
  have hInv : Inv mediaLimits tier s := run_inv rfl (by decide) hRun
  have hReserve := hInv.sound.reserve
  refine ⟨balanced_of_quiet hInv.sound, hReserve, ?_, ?_⟩
  · intro e s' answer p want hStep hAsks hPaying hAlone hWithin
    have := refused_cases hStep hAsks hPaying hAlone hWithin
    omega
  · intro t hGone
    have hNone : s.slots t = 0 := by
      rw [hInv.sound.slots t, held, total_congr (g := fun _ => 0)]
      · simp [total]
      · intro p hMem
        by_cases hOwner : p.tenant = t
        · simp [slot, hGone p hMem hOwner]
        · simp [hOwner]
    rw [acquire, hNone, if_neg (by decide)]

--
-- A Reserve Partly Held
--

/- The calls of an upload of so many MiB, not interrupted. -/
def upload (i t size : Nat) : List (Event Nat) :=
  [.acquire t, .first i, .grant i, .append i (size * mib) (100 * mib) 0, .grant i]

def team : Nat → PlanTier :=
  fun _ => .team

/- The state after a list of steps. -/
def after (s : ByteBudget Nat) (events : List (Event Nat)) : Option (ByteBudget Nat) :=
  events.foldlM (fun s e => (step mediaLimits team s e).map Prod.fst) s

theorem run_of_after {s s' : ByteBudget Nat} {events : List (Event Nat)}
    (hAfter : after s events = some s') :
    Run (Steps mediaLimits team) s events s' := by
  apply (Run.of_foldlM hAfter).mono
  intro s t e _ hStep
  rcases map_eq_some_iff.mp hStep with ⟨⟨_, r⟩, hNext, rfl⟩
  exact ⟨r, hNext⟩

/- Nine bodies fill the budget down to its reserve. -/
def fillToReserve : List (Event Nat) :=
  (range 8).flatMap (fun i => upload i (i / 2) 100) ++ upload 8 4 96

/- A tenant draws its allowance again before a drop ends. -/
def drawTwice : List (Event Nat) :=
  fillToReserve ++ upload 9 5 32 ++ .drop 9 :: upload 10 5 32

/- Small tenants hold most of the reserve; another asks. -/
def askForRest : List (Event Nat) :=
  [.releaseBytes 9, .releaseSlot 9] ++ upload 11 6 32 ++
    upload 12 7 32 ++ [.acquire 8, .first 13, .grant 13] ++
    [.acquire 9, .first 14, .grant 14, .append 14 (32 * mib) (100 * mib) 0]

/- What each permit keeps, with its tenant. -/
def holdings (s : ByteBudget Nat) : List (Nat × Nat) :=
  s.permits.map (fun p => (p.tenant, p.kept))

/- What they keep while the drop is in progress. -/
def heldTwice : List (Nat × Nat) :=
  [(0, 100), (0, 100), (1, 100), (1, 100), (2, 100), (2, 100),
    (3, 100), (3, 100), (4, 96), (5, 0), (5, 32)]

/- No call but that on the last permit is in progress. -/
def others (s : ByteBudget Nat) : Bool :=
  s.permits.zipIdx.all (fun (p, i) =>
    i == 14 || p.phase == .idle || p.phase == .gone)

/- Another tenant asks for 32 MiB, and is refused. -/
theorem after_askForRest :
    (after (new Nat mediaLimits) (drawTwice ++ askForRest)).map
      (fun s => decide
        (others s = true ∧
          holdings s = heldTwice ++ [(6, 32), (7, 32), (8, 1), (9, 1)] ∧
          (asks s (.grant 14)).any (fun (p, want) =>
            want == 32 && s.perTenant p.tenant == p.heldMib) ∧
          (step mediaLimits team s (.grant 14)).any
            (fun (_, answer) => answer == some .gatewayMemoryBusy))) =
      some true := by
  decide +kernel

theorem refused_of_after {s : ByteBudget Nat}
    (hAsks :
      (asks s (.grant 14)).any (fun (p, want) => want == 32 && s.perTenant p.tenant == p.heldMib))
    (hStep :
      (step mediaLimits team s (.grant 14)).any
        (fun (_, answer) => answer == some .gatewayMemoryBusy)) :
    ∃ s' p,
      asks s (.grant 14) = some (p, 32) ∧
        s.perTenant p.tenant = p.heldMib ∧
        step mediaLimits team s (.grant 14) = some (s', some .gatewayMemoryBusy) := by
  simp only [Option.any_eq_true, Prod.exists, Bool.and_eq_true, beq_iff_eq] at hAsks hStep
  rcases hAsks with ⟨p, want, hAsks, rfl, hAlone⟩
  rcases hStep with ⟨s', answer, hStep, rfl⟩
  exact ⟨s', p, hAsks, hAlone, hStep⟩

theorem small_upload_balanced :
    (∃ s,
      Run (Steps mediaLimits team) (new Nat mediaLimits) (upload 0 7 2) s ∧
        s.Quiet ∧ Balanced mediaLimits team s ∧ (s.acquire mediaLimits 8).2 = none) ∧
    ∃ s s' p,
      Run (Steps mediaLimits team) (new Nat mediaLimits) (drawTwice ++ askForRest) s ∧
        asks s (.grant 14) = some (p, 32) ∧
        step mediaLimits team s (.grant 14) = some (s', some .gatewayMemoryBusy) ∧
        mediaLimits.bodyBufferReservedForNewTenantsMb <
          s.dropping + s.smallPaying mediaLimits team + (32 - p.heldMib) := by
  constructor
  · have hAfter :
        ((after (new Nat mediaLimits) (upload 0 7 2)).map
          (fun s => s.permits.all (fun p => p.phase == .idle && p.tenant == 7))) =
          some true := by
      decide
    rcases map_eq_some_iff.mp hAfter with ⟨s, hAfter, hIdle⟩
    simp only [List.all_eq_true, Bool.and_eq_true, beq_iff_eq] at hIdle
    have hRun := run_of_after hAfter
    have hQuiet : s.Quiet := fun p hMem => .inl (hIdle p hMem).1
    have hIntake := intake_balanced_and_reserved team hRun
    refine ⟨s, hRun, hQuiet, hIntake.1 hQuiet, hIntake.2.2.2 8 (fun p hMem hOwner => ?_)⟩
    exact absurd ((hIdle p hMem).2.symm.trans hOwner) (by decide)
  · rcases map_eq_some_iff.mp after_askForRest with ⟨s, hAfter, hFound⟩
    rcases of_decide_eq_true hFound with ⟨_, _, hAsks, hStep⟩
    rcases refused_of_after hAsks hStep with ⟨s', p, hAsks, hAlone, hStep⟩
    have hRun := run_of_after hAfter
    refine ⟨s, s', p, hRun, hAsks, hStep, ?_⟩
    exact (intake_balanced_and_reserved team hRun).2.2.1 _ s' _ p 32 hStep hAsks nofun hAlone
      (by decide)

/-
  While a drop is in progress the budget is short of the reserve by more than small tenants hold.
  With no other call in progress, a tenant is refused 32 MiB although small tenants hold only 98 of
  the 128 in the reserve.
-/
theorem refused_before_reserve_is_held :
    ∃ s₁ s₂ s₃ p,
      Run (Steps mediaLimits team) (new Nat mediaLimits) drawTwice s₁ ∧
        s₁.available = 64 ∧
        s₁.smallPaying mediaLimits team = 32 ∧
        Run (Steps mediaLimits team) s₁ askForRest s₂ ∧
        others s₂ = true ∧
        s₂.smallPaying mediaLimits team = 98 ∧
        asks s₂ (.grant 14) = some (p, 32) ∧
        s₂.perTenant p.tenant = p.heldMib ∧
        step mediaLimits team s₂ (.grant 14) = some (s₃, some .gatewayMemoryBusy) := by
  -- the holdings are evaluated first, and then summed up
  have hFirst :
      (after (new Nat mediaLimits) drawTwice).map
        (fun s => decide (s.available = 64 ∧ holdings s = heldTwice)) =
        some true := by
    decide +kernel
  rcases map_eq_some_iff.mp hFirst with ⟨s₁, hAfter₁, hFound₁⟩
  rcases map_eq_some_iff.mp after_askForRest with ⟨s₂, hAfter₂, hFound₂⟩
  rw [after, List.foldlM_append] at hAfter₂
  rcases bind_eq_some_iff.mp hAfter₂ with ⟨s, hAfter, hAfter₂⟩
  rw [some.inj (hAfter.symm.trans hAfter₁)] at hAfter₂
  rcases of_decide_eq_true hFound₁ with ⟨hAvailable, hHoldings₁⟩
  rcases of_decide_eq_true hFound₂ with ⟨hOthers, hHoldings₂, hAsks, hStep⟩
  rcases refused_of_after hAsks hStep with ⟨s₃, p, hAsks, hAlone, hStep⟩
  refine ⟨s₁, s₂, s₃, p, run_of_after hAfter₁, hAvailable, ?_,
    run_of_after hAfter₂, hOthers, ?_, hAsks, hAlone, hStep⟩
  · rw [smallPaying, Shares.small_map, ← holdings, hHoldings₁]
    decide
  · rw [smallPaying, Shares.small_map, ← holdings, hHoldings₂]
    decide

end Intake

end Tracelane.Gateway
