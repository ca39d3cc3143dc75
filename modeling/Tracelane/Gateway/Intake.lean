import Mathlib.Logic.Function.Basic
import Tracelane.Lib.Shares

/-
  The upload intake of `media_common.rs`.

  A body being buffered holds MiB permits of a process-wide semaphore, an entry of its tenant's
  ledger, and one of the tenant's upload slots.  Growth checks and draws under the ledger's lock;
  permits go back to the semaphore outside of it, before the ledger entry in `shrink_to` and after
  it in `drop`.  A step is what one call does between two points at which another call may come in.
-/

namespace Tracelane.Gateway

open Function

namespace Intake

--
-- Limits
--

inductive PlanTier
| free
| builder
| team
| business
| enterprise
deriving DecidableEq

/- The fields of the reference table that the intake reads. -/
structure MediaLimits where
  bodyBufferBudgetMb : Nat
  uploadsPerTenantMax : Nat
  bodyBufferTenantShareMb : Nat
  bodyBufferReservedForNewTenantsMb : Nat
  bodyBufferReserveTenantMaxMb : Nat
  bodyBufferFreeTenantShareMb : Nat
  bodyBufferFreeReserveTenantMaxMb : Nat
  bodyBufferFreeTenantsTotalMb : Nat

/- The table compiled into the gateway. -/
def mediaLimits : MediaLimits where
  bodyBufferBudgetMb := 1024
  uploadsPerTenantMax := 4
  bodyBufferTenantShareMb := 256
  bodyBufferReservedForNewTenantsMb := 128
  bodyBufferReserveTenantMaxMb := 32
  bodyBufferFreeTenantShareMb := 128
  bodyBufferFreeReserveTenantMaxMb := 0
  bodyBufferFreeTenantsTotalMb := 768

namespace MediaLimits

variable (l : MediaLimits)

def shareMib (tier : PlanTier) : Nat :=
  if tier = .free then l.bodyBufferFreeTenantShareMb
  else l.bodyBufferTenantShareMb

def reserveTenantMaxMib (tier : PlanTier) : Nat :=
  if tier = .free then l.bodyBufferFreeReserveTenantMaxMb
  else l.bodyBufferReserveTenantMaxMb

end MediaLimits

def mib : Nat := 1024 * 1024

/- `bytes.div_ceil(MIB).max(1)`. -/
def mibFor (bytes : Nat) : Nat :=
  max ((bytes + mib - 1) / mib) 1

--
-- Permits
--

/- The buffer a permit covers.  An allocator may give more than was requested of it. -/
structure Buffer where
  len : Nat := 0
  capacity : Nat := 0
  requested : Nat := 0
deriving DecidableEq

/- The call that asks for a larger reservation. -/
inductive Growth
| first
| append (need target slack : Nat)
deriving DecidableEq

def Growth.buffer (old : Buffer) : Growth → Buffer
| .first => old
| .append need target slack => ⟨need, target + slack, target⟩

/-
  Where the call on a permit stands.  `opening` and `failed` are inside `acquire_intake`, `growing`
  holds the ledger's lock, `shrinking` has not released the ledger yet, and `dropping` and `closing`
  still own permits or the slot.
-/
inductive Phase
| opening
| idle
| growing (want : Nat) (cause : Growth)
| failed
| shrinking (want : Nat)
| dropping
| closing
| gone
deriving DecidableEq

structure Permit (τ : Type) where
  tenant : τ
  heldMib : Nat := 0
  bytes : Nat := 0
  buffer : Buffer := {}
  phase : Phase := .opening
deriving DecidableEq

inductive Refusal
| tooManyConcurrentUploads
| tenantMemoryShareExhausted
| gatewayMemoryBusy
deriving DecidableEq

/-
  The budget, the ledger, the slots, and the permits made so
  far.  An absent ledger entry reads as zero.
-/
structure ByteBudget (τ : Type) where
  available : Nat
  perTenant : τ → Nat := fun _ => 0
  freeHeld : Nat := 0
  slots : τ → Nat := fun _ => 0
  lock : Option Nat := none
  permits : List (Permit τ) := []

def new (τ : Type) (l : MediaLimits) : ByteBudget τ where
  available := l.bodyBufferBudgetMb

namespace ByteBudget

variable {τ : Type} [DecidableEq τ] (l : MediaLimits) (tier : τ → PlanTier)

def put (s : ByteBudget τ) (i : Nat) (p : Permit τ) : ByteBudget τ :=
  { s with permits := s.permits.set i p }

--
-- Growing
--

/- The slot of `acquire_intake`.  The process-wide ceiling on slots is `usize::MAX`. -/
def acquire (s : ByteBudget τ) (t : τ) : ByteBudget τ × Option Refusal :=
  if l.uploadsPerTenantMax ≤ s.slots t then
    (s, some .tooManyConcurrentUploads)
  else
    ({ s with
        slots := update s.slots t (s.slots t + 1)
        permits := s.permits ++ [{ tenant := t }] },
      none)

/- The checks of `ensure`, under the lock. -/
def check (s : ByteBudget τ) (t : τ) (more : Nat) : Option Refusal :=
  let after := s.perTenant t + more
  if l.shareMib (tier t) < after then
    some .tenantMemoryShareExhausted
  else if tier t = .free ∧
      l.bodyBufferFreeTenantsTotalMb < s.freeHeld + more then
    some .gatewayMemoryBusy
  else if s.available - more < l.bodyBufferReservedForNewTenantsMb ∧
      l.reserveTenantMaxMib (tier t) < after then
    some .gatewayMemoryBusy
  else none

/-
  A refused growth leaves the permit as it was.  A refused
  first growth ends `acquire_intake`, which drops the permit.
-/
def refused (p : Permit τ) : Growth → Permit τ
| .first => { p with phase := .failed }
| .append _ _ _ => { p with phase := .idle }

/- `ensure` up to its reading of the semaphore. -/
def ensure (s : ByteBudget τ) (i : Nat) (p : Permit τ) (want : Nat)
    (cause : Growth) : Option (ByteBudget τ × Option Refusal) :=
  if want ≤ p.heldMib then
    some (s.put i { p with buffer := cause.buffer p.buffer, phase := .idle }, none)
  else if s.lock ≠ none then none
  else
    match check l tier s p.tenant (want - p.heldMib) with
    | some r => some (s.put i (refused p cause), some r)
    | none =>
        some ({ s.put i { p with phase := .growing want cause }
          with lock := some i }, none)

def grown (p : Permit τ) (want : Nat) (cause : Growth) : Permit τ :=
  { p with
      heldMib := want
      bytes := p.bytes + (want - p.heldMib)
      buffer := cause.buffer p.buffer
      phase := .idle }

/- Permits drawn for a tenant, and its ledger entry. -/
def draw (s : ByteBudget τ) (t : τ) (more : Nat) : ByteBudget τ :=
  { s with
      available := s.available - more
      perTenant := update s.perTenant t (s.perTenant t + more)
      freeHeld :=
        if tier t = .free then s.freeHeld + more
        else s.freeHeld }

/- The rest of `ensure`.  The number of permits asked for at once is a `u32`. -/
def grant (s : ByteBudget τ) (i : Nat) (p : Permit τ) (want : Nat)
    (cause : Growth) : ByteBudget τ × Option Refusal :=
  let more := want - p.heldMib
  if more < 2 ^ 32 ∧ more ≤ s.available then
    ({ (s.draw tier p.tenant more).put i (grown p want cause)
        with lock := none },
      none)
  else
    ({ s.put i (refused p cause) with lock := none },
      some .gatewayMemoryBusy)

/- The capacity `append` asks for. -/
def target (b : Buffer) (need limit : Nat) : Nat :=
  min (max need (b.capacity * 2)) (max limit need)

def append (s : ByteBudget τ) (i : Nat) (p : Permit τ) (chunk limit slack : Nat) :
    Option (ByteBudget τ × Option Refusal) :=
  let need := p.buffer.len + chunk
  if p.buffer.capacity < need then
    let asked := target p.buffer need limit
    ensure l tier s i p (mibFor asked) (.append need asked slack)
  else
    some (s.put i { p with buffer := { p.buffer with len := need } }, none)

--
-- Giving Back
--

def releaseLedger (s : ByteBudget τ) (t : τ) (give : Nat) : ByteBudget τ :=
  { s with
      perTenant := update s.perTenant t (s.perTenant t - give)
      freeHeld :=
        if tier t = .free then s.freeHeld - give
        else s.freeHeld }

/-
  `shrink_to` up to the release of the ledger.  Its caller
  has handed the buffer on and keeps at most `bytes` of it.
-/
def shrinkTo (s : ByteBudget τ) (i : Nat) (p : Permit τ) (bytes : Nat) : ByteBudget τ :=
  let want := mibFor bytes
  let kept : Buffer :=
    ⟨min p.buffer.len bytes, min p.buffer.capacity bytes, min p.buffer.requested bytes⟩
  if p.heldMib ≤ want ∨ p.bytes < p.heldMib - want then
    s.put i { p with buffer := kept }
  else
    { s.put i
        { p with
            bytes := p.bytes - (p.heldMib - want)
            buffer := kept
            phase := .shrinking want } with
      available := s.available + (p.heldMib - want) }

def settle (s : ByteBudget τ) (i : Nat) (p : Permit τ) (want : Nat) : ByteBudget τ :=
  (s.releaseLedger tier p.tenant (p.heldMib - want)).put i
    { p with heldMib := want, phase := .idle }

def drop (s : ByteBudget τ) (i : Nat) (p : Permit τ) : ByteBudget τ :=
  (s.releaseLedger tier p.tenant p.heldMib).put i
    { p with heldMib := 0, phase := .dropping }

/- The permits go with the field that holds them. -/
def releaseBytes (s : ByteBudget τ) (i : Nat) (p : Permit τ) : ByteBudget τ :=
  { s.put i { p with bytes := 0, phase := .closing } with
    available := s.available + p.bytes }

def releaseSlot (s : ByteBudget τ) (i : Nat) (p : Permit τ) : ByteBudget τ :=
  { s.put i { p with phase := .gone } with
    slots :=
      update s.slots p.tenant (s.slots p.tenant - 1) }

end ByteBudget

--
-- Steps
--

inductive Event (τ : Type)
| acquire (t : τ)
| first (i : Nat)
| append (i chunk limit slack : Nat)
| grant (i : Nat)
| shrinkTo (i bytes : Nat)
| settle (i : Nat)
| drop (i : Nat)
| releaseBytes (i : Nat)
| releaseSlot (i : Nat)
deriving DecidableEq

section Step

variable {τ : Type} [DecidableEq τ] (l : MediaLimits) (tier : τ → PlanTier)

open ByteBudget

/- One step of the call on a permit. -/
def move (s : ByteBudget τ) (i : Nat) (p : Permit τ) :
    Event τ → Option (ByteBudget τ × Option Refusal)
| .first _ =>
    if p.phase = .opening then ensure l tier s i p 1 .first
    else none
| .append _ chunk limit slack =>
    if p.phase = .idle then
      s.append l tier i p chunk limit slack
    else none
| .grant _ =>
    match p.phase with
    | .growing want cause => some (s.grant tier i p want cause)
    | _ => none
| .shrinkTo _ bytes =>
    if p.phase = .idle then some (s.shrinkTo i p bytes, none)
    else none
| .settle _ =>
    match p.phase with
    | .shrinking want =>
        if s.lock = none then some (s.settle tier i p want, none)
        else none
    | _ => none
| .drop _ =>
    if (p.phase = .idle ∨ p.phase = .failed) ∧ s.lock = none
    then some (s.drop tier i p, none)
    else none
| .releaseBytes _ =>
    if p.phase = .dropping then some (s.releaseBytes i p, none)
    else none
| .releaseSlot _ =>
    if p.phase = .closing then some (s.releaseSlot i p, none)
    else none
| .acquire _ => none

def Event.permit : Event τ → Option Nat
| .acquire _ => none
| .first i
| .append i _ _ _
| .grant i
| .shrinkTo i _
| .settle i
| .drop i
| .releaseBytes i
| .releaseSlot i => some i

/- A step with the answer of the call it ends.  A call that waits for the lock has no step. -/
def step (s : ByteBudget τ) (e : Event τ) : Option (ByteBudget τ × Option Refusal) :=
  match e with
  | .acquire t => some (s.acquire l t)
  | e => do
      let i ← e.permit
      let p ← s.permits[i]?
      move l tier s i p e

end Step

end Intake

end Tracelane.Gateway
