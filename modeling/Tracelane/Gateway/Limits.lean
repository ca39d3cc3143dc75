import Mathlib.Data.Rat.Floor
import Mathlib.Algebra.Order.Ring.Abs
import Tracelane.Lib.HashTable
import Tracelane.Lib.Run
import Tracelane.Gateway.AuditFormat

/-
  Requests and tokens a minute: a bucket per limit, held per tenant behind one lock, so that a
  request is charged to every bucket it names or to none.

  Instants and durations are in nanoseconds, and a bucket's level is an exact rational.
-/

namespace Tracelane.Gateway

open List HashTable Transition Function

abbrev Uuid := ByteArr 16

/- Instants and durations, in nanoseconds. -/
abbrev Instant := Nat

abbrev Duration := Nat

def nanosPerSec : Nat := 1000000000

def u64Max : Nat := 2 ^ 64 - 1

def Duration.fromSecs (secs : Nat) : Duration :=
  secs * nanosPerSec

/- Zero where the earlier instant is not the earlier one. -/
def saturatingDurationSince (now earlier : Instant) : Duration :=
  now - earlier

--
-- Keys And Checks
--

inductive Scope where
| workspace
| project (id : Uuid)
| key (id : Uuid)
deriving DecidableEq

def Scope.asStr : Scope → String
| .workspace => "workspace"
| .project _ => "project"
| .key _ => "key"

inductive Dim where
| all
| endUser (hash : Nat)
| model (pattern : String)
deriving DecidableEq

inductive Kind where
| rpm
| tpm
deriving DecidableEq

structure BucketKey where
  scope : Scope
  dim : Dim
  kind : Kind
deriving DecidableEq

def BucketKey.isEndUser (k : BucketKey) : Bool :=
  match k.dim with
  | .endUser _ => true
  | _ => false

structure Check where
  key : BucketKey
  limit : Nat
  cost : Nat
deriving DecidableEq

structure LimitDenial where
  code : String
  scope : Scope
  dim : Dim
  kind : Kind
  limit : Nat
  requested : Nat
  retryAfterSecs : Nat
  exceedsCapacity : Bool
deriving DecidableEq

def LimitDenial.capacity (scope : Scope) : LimitDenial where
  code := "end_user_limit_capacity"
  scope := scope
  dim := .endUser 0
  kind := .rpm
  limit := 0
  requested := 1
  retryAfterSecs := 60
  exceedsCapacity := false

def codeFor : Kind → Scope → Dim → String
| .rpm, _, .endUser _ => "rpm_limit_end_user"
| .tpm, _, .endUser _ => "tpm_limit_end_user"
| .rpm, _, .model _ => "rpm_limit_model"
| .tpm, _, .model _ => "tpm_limit_model"
| .rpm, .workspace, .all => "rpm_limit_workspace"
| .rpm, .project _, .all => "rpm_limit_project"
| .rpm, .key _, .all => "rpm_limit_key"
| .tpm, .workspace, .all => "tpm_limit_workspace"
| .tpm, .project _, .all => "tpm_limit_project"
| .tpm, .key _, .all => "tpm_limit_key"

--
-- Buckets
--

structure Bucket where
  tokens : ℚ
  capacity : ℚ
  lastRefill : Instant
  lastUsed : Instant
deriving DecidableEq

/- The distance between one and the next `f64`. -/
def f64Epsilon : ℚ := 1 / 2 ^ 52

/- The slack `admit` leaves for rounding. -/
def tolerance : ℚ := 1 / 10 ^ 9

namespace Bucket

def new (limit : Nat) (now : Instant) : Bucket where
  tokens := limit
  capacity := limit
  lastRefill := now
  lastUsed := now

def asSecs (d : Duration) : ℚ :=
  d / nanosPerSec

/- Bring the bucket to `now` under the present limit. -/
def refill (b : Bucket) (limit : Nat) (now : Instant) : Bucket :=
  let cap : ℚ := limit
  let elapsed := asSecs (saturatingDurationSince now b.lastRefill)
  { b with
    capacity :=
      if f64Epsilon < |cap - b.capacity| then cap
      else b.capacity
    tokens := min (b.tokens + elapsed * cap / 60) cap
    lastRefill := now }

def waitSecs (b : Bucket) (cost : Nat) : Nat :=
  let perSec := b.capacity / 60
  if perSec ≤ 0 then 60
  else min (max ⌈(cost - b.tokens) / perSec⌉ 1).toNat 3600

def fits (b : Bucket) (cost : Nat) : Bool :=
  !(b.tokens + tolerance < cost)

/- Take a request's cost. -/
def debit (b : Bucket) (cost : Nat) (now : Instant) : Bucket :=
  { b with tokens := b.tokens - cost, lastUsed := now }

/- Correct a reservation by what was used. -/
def correct (b : Bucket) (reserved actual : Nat) : Bucket :=
  { b with
    tokens :=
      max (-b.capacity) (min (b.tokens + (reserved - actual)) b.capacity) }

/- A refill under a limit above the level adds. -/
theorem le_refill_tokens {b : Bucket} {limit : Nat} {now : Instant} (hLevel : b.tokens ≤ limit) :
    b.tokens ≤ (b.refill limit now).tokens := by
  unfold refill
  apply le_min _ hLevel
  have hElapsed : 0 ≤ asSecs (saturatingDurationSince now b.lastRefill) := by
    unfold asSecs
    positivity
  have hGain : 0 ≤ asSecs (saturatingDurationSince now b.lastRefill) * limit / 60 := by positivity
  linarith

end Bucket

--
-- A Tenant's Buckets
--

structure TenantBuckets where
  map : HashTable BucketKey Bucket := ∅
  endUsers : Nat := 0

structure LimitConfig where
  maxEndUsers : Nat
  idle : Duration

structure Reservation where
  tenant : TenantId
  debits : List (BucketKey × Nat)
  keyId : Option String
  model : String
  endUser : Option String
  atInstant : Instant

namespace TenantBuckets

/- The number of end-user buckets of a map. -/
def endUserBuckets (map : HashTable BucketKey Bucket) : Nat :=
  map.weigh (fun k _ => k.isEndUser.toNat)

def evictIdle (tb : TenantBuckets) (now : Instant) (idle : Duration) : TenantBuckets :=
  let keep : BucketKey → Bucket → Bool := fun _ b =>
    saturatingDurationSince now b.lastUsed < idle
  let kept := tb.map.retain keep
  let freedEndUsers := endUserBuckets (tb.map.retain (fun k b => !keep k b))
  { map := kept
    endUsers :=
      if kept.entries.length ≠ tb.map.entries.length then
        tb.endUsers - freedEndUsers
      else
        tb.endUsers }

/- The end-user buckets a request names and the map lacks. -/
def newEndUsers (tb : TenantBuckets) (checks : List Check) : Nat :=
  (checks.filter (fun c => c.key.isEndUser && (tb.map.lookup c.key).isNone)).length

def overCapacity (cfg : LimitConfig) (tb : TenantBuckets) (newUsers : Nat) : Bool :=
  0 < newUsers ∧ cfg.maxEndUsers < tb.endUsers + newUsers

/- Evict idle buckets where new end users do not fit. -/
def makeRoom (cfg : LimitConfig) (tb : TenantBuckets) (checks : List Check)
    (now : Instant) : TenantBuckets :=
  if tb.overCapacity cfg (tb.newEndUsers checks) then
    tb.evictIdle now cfg.idle
  else
    tb

/- The bucket a check reads: the stored or a full one. -/
def refilled (tb : TenantBuckets) (now : Instant) (c : Check) : Bucket :=
  ((tb.map.lookup c.key).getD (.new c.limit now)).refill c.limit now

def denial (b : Bucket) (c : Check) : LimitDenial where
  code := codeFor c.key.kind c.key.scope c.key.dim
  scope := c.key.scope
  dim := c.key.dim
  kind := c.key.kind
  limit := c.limit
  requested := c.cost
  retryAfterSecs :=
    if c.limit < c.cost then 60 else b.waitSecs c.cost
  exceedsCapacity := c.limit < c.cost

/- Keep the denial a client must wait longest for. -/
def worse (worst : Option LimitDenial) (d : LimitDenial) : Option LimitDenial :=
  if worst.all (fun w => w.retryAfterSecs < d.retryAfterSecs) then
    some d
  else
    worst

/- One round of the checking loop. -/
def checkBucket (now : Instant) (state : TenantBuckets × Option LimitDenial)
    (c : Check) : TenantBuckets × Option LimitDenial :=
  let tb := state.1
  let isNew := (tb.map.lookup c.key).isNone
  let b := tb.refilled now c
  ({ map := tb.map.insert c.key b
     endUsers :=
       if isNew && c.key.isEndUser then tb.endUsers + 1
       else tb.endUsers },
    if b.fits c.cost then state.2
    else worse state.2 (denial b c))

/- Write the bucket of a key, where it has one. -/
def modify (tb : TenantBuckets) (k : BucketKey) (f : Bucket → Bucket) : TenantBuckets :=
  match tb.map.lookup k with
  | some b => { tb with map := tb.map.insert k (f b) }
  | none => tb

/- One round of the debiting loop. -/
def debitBucket (now : Instant) (tb : TenantBuckets) (c : Check) : TenantBuckets :=
  tb.modify c.key (fun b => b.debit c.cost now)

def capacityScope (checks : List Check) : Scope :=
  match checks.find? (fun c => c.key.isEndUser) with
  | some c => c.key.scope
  | none => .workspace

/- The reservations a request's span will settle. -/
def tpmDebits (checks : List Check) : List (BucketKey × Nat) :=
  (checks.filter (fun c => c.key.kind = .tpm ∧ 0 < c.cost)).map (fun c => (c.key, c.cost))

/- `admit`: charge every check, or none. -/
def admitAll (cfg : LimitConfig) (tb : TenantBuckets) (checks : List Check) (now : Instant) :
    Except LimitDenial (List (BucketKey × Nat)) × TenantBuckets :=
  if checks.isEmpty then (.ok [], tb)
  else
    let newUsers := tb.newEndUsers checks
    let room := tb.makeRoom cfg checks now
    if room.overCapacity cfg newUsers then
      (.error (.capacity (capacityScope checks)), room)
    else
      match checks.foldl (checkBucket now) (room, none) with
      | (checked, some worst) => (.error worst, checked)
      | (checked, none) => (.ok (tpmDebits checks), checks.foldl (debitBucket now) checked)

def correctBucket (actual : Nat) (tb : TenantBuckets) (d : BucketKey × Nat) : TenantBuckets :=
  tb.modify d.1 (fun b => b.correct d.2 actual)

/- Correct each bucket of a reservation. -/
def reconcile (tb : TenantBuckets) (r : Reservation) (actual : Nat) : TenantBuckets :=
  r.debits.foldl (correctBucket actual) tb

--
-- What A Call Keeps And Does
--

/- The counter counts the end-user buckets. -/
def Counted (tb : TenantBuckets) : Prop :=
  tb.endUsers = endUserBuckets tb.map

structure Balanced (cfg : LimitConfig) (tb : TenantBuckets) : Prop where
  counted : tb.Counted
  bounded : tb.endUsers ≤ cfg.maxEndUsers

/- No bucket that stays is lower than it was. -/
def NotLowered (tb tb' : TenantBuckets) : Prop :=
  ∀ k b b', tb.map.lookup k = some b → tb'.map.lookup k = some b' → b.tokens ≤ b'.tokens

/-
  An admitted request takes exactly its cost from each bucket it names, as refilled, and touches no
  other; a refused one lowers none.
-/
structure AdmitSpec (cfg : LimitConfig) (tb : TenantBuckets)
    (checks : List Check) (now : Instant) : Prop where
  charged :
    ∀ debits, (tb.admitAll cfg checks now).1 = .ok debits →
      ∀ c ∈ checks, ∃ b,
        (tb.admitAll cfg checks now).2.map.lookup c.key = some b ∧
          b.tokens = ((tb.makeRoom cfg checks now).refilled now c).tokens - c.cost ∧
          -tolerance ≤ b.tokens
  others :
    ∀ k ∉ checks.map Check.key,
      (tb.admitAll cfg checks now).2.map.lookup k = (tb.makeRoom cfg checks now).map.lookup k
  refused :
    ∀ d, (tb.admitAll cfg checks now).1 = .error d → NotLowered tb (tb.admitAll cfg checks now).2

/- The request is refused because its end users do not fit. -/
def refusesRoom (cfg : LimitConfig) (tb : TenantBuckets) (checks : List Check)
    (now : Instant) : Bool :=
  (tb.makeRoom cfg checks now).overCapacity cfg (tb.newEndUsers checks)

/-
  There is room for every end-user bucket the request names
  and the map lacks once idle buckets are gone.
-/
def hasRoom (cfg : LimitConfig) (tb : TenantBuckets) (checks : List Check) (now : Instant) : Bool :=
  let room := tb.makeRoom cfg checks now
  tb.refusesRoom cfg checks now || room.endUsers + room.newEndUsers checks ≤ cfg.maxEndUsers

/- No limit is below the level of its bucket. -/
def limitsCover (tb : TenantBuckets) (checks : List Check) : Bool :=
  checks.all (fun c =>
    (tb.map.lookup c.key).all (fun b => b.tokens ≤ (c.limit : ℚ)))

/- The calls for which the two promises hold. -/
def fair (cfg : LimitConfig) (tb : TenantBuckets) (checks : List Check) (now : Instant) : Bool :=
  tb.hasRoom cfg checks now &&
    (tb.refusesRoom cfg checks now ||
      checks.all (fun c => ((tb.makeRoom cfg checks now).refilled now c).fits c.cost) ||
      tb.limitsCover checks)

/- Everything `admitAll` can do. -/
theorem admit_cases (cfg : LimitConfig) (tb : TenantBuckets) (checks : List Check) (now : Instant) :
    (checks = [] ∧ tb.admitAll cfg checks now = (.ok [], tb)) ∨
      (tb.refusesRoom cfg checks now = true ∧
        tb.admitAll cfg checks now =
          (.error (.capacity (capacityScope checks)), tb.makeRoom cfg checks now)) ∨
      (tb.refusesRoom cfg checks now = false ∧
        ∃ checked worst,
          checks.foldl (checkBucket now) (tb.makeRoom cfg checks now, none) =
            (checked, some worst) ∧
          tb.admitAll cfg checks now = (.error worst, checked)) ∨
      (tb.refusesRoom cfg checks now = false ∧
        ∃ checked,
          checks.foldl (checkBucket now) (tb.makeRoom cfg checks now, none) = (checked, none) ∧
          tb.admitAll cfg checks now =
            (.ok (tpmDebits checks), checks.foldl (debitBucket now) checked)) := by
  cases checks with
  | nil => exact .inl ⟨rfl, rfl⟩
  | cons c cs =>
    right
    unfold admitAll
    cases hRefuses : tb.refusesRoom cfg (c :: cs) now with
    | true =>
      unfold refusesRoom at hRefuses
      exact .inl ⟨rfl, by simp [hRefuses]⟩
    | false =>
      right
      unfold refusesRoom at hRefuses
      cases hFold :
          (c :: cs).foldl (checkBucket now) (tb.makeRoom cfg (c :: cs) now, none) with
      | mk checked worst =>
        cases worst with
        | none =>
          right
          refine ⟨rfl, checked, rfl, ?_⟩
          simp [isEmpty_cons, Bool.false_eq_true, hRefuses, hFold]
        | some worst =>
          left
          refine ⟨rfl, checked, worst, rfl, ?_⟩
          simp [isEmpty_cons, Bool.false_eq_true, hRefuses, hFold]

--
-- The Counter
--

variable {cfg : LimitConfig} {tb : TenantBuckets} {checks : List Check}
variable {now : Instant}

variable {idle : Duration} {r : Reservation} {actual : Nat} {b : Bucket} {d : LimitDenial}

theorem evictIdle_counted (hCounted : tb.Counted) :
    (tb.evictIdle now idle).Counted := by
  unfold Counted evictIdle endUserBuckets at *
  have hSplit :=
    weigh_retain (fun k _ => k.isEndUser.toNat)
      (fun (_ : BucketKey) (b : Bucket) => decide (saturatingDurationSince now b.lastUsed < idle))
      tb.map
  simp only
  split
  · omega
  · rename_i hLen
    have hDropped := weigh_dropped (w := fun k _ => k.isEndUser.toNat) (not_not.mp hLen)
    omega

theorem makeRoom_counted (hCounted : tb.Counted) :
    (tb.makeRoom cfg checks now).Counted := by
  unfold makeRoom
  split
  · exact evictIdle_counted hCounted
  · exact hCounted

/- Writing a bucket counts it if it is a new end user's. -/
theorem endUserBuckets_insert (map : HashTable BucketKey Bucket) (k : BucketKey) (b : Bucket) :
    endUserBuckets (map.insert k b) =
      if (map.lookup k).isNone && k.isEndUser then
        endUserBuckets map + 1
      else
        endUserBuckets map := by
  unfold endUserBuckets
  have hInsert := weigh_insert (fun k _ => k.isEndUser.toNat) map k b
  cases hLookup : map.lookup k with
  | none =>
    rw [hLookup] at hInsert
    cases hUser : k.isEndUser
    · simpa [hUser] using hInsert
    · simpa [hUser, Nat.add_comm] using hInsert
  | some old =>
    rw [hLookup, Option.elim_some] at hInsert
    simp only [Option.isNone_some, Bool.false_and, Bool.false_eq_true, if_false]
    omega

variable {c : Check}

theorem checkBucket_counted {state : TenantBuckets × Option LimitDenial}
    (hCounted : state.1.Counted) :
    (checkBucket now state c).1.Counted := by
  unfold Counted checkBucket at *
  simp only
  rw [endUserBuckets_insert, hCounted]

variable {k : BucketKey} {f : Bucket → Bucket}

theorem modify_counted (hCounted : tb.Counted) :
    (tb.modify k f).Counted := by
  unfold modify
  cases hLookup : tb.map.lookup k with
  | none => exact hCounted
  | some b =>
    unfold Counted
    simp only
    rw [endUserBuckets_insert, hLookup]
    exact hCounted

/- What the rounds of both loops keep, a call keeps. -/
theorem admit_keeps {Inv : TenantBuckets → Prop} (hRoom : Inv (tb.makeRoom cfg checks now))
    (hCheck : ∀ state c, Inv state.1 → Inv (checkBucket now state c).1)
    (hDebit : ∀ tb c, Inv tb → Inv (debitBucket now tb c)) (hInv : Inv tb) :
    Inv (tb.admitAll cfg checks now).2 := by
  have hChecked : Inv (checks.foldl (checkBucket now) (tb.makeRoom cfg checks now, none)).1 :=
    foldlRecOn (motive := fun (state : TenantBuckets × _) => Inv state.1)
      _ _ hRoom (fun state hState c _ => hCheck state c hState)
  rcases admit_cases cfg tb checks now with
    ⟨_, hAdmit⟩ | ⟨_, hAdmit⟩ | ⟨_, checked, _, hFold, hAdmit⟩ | ⟨_, checked, hFold, hAdmit⟩
  · rw [hAdmit]
    exact hInv
  · rw [hAdmit]
    exact hRoom
  · rw [hFold] at hChecked
    rw [hAdmit]
    exact hChecked
  · rw [hFold] at hChecked
    rw [hAdmit]
    exact foldlRecOn (motive := Inv) _ _ hChecked (fun tb hTb c _ => hDebit tb c hTb)

theorem admit_counted (hCounted : tb.Counted) :
    (tb.admitAll cfg checks now).2.Counted :=
  admit_keeps (makeRoom_counted hCounted)
    (fun _ _ => checkBucket_counted) (fun _ _ => modify_counted) hCounted

theorem reconcile_counted (hCounted : tb.Counted) :
    (tb.reconcile r actual).Counted := by
  refine foldlRecOn (motive := fun (tb : TenantBuckets) => tb.Counted) _ _ hCounted ?_
  intro tb hTb d _
  exact modify_counted hTb

--
-- The Bound
--

@[simp] theorem endUsers_modify :
    (tb.modify k f).endUsers = tb.endUsers := by
  unfold modify
  cases tb.map.lookup k <;> rfl

theorem endUsers_foldl_debitBucket (checks : List Check) (tb : TenantBuckets) :
    (checks.foldl (debitBucket now) tb).endUsers = tb.endUsers := by
  induction checks generalizing tb with
  | nil => rfl
  | cons c cs ih =>
    rw [foldl_cons, ih]
    exact endUsers_modify

theorem endUsers_reconcile :
    (tb.reconcile r actual).endUsers = tb.endUsers := by
  refine foldlRecOn
    (motive := fun (state : TenantBuckets) => state.endUsers = tb.endUsers) _ _ rfl ?_
  intro state hState d _
  exact endUsers_modify.trans hState

/- Writing another bucket changes no count of new users. -/
theorem newEndUsers_insert {n : Nat} (hKey : k ∉ checks.map Check.key) :
    newEndUsers ⟨tb.map.insert k b, n⟩ checks = newEndUsers tb checks := by
  unfold newEndUsers
  congr 1
  apply filter_congr
  intro c hMem
  have hOther : c.key ≠ k := by
    intro hSame
    exact hKey (hSame ▸ mem_map_of_mem hMem)
  simp only
  rw [AList.lookup_insert_ne hOther]

/- The checking loop counts the new end users it creates. -/
theorem endUsers_foldl_checkBucket (hDistinct : (checks.map Check.key).Nodup)
    (state : TenantBuckets × Option LimitDenial) :
    (checks.foldl (checkBucket now) state).1.endUsers =
      state.1.endUsers + state.1.newEndUsers checks := by
  induction checks generalizing state with
  | nil => rfl
  | cons c cs ih =>
    rw [map_cons, nodup_cons] at hDistinct
    rw [foldl_cons, ih hDistinct.2]
    unfold checkBucket
    simp only
    rw [newEndUsers_insert hDistinct.1]
    unfold newEndUsers
    rw [filter_cons, Bool.and_comm]
    split
    · simp only [length_cons]
      omega
    · rfl

theorem evictIdle_endUsers_le :
    (tb.evictIdle now idle).endUsers ≤ tb.endUsers := by
  unfold evictIdle
  simp only
  split
  · exact Nat.sub_le _ _
  · exact le_rfl

theorem makeRoom_endUsers_le :
    (tb.makeRoom cfg checks now).endUsers ≤ tb.endUsers := by
  unfold makeRoom
  split
  · exact evictIdle_endUsers_le
  · exact le_rfl

/- A call that is not refused for room ends with this count. -/
theorem admit_endUsers (hDistinct : (checks.map Check.key).Nodup)
    (hRoom : tb.refusesRoom cfg checks now = false) :
    (tb.admitAll cfg checks now).2.endUsers =
      (tb.makeRoom cfg checks now).endUsers + (tb.makeRoom cfg checks now).newEndUsers checks := by
  have hCount :
      (checks.foldl (checkBucket now) (tb.makeRoom cfg checks now, none)).1.endUsers =
        (tb.makeRoom cfg checks now).endUsers + (tb.makeRoom cfg checks now).newEndUsers checks :=
    endUsers_foldl_checkBucket hDistinct _
  rcases admit_cases cfg tb checks now with
    ⟨hNil, hAdmit⟩ | ⟨hRefuses, _⟩ | ⟨_, checked, _, hFold, hAdmit⟩ | ⟨_, checked, hFold, hAdmit⟩
  · subst hNil
    rw [hAdmit]
    rfl
  · rw [hRoom] at hRefuses
    cases hRefuses
  · rw [hFold] at hCount
    rw [hAdmit]
    exact hCount
  · rw [hFold] at hCount
    rw [hAdmit]
    exact (endUsers_foldl_debitBucket checks checked).trans hCount

/- The bound survives exactly the calls that have room. -/
theorem admit_bounded_iff (hDistinct : (checks.map Check.key).Nodup)
    (hBounded : tb.endUsers ≤ cfg.maxEndUsers) :
    (tb.admitAll cfg checks now).2.endUsers ≤ cfg.maxEndUsers ↔
      tb.hasRoom cfg checks now = true := by
  unfold hasRoom
  cases hRefuses : tb.refusesRoom cfg checks now with
  | true =>
    simp only [Bool.true_or, iff_true]
    rcases admit_cases cfg tb checks now with ⟨_, hAdmit⟩ | ⟨_, hAdmit⟩ | ⟨hNot, _⟩ | ⟨hNot, _⟩
    · rw [hAdmit]
      exact hBounded
    · rw [hAdmit]
      exact makeRoom_endUsers_le.trans hBounded
    · rw [hRefuses] at hNot
      cases hNot
    · rw [hRefuses] at hNot
      cases hNot
  | false =>
    rw [admit_endUsers hDistinct hRefuses]
    simp

--
-- The Levels
--

variable (state : TenantBuckets × Option LimitDenial)

theorem lookup_checkBucket (c : Check) :
    (checkBucket now state c).1.map.lookup c.key = some (state.1.refilled now c) :=
  AList.lookup_insert _

theorem lookup_checkBucket_ne (c : Check) (k : BucketKey) (hOther : k ≠ c.key) :
    (checkBucket now state c).1.map.lookup k = state.1.map.lookup k :=
  AList.lookup_insert_ne hOther

theorem lookup_modify :
    (tb.modify k f).map.lookup k = (tb.map.lookup k).map f := by
  unfold modify
  cases hLookup : tb.map.lookup k with
  | none => exact hLookup
  | some b => exact AList.lookup_insert _

theorem lookup_modify_ne {k k' : BucketKey} (hOther : k' ≠ k) :
    (tb.modify k f).map.lookup k' = tb.map.lookup k' := by
  unfold modify
  cases tb.map.lookup k with
  | none => rfl
  | some b => exact AList.lookup_insert_ne hOther

/- The bucket a check reads is its own key's alone. -/
theorem refilled_congr {tb' : TenantBuckets}
    (hLookup : tb'.map.lookup c.key = tb.map.lookup c.key) :
    tb'.refilled now c = tb.refilled now c := by
  unfold refilled
  rw [hLookup]

/- After the checking loop each bucket is refilled once. -/
theorem lookup_foldl_checkBucket (now : Instant)
    (hDistinct : (checks.map Check.key).Nodup) (hMem : c ∈ checks)
    (state : TenantBuckets × Option LimitDenial) :
    (checks.foldl (checkBucket now) state).1.map.lookup c.key = some (state.1.refilled now c) :=
  look_foldl_of_mem (fun state k => state.1.map.lookup k) Check.key
    (fun c old => some ((old.getD (.new c.limit now)).refill c.limit now))
    lookup_checkBucket_ne lookup_checkBucket hDistinct hMem state

/- After the debiting loop each bucket is debited once. -/
theorem lookup_foldl_debitBucket (hDistinct : (checks.map Check.key).Nodup)
    (hMem : c ∈ checks) (tb : TenantBuckets) :
    (checks.foldl (debitBucket now) tb).map.lookup c.key =
      (tb.map.lookup c.key).map (fun b => b.debit c.cost now) :=
  look_foldl_of_mem (fun tb k => tb.map.lookup k) Check.key
    (fun c old => old.map (fun b => b.debit c.cost now))
    (fun _ _ _ hOther => lookup_modify_ne hOther) (fun _ _ => lookup_modify) hDistinct hMem tb

/- The denials of the checks that do not fit. -/
def refusals (tb : TenantBuckets) (now : Instant) (checks : List Check) : List LimitDenial :=
  (checks.filter (fun c => !(tb.refilled now c).fits c.cost)).map
    (fun c => denial (tb.refilled now c) c)

/- The checking loop keeps the worst of them. -/
theorem foldl_checkBucket_snd (hDistinct : (checks.map Check.key).Nodup)
    (state : TenantBuckets × Option LimitDenial) :
    (checks.foldl (checkBucket now) state).2 =
      (state.1.refusals now checks).foldl worse state.2 := by
  induction checks generalizing state with
  | nil => rfl
  | cons c cs ih =>
    rw [map_cons, nodup_cons] at hDistinct
    have hSame : ∀ d ∈ cs, (checkBucket now state c).1.refilled now d = state.1.refilled now d := by
      intro d hLater
      refine refilled_congr (lookup_checkBucket_ne state c d.key ?_)
      intro hKey
      exact hDistinct.1 (hKey ▸ mem_map_of_mem hLater)
    have hRest : (checkBucket now state c).1.refusals now cs = state.1.refusals now cs := by
      unfold refusals
      rw [filter_congr (fun d hLater => by
        rw [hSame d hLater])]
      refine map_congr_left (fun d hLater => ?_)
      rw [hSame d (mem_filter.mp hLater).1]
    rw [foldl_cons, ih hDistinct.2, hRest]
    cases hFits : (state.1.refilled now c).fits c.cost with
    | false | true => simp [refusals, checkBucket, hFits]

theorem worse_eq_some (w : Option LimitDenial) (e : LimitDenial) :
    ∃ x, worse w e = some x ∧ x ∈ e :: w.toList ∧
      ∀ d ∈ e :: w.toList, d.retryAfterSecs ≤ x.retryAfterSecs := by
  cases w with
  | none => simp [worse]
  | some w =>
    by_cases hLonger : w.retryAfterSecs < e.retryAfterSecs
    · exact ⟨e, by simp [worse, hLonger], by simp,
        by simpa using hLonger.le⟩
    · exact ⟨w, by simp [worse, hLonger], by simp,
        by simpa using Nat.not_lt.mp hLonger⟩

/- Of any denials, one with the longest wait stays. -/
theorem foldl_worse (ds : List LimitDenial) (w : Option LimitDenial) :
    (ds.foldl worse w = none ∧ w = none ∧ ds = []) ∨
      ∃ d, ds.foldl worse w = some d ∧ d ∈ w.toList ++ ds ∧
        ∀ e ∈ w.toList ++ ds, e.retryAfterSecs ≤ d.retryAfterSecs := by
  induction ds generalizing w with
  | nil =>
    cases w with
    | none => simp
    | some w => simp
  | cons e ds ih =>
    right
    rcases worse_eq_some w e with ⟨x, hWorse, hOne, hMost⟩
    rw [foldl_cons, hWorse]
    rcases ih (some x) with ⟨_, hNot, _⟩ | ⟨d, hFold, hIn, hAll⟩
    · cases hNot
    · refine ⟨d, hFold, ?_, fun f hMem => ?_⟩
      · simp at hIn hOne ⊢
        grind
      · have hX := hAll x (by simp)
        simp at hMem hMost hAll
        grind

/- A loop that found no denial found room in every bucket. -/
theorem foldl_checkBucket_eq_none_iff (hDistinct : (checks.map Check.key).Nodup) :
    (checks.foldl (checkBucket now) (tb, none)).2 = none ↔
      ∀ c ∈ checks, (tb.refilled now c).fits c.cost := by
  have hEmpty : tb.refusals now checks = [] ↔ ∀ c ∈ checks, (tb.refilled now c).fits c.cost := by
    simp [refusals, filter_eq_nil_iff]
  rw [foldl_checkBucket_snd hDistinct, ← hEmpty]
  rcases foldl_worse (tb.refusals now checks) none with ⟨hNone, _, hNil⟩ | ⟨d, hSome, hIn, _⟩
  · exact ⟨fun _ => hNil, fun _ => hNone⟩
  · rw [hSome]
    refine ⟨nofun, fun hNil => ?_⟩
    simp [hNil] at hIn

/- A refilled bucket holds at most the limit. -/
theorem refilled_tokens_le (c : Check) :
    (tb.refilled now c).tokens ≤ c.limit := by
  unfold refilled Bucket.refill
  exact min_le_right _ _

/- Room is made of buckets that were not used for long. -/
theorem lookup_makeRoom (cfg : LimitConfig) (tb : TenantBuckets) (checks : List Check)
    (now : Instant) (k : BucketKey) :
    (tb.makeRoom cfg checks now).map.lookup k = tb.map.lookup k ∨
      (tb.makeRoom cfg checks now).map.lookup k = none ∧
        ∀ b, tb.map.lookup k = some b → cfg.idle ≤ saturatingDurationSince now b.lastUsed := by
  unfold makeRoom
  split
  · unfold evictIdle
    simp only
    rw [lookup_retain]
    cases tb.map.lookup k with
    | none => exact .inl rfl
    | some b =>
      simp only [Option.filter]
      split
      · exact .inl rfl
      · rename_i hIdle
        exact .inr ⟨rfl, by simpa using hIdle⟩
  · exact .inl rfl

/- An admitted call fits each bucket and debits it once. -/
theorem admit_ok_lookup (hDistinct : (checks.map Check.key).Nodup) {debits : List (BucketKey × Nat)}
    (hOk : (tb.admitAll cfg checks now).1 = .ok debits) (hMem : c ∈ checks) :
    ((tb.makeRoom cfg checks now).refilled now c).fits c.cost ∧
      (tb.admitAll cfg checks now).2.map.lookup c.key =
        some (((tb.makeRoom cfg checks now).refilled now c).debit c.cost now) := by
  rcases admit_cases cfg tb checks now with
    ⟨hNil, _⟩ | ⟨_, hAdmit⟩ | ⟨_, _, _, _, hAdmit⟩ | ⟨_, checked, hFold, hAdmit⟩
  · subst hNil
    cases hMem
  · rw [hAdmit] at hOk
    cases hOk
  · rw [hAdmit] at hOk
    cases hOk
  · constructor
    · apply (foldl_checkBucket_eq_none_iff hDistinct).mp _ c hMem
      rw [hFold]
    · have hChecked :=
        lookup_foldl_checkBucket now hDistinct hMem (tb.makeRoom cfg checks now, none)
      rw [hFold] at hChecked
      rw [hAdmit]
      simp only
      rw [lookup_foldl_debitBucket hDistinct hMem, hChecked]
      rfl

theorem admit_others (hKey : k ∉ checks.map Check.key) :
    (tb.admitAll cfg checks now).2.map.lookup k = (tb.makeRoom cfg checks now).map.lookup k := by
  have hChecked :
      (checks.foldl (checkBucket now) (tb.makeRoom cfg checks now, none)).1.map.lookup k =
        (tb.makeRoom cfg checks now).map.lookup k :=
    look_foldl_of_notMem (fun (state : TenantBuckets × _) k => state.1.map.lookup k)
      Check.key lookup_checkBucket_ne hKey _
  rcases admit_cases cfg tb checks now with
    ⟨hNil, hAdmit⟩ | ⟨_, hAdmit⟩ | ⟨_, _, _, hFold, hAdmit⟩ | ⟨_, checked, hFold, hAdmit⟩
  · subst hNil
    rw [hAdmit]
    rfl
  · rw [hAdmit]
  · rw [hFold] at hChecked
    rw [hAdmit]
    exact hChecked
  · rw [hFold] at hChecked
    rw [hAdmit, ← hChecked]
    exact look_foldl_of_notMem (fun (tb : TenantBuckets) k => tb.map.lookup k)
        Check.key (fun _ _ _ hOther => lookup_modify_ne hOther) hKey _

/- What a refusal that is not for room leaves in a bucket. -/
theorem admit_refused_lookup (hDistinct : (checks.map Check.key).Nodup)
    (hRoom : tb.refusesRoom cfg checks now = false)
    (hError : (tb.admitAll cfg checks now).1 = .error d) (hMem : c ∈ checks) :
    (tb.admitAll cfg checks now).2.map.lookup c.key =
      some ((tb.makeRoom cfg checks now).refilled now c) := by
  rcases admit_cases cfg tb checks now with
    ⟨hNil, _⟩ | ⟨hRefuses, _⟩ | ⟨_, checked, _, hFold, hAdmit⟩ | ⟨_, _, _, hAdmit⟩
  · subst hNil
    cases hMem
  · rw [hRoom] at hRefuses
    cases hRefuses
  · have hChecked := lookup_foldl_checkBucket now hDistinct hMem (tb.makeRoom cfg checks now, none)
    rw [hFold] at hChecked
    rw [hAdmit]
    exact hChecked
  · rw [hAdmit] at hError
    cases hError

theorem le_refilled_makeRoom
    (hLookup : tb.map.lookup c.key = some b) (hLevel : b.tokens ≤ c.limit) :
    b.tokens ≤ ((tb.makeRoom cfg checks now).refilled now c).tokens := by
  unfold refilled
  rcases lookup_makeRoom cfg tb checks now c.key with hStays | ⟨hGone, _⟩
  · rw [hStays, hLookup]
    exact Bucket.le_refill_tokens hLevel
  · rw [hGone]
    have hFull : (Bucket.new c.limit now).tokens ≤ c.limit := le_rfl
    exact hLevel.trans (Bucket.le_refill_tokens hFull)

theorem limitsCover_iff :
    tb.limitsCover checks = true ↔
      ∀ c ∈ checks, ∀ b, tb.map.lookup c.key = some b → b.tokens ≤ c.limit := by
  unfold limitsCover
  rw [all_eq_true]
  apply forall₂_congr
  intro c _
  rw [Option.all_eq_true]
  simp

section

variable (hDistinct : (checks.map Check.key).Nodup)
include hDistinct

/-
  A refusal lowers no bucket exactly if it is for room or no limit is below its bucket's level: a
  smaller limit cuts the bucket down to it.
-/
theorem admit_refused_iff (hError : (tb.admitAll cfg checks now).1 = .error d) :
    NotLowered tb (tb.admitAll cfg checks now).2 ↔
      tb.refusesRoom cfg checks now = true ∨ tb.limitsCover checks = true := by
  have hStays :
      ∀ k b b', tb.map.lookup k = some b →
        (tb.makeRoom cfg checks now).map.lookup k = some b' → b.tokens ≤ b'.tokens := by
    intro k b b' hBefore hAfter
    rcases lookup_makeRoom cfg tb checks now k with hSame | ⟨hGone, _⟩
    · rw [hSame, hBefore] at hAfter
      cases hAfter
      exact le_rfl
    · rw [hGone] at hAfter
      cases hAfter
  cases hRoom : tb.refusesRoom cfg checks now with
  | true =>
    simp only [true_or, iff_true]
    rcases admit_cases cfg tb checks now with ⟨_, hAdmit⟩ | ⟨_, hAdmit⟩ | ⟨hNot, _⟩ | ⟨hNot, _⟩
    · rw [hAdmit] at hError
      cases hError
    · rw [hAdmit]
      exact hStays
    · rw [hRoom] at hNot
      cases hNot
    · rw [hRoom] at hNot
      cases hNot
  | false =>
    simp only [Bool.false_eq_true, false_or]
    rw [limitsCover_iff]
    constructor
    · intro hKept c hMem b hLookup
      have hAfter := admit_refused_lookup hDistinct hRoom hError hMem
      exact (hKept c.key b _ hLookup hAfter).trans (refilled_tokens_le c)
    · intro hCover k b b' hBefore hAfter
      by_cases hKey : k ∈ checks.map Check.key
      · rcases mem_map.mp hKey with ⟨c, hMem, rfl⟩
        rw [admit_refused_lookup hDistinct hRoom hError hMem] at hAfter
        cases hAfter
        exact le_refilled_makeRoom hBefore (hCover c hMem b hBefore)
      · rw [admit_others hKey] at hAfter
        exact hStays k b b' hBefore hAfter

/- The checks of an admitted call all fit. -/
theorem admit_isOk_iff (hRoom : tb.refusesRoom cfg checks now = false) :
    (tb.admitAll cfg checks now).1.isOk = true ↔
      ∀ c ∈ checks, ((tb.makeRoom cfg checks now).refilled now c).fits c.cost := by
  rw [← foldl_checkBucket_eq_none_iff hDistinct]
  rcases admit_cases cfg tb checks now with
    ⟨hNil, hAdmit⟩ | ⟨hRefuses, _⟩ | ⟨_, _, _, hFold, hAdmit⟩ | ⟨_, _, hFold, hAdmit⟩
  · subst hNil
    simp [hAdmit, Except.isOk, Except.toBool]
  · rw [hRoom] at hRefuses
    cases hRefuses
  · simp [hAdmit, hFold, Except.isOk, Except.toBool]
  · simp [hAdmit, hFold, Except.isOk, Except.toBool]

/- The two promises hold of exactly the fair calls. -/
theorem admit_iff_fair (hBalanced : tb.Balanced cfg) :
    AdmitSpec cfg tb checks now ∧ (tb.admitAll cfg checks now).2.Balanced cfg ↔
      tb.fair cfg checks now = true := by
  have hBound :
      (tb.admitAll cfg checks now).2.endUsers ≤ cfg.maxEndUsers ↔
        tb.hasRoom cfg checks now = true :=
    admit_bounded_iff hDistinct hBalanced.bounded
  have hFair :
      tb.fair cfg checks now = true ↔
        (tb.admitAll cfg checks now).2.endUsers ≤ cfg.maxEndUsers ∧
          (tb.refusesRoom cfg checks now = true ∨
            (tb.admitAll cfg checks now).1.isOk = true ∨ tb.limitsCover checks = true) := by
    unfold fair
    cases hRoom : tb.refusesRoom cfg checks now with
    | true => simp [hBound]
    | false => simp [hBound, admit_isOk_iff hDistinct hRoom]
  rw [hFair]
  constructor
  · rintro ⟨hSpec, hAfter⟩
    refine ⟨hAfter.bounded, ?_⟩
    cases hOutcome : (tb.admitAll cfg checks now).1 with
    | ok debits => simp [Except.isOk, Except.toBool]
    | error d =>
      have hKept := hSpec.refused d hOutcome
      rcases (admit_refused_iff hDistinct hOutcome).mp hKept with hRoom | hCover
      · simp [hRoom]
      · simp [hCover]
  · rintro ⟨hBounded, hKept⟩
    refine ⟨⟨?_, ?_, ?_⟩, ⟨?_, hBounded⟩⟩
    · intro debits hOk c hMem
      rcases admit_ok_lookup hDistinct hOk hMem with ⟨hFits, hLookup⟩
      refine ⟨_, hLookup, rfl, ?_⟩
      unfold Bucket.fits at hFits
      unfold Bucket.debit
      simp only [Bool.not_eq_true', decide_eq_false_iff_not, not_lt] at hFits ⊢
      linarith
    · intro k hKey
      exact admit_others hKey
    · intro d hError
      apply (admit_refused_iff hDistinct hError).mpr
      rw [hError] at hKept
      simpa [Except.isOk, Except.toBool] using hKept
    · exact admit_counted hBalanced.counted

end

end TenantBuckets

--
-- Runs
--

namespace Limits

/- The table, a tenant without an entry having no buckets. -/
abbrev State := TenantId → TenantBuckets

inductive Event where
| admitAll
    (tenant : TenantId)
    (checks : List Check)
    (now : Instant)
| reconcile
    (r : Reservation)
    (actualTokens : Nat)

def AllBalanced (cfg : LimitConfig) (s : State) : Prop :=
  ∀ T, (s T).Balanced cfg

/- A request names each bucket once. -/
def step (cfg : LimitConfig) (s : State) : Event → Option State
| .admitAll T checks now =>
    if (checks.map Check.key).Nodup then
      some (update s T ((s T).admitAll cfg checks now).2)
    else
      none
| .reconcile r actualTokens =>
    some (update s r.tenant ((s r.tenant).reconcile r actualTokens))

/- The step is a reconcile or a fair call. -/
def fair (cfg : LimitConfig) (s : State) : Event → Bool
| .admitAll T checks now => (s T).fair cfg checks now
| .reconcile _ _ => true

theorem step_balanced {cfg : LimitConfig} {s t : State} {e : Event}
    (hBalanced : AllBalanced cfg s) (hFair : fair cfg s e) (hStep : step cfg s e = some t) :
    AllBalanced cfg t := by
  have hUpdate : ∀ T tb, tb.Balanced cfg → AllBalanced cfg (update s T tb) := by
    intro T tb hTb T'
    by_cases hSame : T' = T
    · subst hSame
      rw [update_self]
      exact hTb
    · rw [update_of_ne hSame]
      exact hBalanced T'
  cases e with
  | admitAll T checks now =>
    simp only [step] at hStep
    split at hStep <;> cases hStep
    rename_i hDistinct
    apply hUpdate
    exact ((TenantBuckets.admit_iff_fair hDistinct (hBalanced T)).mpr hFair).2
  | reconcile r actualTokens =>
    cases hStep
    apply hUpdate
    have hTenant := hBalanced r.tenant
    refine ⟨TenantBuckets.reconcile_counted hTenant.counted, ?_⟩
    rw [TenantBuckets.endUsers_reconcile]
    exact hTenant.bounded

/-
  In every state that fair steps reach, the counter is the number of end-user buckets and within the
  bound, and the next call meets its promises exactly if it is fair.
-/
theorem run_balanced (cfg : LimitConfig) {trace : List Event} {s : State}
    (hRun : Run (fun s e t => fair cfg s e ∧ step cfg s e = some t) (fun _ => {}) trace s) :
    AllBalanced cfg s ∧
      ∀ T checks now, (checks.map Check.key).Nodup →
        (TenantBuckets.AdmitSpec cfg (s T) checks now ∧
            ((s T).admitAll cfg checks now).2.Balanced cfg ↔
          (s T).fair cfg checks now = true) := by
  have hBalanced : AllBalanced cfg s := by
    apply hRun.invariant
    · intro s e t hInv hStep
      exact step_balanced hInv hStep.1 hStep.2
    · intro T
      exact ⟨rfl, Nat.zero_le _⟩
  refine ⟨hBalanced, ?_⟩
  intro T checks now hDistinct
  exact TenantBuckets.admit_iff_fair hDistinct (hBalanced T)

/- One end user may be counted at a time. -/
def oneEndUser : LimitConfig where
  maxEndUsers := 1
  idle := .fromSecs 120

def endUserCheck (hash : Nat) (kind : Kind) : Check where
  key := ⟨.workspace, .endUser hash, kind⟩
  limit := 10
  cost := 1

/-
  An idle end user who now has a token limit too: the new bucket alone is counted, the idle one is
  evicted to fit it, and both are then created.
-/
def overBound : List Event :=
  [.admitAll (.zero 16) [endUserCheck 1 .rpm] 0,
    .admitAll (.zero 16) [endUserCheck 1 .rpm, endUserCheck 1 .tpm] (Duration.fromSecs 120)]

theorem overBound_exceeds :
    ∃ s,
      Run
          (fun s e t => step oneEndUser s e = some t)
          (fun _ => {}) overBound s ∧
        oneEndUser.maxEndUsers < (s (.zero 16)).endUsers :=
  Run.eval (by decide +kernel)

/- A new end user takes the idle one's place. -/
def withinBound : List Event :=
  [.admitAll (.zero 16) [endUserCheck 1 .rpm] 0,
    .admitAll (.zero 16) [endUserCheck 2 .rpm] (Duration.fromSecs 120)]

theorem withinBound_balanced :
    ∃ s,
      Run
          (fun s e t => fair oneEndUser s e ∧ step oneEndUser s e = some t)
          (fun _ => {}) withinBound s ∧
        (s (.zero 16)).endUsers = 1 ∧
        AllBalanced oneEndUser s :=
  Run.exists_and (Run.eval_guard (by decide +kernel)) (fun _ hRun _ =>
    (run_balanced oneEndUser hRun).1)

end Limits

end Tracelane.Gateway
