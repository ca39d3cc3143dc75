import Tracelane.Gateway.Limits
import Tracelane.Lib.HashTable

/-
  The pre-auth throttle: a bucket of tokens per source of key lookups, one more for the wide network
  of an IPv6 source, and one shared bucket for the sources that do not fit the map.

  Buckets count in millitokens.  A refill counts whole microseconds and whole millitokens, and
  leaves its time where it was when that makes nothing.
-/

namespace Tracelane.Gateway

namespace PreAuth

structure AuthThrottlePolicy where
  burst : Nat
  refillPerMinute : Nat
  maxSources : Nat
  ipv6PrefixLen : Nat
  ipv6WidePrefixLen : Nat
  sweepIntervalMs : Nat
deriving DecidableEq

def milliPerToken : Nat := 1000

def AuthThrottlePolicy.burstMilli (policy : AuthThrottlePolicy) : Nat :=
  policy.burst * milliPerToken

--
-- Sources
--

/- An opaque `u128`; the bits past the 64th are a tag. -/
abbrev SourceKey := Nat

def clamp (low high n : Nat) : Nat :=
  max low (min n high)

/-
  The wide network of an IPv6 source.  None for another
  source, or when the wide mask is not the shorter one.
-/
def SourceKey.wide (policy : AuthThrottlePolicy) (key : SourceKey) : Option SourceKey :=
  if key >>> 64 ≠ 6 ∨
      policy.ipv6WidePrefixLen ≥
        clamp 1 64 policy.ipv6PrefixLen then
    none
  else
    let upper := key &&& u64Max
    let mask := u64Max <<< (64 - clamp 1 63 policy.ipv6WidePrefixLen)
    some ((7 <<< 64) ||| (upper &&& mask &&& u64Max))

structure Bucket where
  milli : Nat
  since : Instant
deriving DecidableEq

def Bucket.full (policy : AuthThrottlePolicy) (now : Instant) : Bucket where
  milli := policy.burstMilli
  since := now

section Steps

variable (policy : AuthThrottlePolicy)

/- The millitokens of the time since the last refill. -/
def accrued (b : Bucket) (now : Instant) : Nat :=
  let us := min (saturatingDurationSince now b.since / 1000) u64Max
  min (us * policy.refillPerMinute) u64Max / 60000

def refill (b : Bucket) (now : Instant) : Bucket :=
  let add := accrued policy b now
  if 0 < add then
    { milli := min (min (b.milli + add) u64Max) policy.burstMilli
      since := now }
  else b

/- Take a token, or say in how many seconds to retry. -/
def take (b : Bucket) (now : Instant) :
    Except Nat Unit × Bucket :=
  let b := refill policy b now
  if milliPerToken ≤ b.milli then
    (.ok (), { b with milli := b.milli - milliPerToken })
  else
    let needUs := (milliPerToken - b.milli) * 60000 / max policy.refillPerMinute 1
    (.error (max ((needUs + 999999) / 1000000) 1), b)

/- Put a token back, up to the burst. -/
def putBack (b : Bucket) : Bucket :=
  { b with milli := min (b.milli + milliPerToken) policy.burstMilli }

--
-- The Limiter
--

/- `last_sweep_ms` before the first sweep. -/
def never : Nat := u64Max

structure Inner where
  buckets : HashTable SourceKey Bucket
  overflow : Bucket
  epoch : Instant
  lastSweepMs : Nat

def Inner.new (now : Instant) : Inner where
  buckets := ∅
  overflow := Bucket.full policy now
  epoch := now
  lastSweepMs := never

/- Whether the map has no room for another source. -/
def Inner.isFull (s : Inner) : Bool :=
  policy.maxSources ≤ s.buckets.entries.length

/- Drop the buckets that have refilled. -/
def sweep (s : Inner) (now : Instant) : Inner :=
  { s with
    buckets :=
      HashTable.retain (fun _ b => b.milli < policy.burstMilli)
        (HashTable.mapVal (fun b => refill policy b now) s.buckets) }

/- Milliseconds since the epoch, where a `u64` holds them. -/
def Inner.nowMs (s : Inner) (now : Instant) : Nat :=
  let ms := saturatingDurationSince now s.epoch / 1000000
  if ms ≤ u64Max then ms else never - 1

/- Sweep, at most once an interval. -/
def maybeSweep (s : Inner) (now : Instant) : Inner :=
  let nowMs := s.nowMs now
  if s.lastSweepMs ≠ never ∧
      nowMs - s.lastSweepMs < policy.sweepIntervalMs then
    s
  else sweep policy { s with lastSweepMs := nowMs } now

/- Take one token for a key; true when it came out of the shared bucket because the map was full. -/
def acquireOne (s : Inner) (key : SourceKey) (now : Instant) : Except Nat Bool × Inner :=
  match s.buckets.lookup key with
  | some b =>
      let r := take policy b now
      (r.1.map (fun _ => false), { s with buckets := s.buckets.insert key r.2 })
  | none =>
      let s :=
        if s.isFull policy then maybeSweep policy s now else s
      if s.isFull policy then
        let r := take policy s.overflow now
        (r.1.map (fun _ => true), { s with overflow := r.2 })
      else
        let r := take policy (Bucket.full policy now) now
        (r.1.map (fun _ => false),
          { s with buckets := s.buckets.insert key r.2 })

/- Give one token back to where it was charged. -/
def refundOne (s : Inner) (key : SourceKey) (overflow : Bool) : Inner :=
  if overflow then
    { s with overflow := putBack policy s.overflow }
  else
    match s.buckets.lookup key with
    | some b =>
        { s with buckets := s.buckets.insert key (putBack policy b) }
    | none => s

/- The bits of a reservation. -/
structure Reservation where
  primaryOverflow : Bool
  wideTaken : Bool
  wideOverflow : Bool
deriving DecidableEq

/-
  A token for the source, and one for its wide network.  A
  wide bucket that refuses gives the first token back.
-/
def acquire (s : Inner) (source : SourceKey) (now : Instant) : Except Nat Reservation × Inner :=
  match acquireOne policy s source now with
  | (.error retryAfter, s) => (.error retryAfter, s)
  | (.ok primaryOverflow, s) =>
      match source.wide policy with
      | none => (.ok ⟨primaryOverflow, false, false⟩, s)
      | some wide =>
          match acquireOne policy s wide now with
          | (.ok wideOverflow, s) => (.ok ⟨primaryOverflow, true, wideOverflow⟩, s)
          | (.error retryAfter, s) => (.error retryAfter, refundOne policy s source primaryOverflow)

def refund (s : Inner) (source : SourceKey) (r : Reservation) : Inner :=
  let s := refundOne policy s source r.primaryOverflow
  if r.wideTaken then
    match source.wide policy with
    | some wide => refundOne policy s wide r.wideOverflow
    | none => s
  else s

inductive Call where
| acquire (source : SourceKey)
| refund (source : SourceKey) (r : Reservation)
| sweep
deriving DecidableEq

inductive Answer where
| granted (r : Reservation)
| refused (retryAfter : Nat)
| done
deriving DecidableEq

/- One call of a run, with its time and its answer. -/
structure Event where
  time : Instant
  call : Call
  answer : Answer
deriving DecidableEq

def perform (s : Inner) (now : Instant) : Call → Answer × Inner
| .acquire source =>
    match acquire policy s source now with
    | (.ok r, s) => (.granted r, s)
    | (.error retryAfter, s) => (.refused retryAfter, s)
| .refund source r => (.done, refund policy s source r)
| .sweep => (.done, maybeSweep policy s now)

/- The event is the call, and its answer is what it returns. -/
def step (s : Inner) (e : Event) : Option Inner :=
  let r := perform policy s e.time e.call
  if r.1 = e.answer then some r.2 else none

end Steps

end PreAuth

end Tracelane.Gateway
