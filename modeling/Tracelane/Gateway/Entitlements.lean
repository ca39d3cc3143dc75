import Tracelane.Lib.Run

/-
  The entitlement cache of `entitlement_cache.rs`, as one tenant sees it.

  Everything the cache keeps is kept by tenant.  Other tenants are met only in the lock, which they
  may hold, and in the size of the map of tickets, which a step takes as it finds it.  A step is
  what a call does between two points at which another call may read or write; the maps are read
  without the lock.

  An epoch counts the invalidations completed so far.  Tickets and calls carry the epoch they were
  made in, which the code neither stores nor reads.
-/

namespace Tracelane.Gateway

namespace Entitlements

--
-- Answers
--

/-
  `RoutingState::Invalid` is the absent routing, and
  `LayerPolicy::Invalid` the absent policy of a layer.
-/
structure ResolvedEntitlements (γ ρ π : Type) where
  grants : γ
  routing : Option ρ
  policy : Option (Option π)
deriving DecidableEq

variable {γ ρ π V : Type}

/- What `unavailable` makes of the grants it starts from. -/
def refuse (r : ResolvedEntitlements γ ρ π) :
    ResolvedEntitlements γ ρ π :=
  { r with routing := none, policy := some none }

def ResolvedEntitlements.Refuses (r : ResolvedEntitlements γ ρ π) : Prop :=
  r.routing = none ∧ r.policy = some none

/- The ticket of a resolve, and the epoch it started in. -/
structure Ticket where
  number : Nat
  epoch : Nat
deriving DecidableEq

/- A published answer.  Its allocation is that of its resolve. -/
structure Entry (V : Type) where
  ticket : Ticket
  value : V
deriving DecidableEq

/-
  What a call returned: the epochs it began and ended in, and
  the resolve the answer comes from, if it was published.
-/
structure Answer (V : Type) where
  since : Nat
  upon : Nat
  source : Option Ticket
  value : V
deriving DecidableEq

/- What `is_current` said of an answer. -/
structure Judgement (V : Type) where
  since : Nat
  answer : Answer V
  current : Bool
deriving DecidableEq

--
-- Calls
--

/-
  Where a call stands.  `reading` to `unforced` are the reads of `resolved_traced`, the next three
  `resolve_and_store`, and the last two the reads of `is_current`.
-/
inductive Stage (V : Type)
| reading
| missed
| unforced
| entering
| resolving (t : Ticket)
| resolved (t : Ticket) (result : Option V)
| judging (a : Answer V)
| judgingKnown (a : Answer V)
deriving DecidableEq

def Stage.holds (t : Ticket) : Stage V → Bool
| .resolving t'
| .resolved t' _ => t' == t
| _ => false

structure Call (V : Type) where
  since : Nat
  background : Bool := false
  stage : Stage V := .reading
deriving DecidableEq

/- How far a publication under the lock has come. -/
inductive Publishing
| inserting
| cached
| known
deriving DecidableEq

/- Who holds the lock. -/
inductive Lock (V : Type)
| free
| publishing (since : Nat) (e : Entry V) (stage : Publishing)
| invalidating (all fenced : Bool)
deriving DecidableEq

/-
  The shared maps at one tenant.  The two logs are the order
  in which resolves were written to the maps.
-/
structure Store (V : Type) where
  cache : Option (Entry V) := none
  lastKnown : Option (Entry V) := none
  forced : Bool := false
  pending : Option Ticket := none
  lock : Lock V := .free
  next : Nat := 0
  epoch : Nat := 0
  cacheLog : List Nat := []
  knownLog : List Nat := []
deriving DecidableEq

structure Tenant (V : Type) where
  store : Store V := {}
  calls : List (Call V) := []
  answers : List (Answer V) := []
  judgements : List (Judgement V) := []
deriving DecidableEq

namespace Tenant

variable (denyAll : V) (refusing : V → V)

def unavailable (s : Tenant V) : V :=
  refusing ((s.store.lastKnown.map Entry.value).getD denyAll)

def become (s : Tenant V) (i : Nat) (c : Call V) (stage : Stage V) : Tenant V :=
  { s with calls := s.calls.set i { c with stage } }

def reply (s : Tenant V) (i : Nat) (c : Call V) (source : Option Ticket) (value : V) : Tenant V :=
  { s with
      calls := s.calls.eraseIdx i
      answers :=
        s.answers ++ [⟨c.since, s.store.epoch, source, value⟩] }

def replyEntry (s : Tenant V) (i : Nat) (c : Call V) (e : Entry V) : Tenant V :=
  s.reply i c (some e.ticket) e.value

def replyUnavailable (s : Tenant V) (i : Nat) (c : Call V) : Tenant V :=
  s.reply i c none (s.unavailable denyAll refusing)

def judge (s : Tenant V) (i : Nat) (c : Call V) (a : Answer V) (current : Bool) : Tenant V :=
  { s with
      calls := s.calls.eraseIdx i
      judgements := s.judgements ++ [⟨c.since, a, current⟩] }

def spawnRefresh (s : Tenant V) : Tenant V :=
  { s with calls := s.calls ++ [⟨s.store.epoch, true, .entering⟩] }

/- What a step meets outside of the tenant's own state. -/
structure Met (V : Type) where
  aged : Bool := false
  crowded : Bool := false
  full : Bool := false
  result : Option V := none
deriving DecidableEq

/- A ticket is alive while the call that made it is. -/
def alive (s : Tenant V) : Bool :=
  s.store.pending.any (fun t => s.calls.any (fun c => c.stage.holds t))

/- A crowded map of tickets gives up the dead ones. -/
def retained (s : Tenant V) (x : Met V) : Option Ticket :=
  if x.crowded && !s.alive then none else s.store.pending

/- The first part of `resolve_and_store`, under the lock. -/
def enter (s : Tenant V) (i : Nat) (c : Call V) (x : Met V) : Tenant V :=
  if c.background && s.alive then
    s.replyUnavailable denyAll refusing i c
  else if x.crowded && x.full && (s.retained x).isNone then
    { s.replyUnavailable denyAll refusing i c with
      store := { s.store with pending := s.retained x } }
  else
    let t : Ticket := ⟨s.store.next, s.store.epoch⟩
    { s.become i c (.resolving t) with
      store :=
        { s.store with
            pending := some t
            next := s.store.next + 1 } }

/- The second part, once the resolve is over.  The lock is kept for a publication only. -/
def settle (s : Tenant V) (i : Nat) (c : Call V) (t : Ticket) (result : Option V) : Tenant V :=
  if s.store.pending = some t then
    match result with
    | some v =>
        { s with
            store :=
              { s.store with
                  pending := none
                  lock := .publishing c.since ⟨t, v⟩ .inserting }
            calls := s.calls.eraseIdx i }
    | none =>
        { s.replyUnavailable denyAll refusing i c with
          store := { s.store with pending := none } }
  else
    match s.store.forced, s.store.lastKnown with
    | false, some e => s.replyEntry i c e
    | _, _ => s.replyUnavailable denyAll refusing i c

def advance (s : Tenant V) (i : Nat) (c : Call V) (x : Met V) : Option (Tenant V) :=
  match c.stage with
  | .reading =>
      match s.store.cache with
      | some e =>
          let s := s.replyEntry i c e
          some (if x.aged then s.spawnRefresh else s)
      | none => some (s.become i c .missed)
  | .missed =>
      some (s.become i c (if s.store.forced then .entering else .unforced))
  | .unforced =>
      match s.store.lastKnown with
      | some e => some (s.replyEntry i c e).spawnRefresh
      | none => some (s.become i c .entering)
  | .entering =>
      match s.store.lock with
      | .free => some (s.enter denyAll refusing i c x)
      | _ => none
  | .resolving t => some (s.become i c (.resolved t x.result))
  | .resolved t result =>
      match s.store.lock with
      | .free => some (s.settle denyAll refusing i c t result)
      | _ => none
  | .judging a =>
      some (if s.store.forced then s.judge i c a false
        else s.become i c (.judgingKnown a))
  | .judgingKnown a =>
      some (s.judge i c a (s.store.lastKnown.any (fun e => a.source == some e.ticket)))

end Tenant

--
-- Steps
--

namespace Store

/-
  What the holder of the lock does next.  Nothing is awaited between the last two writes of a
  publication, and an invalidation of all tenants awaits nothing.
-/
def hold (s : Store V) : Option (Store V) :=
  match s.lock with
  | .publishing since e .inserting =>
      some { s with
        cache := some e
        cacheLog := s.cacheLog ++ [e.ticket.number]
        lock := .publishing since e .cached }
  | .publishing since e .cached =>
      some { s with
        lastKnown := some e
        knownLog := s.knownLog ++ [e.ticket.number]
        lock := .publishing since e .known }
  | .invalidating all false =>
      some { s with
        forced := !all || s.forced || s.lastKnown.isSome
        lock := .invalidating all true }
  | .invalidating _ true =>
      some { s with cache := none, epoch := s.epoch + 1, lock := .free }
  | _ => none

def invalidate (s : Store V) (all : Bool) : Option (Store V) :=
  match s.lock with
  | .free =>
      some { s with
        forced := s.forced || (all && s.pending.isSome)
        pending := none
        lock := .invalidating all false }
  | _ => none

/- The holder is cancelled while it waits for the cache, which may have done its part already. -/
def abandon (s : Store V) (evicted : Bool) : Option (Store V) :=
  match s.lock with
  | .publishing _ _ .inserting
  | .publishing _ _ .cached => some { s with lock := .free }
  | .invalidating false true =>
      some { s with
        cache := if evicted then none else s.cache
        lock := .free }
  | _ => none

end Store

inductive Event (V : Type)
| call
| judge (n : Nat)
| advance (i : Nat) (x : Tenant.Met V)
| cancel (i : Nat)
| invalidate (all : Bool)
| hold
| publish
| abandon (evicted : Bool)
| evict
deriving DecidableEq

/- The end of a publication, which answers its call. -/
def publish (s : Tenant V) : Option (Tenant V) :=
  match s.store.lock with
  | .publishing since e .known =>
      some { s with
        store := { s.store with forced := false, lock := .free }
        answers :=
          s.answers ++ [⟨since, s.store.epoch, some e.ticket, e.value⟩] }
  | _ => none

variable (denyAll : V) (refusing : V → V)

/- The cache may drop an entry at any time. -/
def step (s : Tenant V) : Event V → Option (Tenant V)
| .call =>
    some { s with calls := s.calls ++ [{ since := s.store.epoch }] }
| .judge n => do
    let a ← s.answers[n]?
    some { s with calls := s.calls ++ [{ since := s.store.epoch, stage := .judging a }] }
| .advance i x => do
    let c ← s.calls[i]?
    s.advance denyAll refusing i c x
| .cancel i => some { s with calls := s.calls.eraseIdx i }
| .invalidate all => do
    some { s with store := ← s.store.invalidate all }
| .hold => do some { s with store := ← s.store.hold }
| .publish => publish s
| .abandon evicted => do
    some { s with store := ← s.store.abandon evicted }
| .evict =>
    some { s with store := { s.store with cache := none } }

end Entitlements

end Tracelane.Gateway
