import Tracelane.Gateway.Limits

/-
  Reservations that wait for the span of their request, by
  tenant and trace, and a count kept beside them.
-/

namespace Tracelane.Gateway

open List HashTable Option

/- A parked reservation, and its place among all of them. -/
structure Ticket where
  id : Nat
  trace : Uuid
  res : Reservation

abbrev Pending := HashTable (TenantId × Uuid) (List Ticket)

/- `issued` and `gone` only log what was parked and what left. -/
structure Reservations where
  pending : Pending := ∅
  pendingCount : Nat := 0
  issued : List Ticket := []
  gone : List Ticket := []

namespace Reservations

def fresh (ttl : Duration) (now : Instant) (t : Ticket) : Bool :=
  saturatingDurationSince now t.res.atInstant < ttl

def dropped (ttl : Duration) (s : Reservations) (now : Instant) : List Ticket :=
  s.pending.entries.flatMap (fun e => e.2.filter (fun t => !fresh ttl now t))

/- Drop parked reservations older than the TTL. -/
def sweep (ttl : Duration) (s : Reservations) (now : Instant) : Reservations :=
  let dropped := s.dropped ttl now
  { s with
    pending := (s.pending.mapVal (fun v => v.filter (fresh ttl now))).retain (fun _ v => !v.isEmpty)
    pendingCount := s.pendingCount - min dropped.length s.pendingCount
    gone := dropped ++ s.gone }

/- What the next park issues. -/
def ticket (s : Reservations) (trace : Uuid) (r : Reservation) (now : Instant) : Ticket :=
  ⟨s.issued.length, trace, { r with atInstant := now }⟩

/- Park a reservation until its span is recorded. -/
def park (maxPending : Nat) (ttl : Duration) (s : Reservations) (trace : Uuid)
    (r : Reservation) (now : Instant) : Reservations :=
  if r.debits.isEmpty then s
  else
    let s :=
      if maxPending ≤ s.pendingCount then s.sweep ttl now else s
    if maxPending ≤ s.pendingCount then s
    else
      let t := s.ticket trace r now
      let key := (r.tenant, trace)
      { s with
        pending := s.pending.insert key ((s.pending.lookup key).getD [] ++ [t])
        pendingCount := s.pendingCount + 1
        issued := t :: s.issued }

def sameKey (keyId : Option String) (t : Ticket) : Bool :=
  t.res.keyId = keyId

/-
  Where a trace's list holds the one a span belongs to: that
  of its model and end user, or else the key's oldest.
-/
def position (keyId model endUser : Option String) (v : List Ticket) : Option Nat :=
  (v.findIdx? (fun t =>
    sameKey keyId t && model.all (fun m => t.res.model = m) && t.res.endUser = endUser)).or
    (v.findIdx? (sameKey keyId))

/- Take the parked reservation a recorded span belongs to. -/
def take (s : Reservations) (tenant : TenantId) (trace : Uuid)
    (keyId model endUser : Option String) :
    Option Ticket × Reservations :=
  let key := (tenant, trace)
  match s.pending.lookup key with
  | none => (none, s)
  | some v =>
      let idx := position keyId model endUser v
      let out := idx.bind (fun i => v[i]?)
      (out,
        { s with
          pending :=
            HashTable.retain (fun k v => k ≠ key || !v.isEmpty)
              (s.pending.insert key (idx.elim v v.eraseIdx))
          pendingCount := s.pendingCount - out.toList.length
          gone := out.toList ++ s.gone })

--
-- What Is Parked
--

/- A sum over everything that is parked. -/
def tally (f : Ticket → Nat) (pending : Pending) : Nat :=
  pending.weigh (fun _ v => (v.map f).sum)

variable (f : Ticket → Nat) (pending : Pending) (s : Reservations)
variable (v : List Ticket)

theorem tally_retain (keep : TenantId × Uuid → List Ticket → Bool)
    (hKeep : ∀ k v, keep k v = false → v = []) :
    tally f (pending.retain keep) = tally f pending := by
  have hSplit := weigh_retain (fun _ v => (v.map f).sum) keep pending
  have hNone : weigh (fun _ v => (v.map f).sum) (pending.retain (fun k v => !keep k v)) = 0 := by
    refine sum_eq_zero ?_
    simp only [retain, List.mem_map, mem_filter]
    rintro _ ⟨e, ⟨_, hDropped⟩, rfl⟩
    rw [hKeep e.1 e.2 (by simpa using hDropped)]
    rfl
  unfold tally
  omega

theorem tally_sweep (ttl : Duration) (now : Instant) :
    tally f (s.sweep ttl now).pending + ((s.dropped ttl now).map f).sum = tally f s.pending := by
  unfold sweep dropped
  rw [tally_retain f _ _ (fun _ v => by simp)]
  unfold tally weigh mapVal
  simp only [List.map_map]
  induction s.pending.entries with
  | nil => rfl
  | cons e es ih =>
    have hHere :
        ((e.2.filter (fresh ttl now)).map f).sum +
            ((e.2.filter (fun t => !fresh ttl now t)).map f).sum =
          (e.2.map f).sum := by
      rw [← sum_append, ← map_append]
      exact ((filter_append_perm _ e.2).map f).sum_eq
    simp at ih ⊢
    omega

theorem sum_ones :
    (v.map (fun _ => 1)).sum = v.length := by
  simp

theorem sum_eraseIdx (i : Nat) :
    ((v.eraseIdx i).map f).sum + (v[i]?.toList.map f).sum = (v.map f).sum := by
  induction v generalizing i with
  | nil => rfl
  | cons t v ih =>
    cases i with
    | zero => simp [Nat.add_comm]
    | succ i =>
      have hRest := ih i
      simp at hRest ⊢
      omega

theorem sum_taken (idx : Option Nat) :
    ((idx.elim v v.eraseIdx).map f).sum + ((idx.bind (fun i => v[i]?)).toList.map f).sum =
      (v.map f).sum := by
  cases idx with
  | none => rfl
  | some i => exact sum_eraseIdx f v i

theorem tally_insert (key : TenantId × Uuid) :
    tally f (pending.insert key v) + (((pending.lookup key).getD []).map f).sum =
      (v.map f).sum + tally f pending := by
  have hInsert := weigh_insert (fun _ v => (v.map f).sum) pending key v
  cases hHeld : pending.lookup key with
  | none | some _ => simpa [tally, hHeld] using hInsert

--
-- Runs
--

inductive Event where
| park (trace : Uuid) (r : Reservation) (now : Instant)
| take
    (tenant : TenantId) (trace : Uuid)
    (keyId model endUser : Option String)
| sweep (now : Instant)
| reconcile

/- `reconcile` corrects buckets and leaves what is parked. -/
def step (maxPending : Nat) (ttl : Duration) (s : Reservations) : Event → Reservations
| .park trace r now => s.park maxPending ttl trace r now
| .take tenant trace keyId model endUser =>
    (s.take tenant trace keyId model endUser).2
| .sweep now => s.sweep ttl now
| .reconcile => s

/- Each is parked under its own tenant and trace. -/
def Filed (pending : Pending) : Prop :=
  ∀ key v, pending.lookup key = some v → ∀ t ∈ v, (t.res.tenant, t.trace) = key

variable {pending : Pending} {s : Reservations} {v : List Ticket}
variable {maxPending : Nat} {ttl : Duration}

theorem Filed.insert {key : TenantId × Uuid} (hFiled : Filed pending)
    (hHere : ∀ t ∈ v, (t.res.tenant, t.trace) = key) :
    Filed (pending.insert key v) := by
  exact forall_lookup_insert hHere hFiled

/-
  What was issued is parked or gone, each under its tenant and
  trace, and the count is of what is parked.
-/
structure Settled (maxPending : Nat) (s : Reservations) : Prop where
  law : ∀ f, tally f s.pending + (s.gone.map f).sum = (s.issued.map f).sum
  ids : s.issued.map Ticket.id = (List.range s.issued.length).reverse
  counted : s.pendingCount = tally (fun _ => 1) s.pending
  bounded : s.pendingCount ≤ maxPending
  filed : Filed s.pending

section

variable (hSettled : s.Settled maxPending)
include hSettled

theorem Settled.sweep (now : Instant) :
    (s.sweep ttl now).Settled maxPending := by
  refine ⟨fun f => ?_, hSettled.ids, ?_, (Nat.sub_le _ _).trans hSettled.bounded, ?_⟩
  · have hLaw := hSettled.law f
    have hSweep := tally_sweep f s ttl now
    have hGone :
        ((s.sweep ttl now).gone.map f).sum =
          ((s.dropped ttl now).map f).sum + (s.gone.map f).sum := by
      simp [Reservations.sweep]
    change _ = (s.issued.map f).sum
    omega
  · have hSweep := tally_sweep (fun _ => 1) s ttl now
    rw [← hSettled.counted, sum_ones] at hSweep
    change s.pendingCount - min (s.dropped ttl now).length s.pendingCount = _
    omega
  · intro key v hLookup t hMem
    simp only [Reservations.sweep] at hLookup
    rw [lookup_retain, lookup_mapVal, filter_eq_some_iff, map_eq_some_iff] at hLookup
    rcases hLookup with ⟨⟨v', hHeld, rfl⟩, _⟩
    exact hSettled.filed key v' hHeld t (mem_filter.mp hMem).1

theorem Settled.park (trace : Uuid) (r : Reservation) (now : Instant) :
    (s.park maxPending ttl trace r now).Settled maxPending := by
  unfold Reservations.park
  split
  · exact hSettled
  · have hRoom :
        (if maxPending ≤ s.pendingCount then s.sweep ttl now
          else s).Settled maxPending := by
      split
      · exact hSettled.sweep now
      · exact hSettled
    generalize (if maxPending ≤ s.pendingCount then
      s.sweep ttl now else s) = s at hRoom ⊢
    simp only
    split
    · exact hRoom
    · rename_i hBelow
      have hInsert :=
        fun f => tally_insert f s.pending
          ((s.pending.lookup (r.tenant, trace)).getD [] ++ [s.ticket trace r now])
          (r.tenant, trace)
      simp only [map_append, sum_append, map_cons, map_nil, sum_cons, sum_nil] at hInsert
      refine ⟨fun f => ?_, ?_, ?_, ?_, ?_⟩
      · have hLaw := hRoom.law f
        have hHere := hInsert f
        simp only [map_cons, sum_cons]
        omega
      · simp [range_succ, hRoom.ids, ticket]
      · have hHere := hInsert (fun _ => 1)
        have hCounted := hRoom.counted
        simp only
        omega
      · exact Nat.lt_of_not_le hBelow
      · refine hRoom.filed.insert (fun t hMem => ?_)
        cases mem_append.mp hMem with
        | inl hOld =>
          cases hHeld : s.pending.lookup (r.tenant, trace) with
          | none => simp [hHeld] at hOld
          | some v =>
            rw [hHeld] at hOld
            exact hRoom.filed _ v hHeld t hOld
        | inr hNew =>
          cases mem_singleton.mp hNew
          rfl

theorem Settled.take (tenant : TenantId) (trace : Uuid) (keyId model endUser : Option String) :
    (s.take tenant trace keyId model endUser).2.Settled maxPending := by
  unfold Reservations.take
  simp only
  split
  · exact hSettled
  · rename_i v hHeld
    have hTally := fun f =>
      tally_insert f s.pending ((position keyId model endUser v).elim v v.eraseIdx) (tenant, trace)
    rw [hHeld] at hTally
    have hTaken := fun f => sum_taken f v (position keyId model endUser v)
    generalize position keyId model endUser v = idx at hTally hTaken ⊢
    have hRetain := fun f =>
      tally_retain f (s.pending.insert (tenant, trace) (idx.elim v v.eraseIdx))
        (fun k v => k ≠ (tenant, trace) || !v.isEmpty) (fun k v => by simp)
    refine ⟨fun f => ?_, hSettled.ids, ?_, (Nat.sub_le _ _).trans hSettled.bounded, ?_⟩
    · have hLaw := hSettled.law f
      have hHere := hTally f
      have hOut := hTaken f
      simp only [hRetain, map_append, sum_append, getD_some] at hHere ⊢
      omega
    · have hHere := hTally (fun _ => 1)
      have hOut := hTaken (fun _ => 1)
      have hCounted := hSettled.counted
      simp only [hRetain, getD_some, sum_ones] at hHere hOut ⊢
      omega
    · intro key v' hLookup t hMem
      rw [lookup_retain, filter_eq_some_iff] at hLookup
      refine hSettled.filed.insert (fun t hLeft => ?_) key v' hLookup.1 t hMem
      refine hSettled.filed _ v hHeld t ?_
      cases idx with
      | none => exact hLeft
      | some i => exact mem_of_mem_eraseIdx hLeft

theorem Settled.step (event : Event) :
    (s.step maxPending ttl event).Settled maxPending := by
  cases event with
  | park trace r now => exact hSettled.park trace r now
  | take tenant trace keyId model endUser =>
    exact hSettled.take tenant trace keyId model endUser
  | sweep now => exact hSettled.sweep now
  | reconcile => exact hSettled

theorem Settled.foldl (events : List Event) :
    (events.foldl (Reservations.step maxPending ttl) s).Settled maxPending := by
  induction events generalizing s with
  | nil => exact hSettled
  | cons event events ih => exact ih (hSettled.step event)

end

theorem count_id (i : Nat) :
    (v.map Ticket.id).count i =
      (v.map (fun t => if t.id = i then 1 else 0)).sum := by
  induction v with
  | nil => rfl
  | cons t v ih => simp [count_cons, ih, Nat.add_comm]

/- Nothing leaves twice: an id is given out once. -/
theorem Settled.gone_nodup (hSettled : s.Settled maxPending) :
    (s.gone.map Ticket.id).Nodup := by
  have hIssued : (s.issued.map Ticket.id).Nodup := by
    rw [hSettled.ids, nodup_reverse]
    exact nodup_range
  rw [nodup_iff_count_le_one] at hIssued ⊢
  intro i
  have hLaw := hSettled.law (fun t => if t.id = i then 1 else 0)
  have hOnce := hIssued i
  rw [count_id] at hOnce ⊢
  omega

variable {tenant : TenantId} {trace : Uuid}
variable {keyId model endUser : Option String}

theorem ne_of_position_eq_none (hNone : position keyId model endUser v = none) :
    ∀ t ∈ v, t.res.keyId ≠ keyId := by
  intro t hMem
  have hOldest := findIdx?_eq_none_iff.mp (or_eq_none_iff.mp hNone).2 t hMem
  exact of_decide_eq_false hOldest

theorem position_spec {i : Nat} (hFound : position keyId model endUser v = some i) :
    ∃ t ∈ v, v[i]? = some t ∧ t.res.keyId = keyId := by
  have hPick :
      ∀ p : Ticket → Bool, (∀ t, p t → sameKey keyId t) →
        v.findIdx? p = some i → ∃ t ∈ v, v[i]? = some t ∧ t.res.keyId = keyId := by
    intro p hKey hIdx
    rcases findIdx?_eq_some_iff_getElem.mp hIdx with ⟨hBound, hHolds, _⟩
    exact ⟨v[i], getElem_mem hBound, getElem?_eq_getElem hBound, of_decide_eq_true (hKey _ hHolds)⟩
  cases or_eq_some_iff.mp hFound with
  | inl hBest => exact hPick _ (by simp +contextual) hBest
  | inr hOldest => exact hPick _ (by simp) hOldest.2

theorem gone_take :
    (s.take tenant trace keyId model endUser).2.gone =
      (s.take tenant trace keyId model endUser).1.toList ++ s.gone := by
  cases hHeld : s.pending.lookup (tenant, trace) with
  | none | some _ => simp [take, hHeld]

theorem Settled.own_of_take {t : Ticket} (hSettled : s.Settled maxPending)
    (hTaken : (s.take tenant trace keyId model endUser).1 = some t) :
    t.res.tenant = tenant ∧ t.trace = trace ∧ t.res.keyId = keyId := by
  cases hHeld : s.pending.lookup (tenant, trace) with
  | none => simp [Reservations.take, hHeld] at hTaken
  | some v =>
    simp only [Reservations.take, hHeld] at hTaken
    rcases bind_eq_some_iff.mp hTaken with ⟨i, hFound, hIdx⟩
    rcases position_spec hFound with ⟨t', hMem, hIdx', hKey⟩
    cases hIdx.symm.trans hIdx'
    cases hSettled.filed _ v hHeld t hMem
    exact ⟨rfl, rfl, hKey⟩

theorem isSome_take (hHeld : s.pending.lookup (tenant, trace) = some v)
    (hOwn : ∃ t ∈ v, t.res.keyId = keyId) :
    (s.take tenant trace keyId model endUser).1.isSome := by
  rcases hOwn with ⟨t, hMem, hKey⟩
  cases hFound : position keyId model endUser v with
  | none =>
    exact absurd hKey (ne_of_position_eq_none hFound t hMem)
  | some i =>
    rcases position_spec hFound with ⟨t', _, hIdx, _⟩
    simp [take, hHeld, hFound, hIdx]

--
-- What Stays Parked
--

/- The park of a reservation finds room, after a sweep if the table is full. -/
def findsRoom (maxPending : Nat) (ttl : Duration) (s : Reservations) (r : Reservation)
    (now : Instant) : Bool :=
  !r.debits.isEmpty &&
    (s.pendingCount < maxPending || (s.sweep ttl now).pendingCount < maxPending)

/- The call takes the ticket, or sweeps it at an instant past its TTL. -/
def leaves (maxPending : Nat) (ttl : Duration) (s : Reservations) (t : Ticket) : Event → Prop
| .park _ _ now => maxPending ≤ s.pendingCount ∧ fresh ttl now t = false
| .take tenant trace keyId model endUser =>
    (s.take tenant trace keyId model endUser).1 = some t
| .sweep now => fresh ttl now t = false
| .reconcile => False

/- The ticket is in the list of its tenant and trace. -/
def Held (pending : Pending) (t : Ticket) : Prop :=
  ∃ v, pending.lookup (t.res.tenant, t.trace) = some v ∧ t ∈ v

variable {t : Ticket}

variable {now : Instant}

theorem Held.sweep (hHeld : Held s.pending t) (hFresh : fresh ttl now t = true) :
    Held (s.sweep ttl now).pending t := by
  rcases hHeld with ⟨v, hLookup, hMem⟩
  have hLeft : t ∈ v.filter (fresh ttl now) := mem_filter.mpr ⟨hMem, hFresh⟩
  refine ⟨_, ?_, hLeft⟩
  simp only [Reservations.sweep, lookup_retain, lookup_mapVal, hLookup, Option.map_some]
  exact filter_eq_some_iff.mpr ⟨rfl, by simpa using ne_nil_of_mem hLeft⟩

theorem held_insert {key : TenantId × Uuid} (hHeld : Held pending t)
    (hHere : (t.res.tenant, t.trace) = key → t ∈ v) :
    Held (pending.insert key v) t := by
  by_cases hSame : (t.res.tenant, t.trace) = key
  · exact ⟨v, by rw [hSame, AList.lookup_insert], hHere hSame⟩
  · rcases hHeld with ⟨v', hLookup, hMem⟩
    exact ⟨v', by rw [AList.lookup_insert_ne hSame, hLookup], hMem⟩

section

variable (hHeld : Held s.pending t)
include hHeld

theorem Held.park (trace : Uuid) (r : Reservation)
    (hStays : ¬ leaves maxPending ttl s t (.park trace r now)) :
    Held (s.park maxPending ttl trace r now).pending t := by
  unfold Reservations.park
  split
  · exact hHeld
  · have hRoom :
        Held (if maxPending ≤ s.pendingCount then s.sweep ttl now else s).pending t := by
      split
      · rename_i hFull
        exact hHeld.sweep (by simpa [leaves, hFull] using hStays)
      · exact hHeld
    generalize (if maxPending ≤ s.pendingCount then
      s.sweep ttl now else s) = s at hRoom ⊢
    simp only
    split
    · exact hRoom
    · refine held_insert hRoom (fun hSame => mem_append_left _ ?_)
      rcases hRoom with ⟨v, hLookup, hMem⟩
      rw [← hSame, hLookup]
      exact hMem

theorem Held.take (hStays : (s.take tenant trace keyId model endUser).1 ≠ some t) :
    Held (s.take tenant trace keyId model endUser).2.pending t := by
  unfold Reservations.take at hStays ⊢
  simp only at hStays ⊢
  split
  · exact hHeld
  · rename_i v hLookup
    rw [hLookup] at hStays
    have hLeft : (t.res.tenant, t.trace) = (tenant, trace) →
        t ∈ (position keyId model endUser v).elim v v.eraseIdx := by
      intro hSame
      rcases hHeld with ⟨v', hLookup', hMem⟩
      rw [hSame, hLookup] at hLookup'
      cases hLookup'
      cases hFound : position keyId model endUser v with
      | none => exact hMem
      | some i =>
        rcases getElem?_of_mem hMem with ⟨j, hAt⟩
        refine mem_eraseIdx_iff_getElem?.mpr ⟨j, ?_, hAt⟩
        rintro rfl
        exact hStays (by simp [hFound, hAt])
    rcases held_insert hHeld hLeft with ⟨v', hLookup', hMem⟩
    refine ⟨v', ?_, hMem⟩
    rw [lookup_retain, hLookup']
    exact filter_eq_some_iff.mpr ⟨rfl, by simp [ne_nil_of_mem hMem]⟩

/- One call keeps a ticket in its place or is the one it leaves by. -/
theorem Held.step {event : Event} (hStays : ¬ leaves maxPending ttl s t event) :
    Held (s.step maxPending ttl event).pending t := by
  cases event with
  | park trace r now => exact hHeld.park trace r hStays
  | take tenant trace keyId model endUser => exact hHeld.take hStays
  | sweep now => exact hHeld.sweep (by simpa [leaves] using hStays)
  | reconcile => exact hHeld

theorem Held.foldl (events : List Event) :
    Held (events.foldl (Reservations.step maxPending ttl) s).pending t ∨
      ∃ mid event rest, events = mid ++ event :: rest ∧
        leaves maxPending ttl (mid.foldl (Reservations.step maxPending ttl) s) t event := by
  induction events generalizing s with
  | nil => exact .inl hHeld
  | cons event events ih =>
    by_cases hLeaves : leaves maxPending ttl s t event
    · exact .inr ⟨[], event, events, rfl, hLeaves⟩
    · refine (ih (hHeld.step hLeaves)).imp_right ?_
      rintro ⟨mid, later, rest, rfl, hLater⟩
      exact ⟨event :: mid, later, rest, rfl, hLater⟩

end

theorem held_park {r : Reservation} (hRoom : findsRoom maxPending ttl s r now) :
    Held (s.park maxPending ttl trace r now).pending (s.ticket trace r now) := by
  simp only [findsRoom, Bool.and_eq_true, Bool.or_eq_true, decide_eq_true_eq,
    Bool.not_eq_true'] at hRoom
  have hBelow :
      (if maxPending ≤ s.pendingCount then s.sweep ttl now else s).pendingCount < maxPending := by
    split
    · exact hRoom.2.resolve_left (by omega)
    · omega
  have hTicket :
      (if maxPending ≤ s.pendingCount then s.sweep ttl now else s).ticket trace r now =
        s.ticket trace r now := by
    split <;> rfl
  unfold park
  rw [hRoom.1, if_neg Bool.false_ne_true]
  simp only
  rw [if_neg (by omega), hTicket]
  exact ⟨_, AList.lookup_insert _, mem_append_right _ (mem_singleton_self _)⟩

/-
  After any calls the count is of what is parked and within its bound, none of it has left twice,
  and a span takes one of its own tenant, trace and key whenever there is one.  A reservation whose
  park finds room is there for its key's span until a take returns it or a sweep past its TTL.
-/
theorem run_settled (maxPending : Nat) (ttl : Duration) (events : List Event) :
    let s := events.foldl (step maxPending ttl) {}
    s.pendingCount = (s.pending.entries.map (fun e => e.2.length)).sum ∧
      s.pendingCount ≤ maxPending ∧
      (s.gone.map Ticket.id).Nodup ∧
      (∀ tenant trace keyId model endUser,
        (∀ t,
          (s.take tenant trace keyId model endUser).1 = some t →
            t.res.tenant = tenant ∧ t.trace = trace ∧
              t.res.keyId = keyId ∧
              t.id ∉ s.gone.map Ticket.id) ∧
        ∀ v, s.pending.lookup (tenant, trace) = some v →
          (∃ t ∈ v, t.res.keyId = keyId) → (s.take tenant trace keyId model endUser).1.isSome) ∧
      ∀ before trace r now after, events = before ++ .park trace r now :: after →
        let parking := before.foldl (step maxPending ttl) {}
        findsRoom maxPending ttl parking r now →
          (∀ model endUser, (s.take r.tenant trace r.keyId model endUser).1.isSome) ∨
            ∃ mid event rest, after = mid ++ event :: rest ∧
              leaves maxPending ttl
                (mid.foldl (step maxPending ttl) (parking.park maxPending ttl trace r now))
                (parking.ticket trace r now) event := by
  have hSettled : (events.foldl (step maxPending ttl) {}).Settled maxPending := by
    refine Settled.foldl ?_ events
    exact ⟨fun _ => rfl, rfl, rfl, Nat.zero_le _, by
      intro key v hLookup
      simp at hLookup⟩
  intro s
  refine ⟨?_, hSettled.bounded, hSettled.gone_nodup,
    fun tenant trace keyId model endUser => ⟨?_, ?_⟩, ?_⟩
  · rw [hSettled.counted]
    simp only [tally, weigh, sum_ones]
    rfl
  · intro t hTaken
    rcases hSettled.own_of_take hTaken with ⟨hTenant, hTrace, hKey⟩
    refine ⟨hTenant, hTrace, hKey, ?_⟩
    have hNext := (hSettled.take tenant trace keyId model endUser).gone_nodup
    rw [gone_take, hTaken] at hNext
    exact (nodup_cons.mp hNext).1
  · intro v hHeld hOwn
    exact isSome_take hHeld hOwn
  · intro before trace r now after hEvents parking hRoom
    have hEnd :
        s = after.foldl (step maxPending ttl) (parking.park maxPending ttl trace r now) := by
      simp only [s, hEvents, foldl_append]
      rfl
    refine (Held.foldl (held_park hRoom) after).imp_left (fun hHeld model endUser => ?_)
    rcases hHeld with ⟨v, hLookup, hMem⟩
    rw [hEnd]
    exact isSome_take hLookup ⟨_, hMem, rfl⟩

/- A reservation of the key, for a model and no end user. -/
def sampleReservation (keyId : String) : Reservation where
  tenant := .zero 16
  debits := [(⟨.workspace, .all, .tpm⟩, 5)]
  keyId := some keyId
  model := "m"
  endUser := none
  atInstant := 0

/- Two keys in one trace: the first one's span is recorded, and a sweep comes before the TTL. -/
def twoKeys : List Event :=
  [.park (.zero 16) (sampleReservation "a") 0,
    .take (.zero 16) (.zero 16) (some "a") none none,
    .park (.zero 16) (sampleReservation "b") 1,
    .sweep 2]

theorem twoKeys_settled :
    let s := twoKeys.foldl (step 2 10) {}
    s.pendingCount = 1 ∧
      s.gone.length = 1 ∧
      (s.take (.zero 16) (.zero 16) (some "a") none none).1.isNone ∧
      (s.take (.zero 16) (.zero 16) (some "b") (some "n") none).1.isSome := by
  refine ⟨by decide, by decide, by decide, ?_⟩
  rcases (run_settled 2 10 twoKeys).2.2.2.2 [_, _] _ _ _ _ rfl (by decide) with hTaken | hLeft
  · exact hTaken (some "n") none
  · rcases hLeft with ⟨mid, event, rest, hSplit, hLeaves⟩
    cases mid with
    | nil =>
      cases hSplit
      exact absurd (show fresh 10 2 _ = false from hLeaves) (by decide)
    | cons _ _ => simp at hSplit

end Reservations

end Tracelane.Gateway
