import Mathlib.Algebra.Order.Group.Nat
import Tracelane.Gateway.Entitlements

/-
  The fence an invalidation of the entitlement cache puts up.

  What the maps hold outside of the forced set comes from a resolve of the present epoch, since a
  ticket of an earlier one has lost its place among the pending tickets.
-/

namespace Tracelane.Gateway

namespace Entitlements

open Transition (Run Everywhere stepAt stepAt_keeps)
open Option

variable {V : Type}

--
-- The Maps
--

namespace Store

/- What the holder of the lock relies on. -/
def LockOk (s : Store V) : Prop :=
  match s.lock with
  | .free => True
  | .publishing since e stage =>
      s.pending = none ∧ since ≤ e.ticket.epoch ∧
        e.ticket.epoch = s.epoch ∧ e.ticket.number < s.next ∧
        match stage with
        | .inserting =>
            (∀ m ∈ s.cacheLog, m < e.ticket.number) ∧ ∀ m ∈ s.knownLog, m < e.ticket.number
        | .cached => ∀ m ∈ s.knownLog, m < e.ticket.number
        | .known => s.lastKnown = some e
  | .invalidating _ fenced =>
      s.pending = none ∧ (fenced = true → s.forced = true ∨ s.lastKnown = none)

structure Ok (s : Store V) : Prop where
  cache : ∀ e ∈ s.cache, e.ticket.epoch = s.epoch
  known : ∀ e ∈ s.lastKnown, e.ticket.epoch ≤ s.epoch
  unforced : s.forced = false → ∀ e ∈ s.lastKnown, e.ticket.epoch = s.epoch
  pending :
    ∀ t ∈ s.pending, t.epoch = s.epoch ∧ t.number < s.next ∧
      (∀ m ∈ s.cacheLog, m < t.number) ∧
      ∀ m ∈ s.knownLog, m < t.number
  cacheLog : s.cacheLog.Pairwise (· < ·)
  knownLog : s.knownLog.Pairwise (· < ·)
  cacheNext : ∀ m ∈ s.cacheLog, m < s.next
  knownNext : ∀ m ∈ s.knownLog, m < s.next
  lock : s.LockOk

/- What is known later is what was known, or of this epoch. -/
structure Later (s s' : Store V) : Prop where
  epoch : s.epoch ≤ s'.epoch
  known : ∀ e ∈ s'.lastKnown, e ∈ s.lastKnown ∨ s.epoch ≤ e.ticket.epoch

variable {s s' : Store V}

theorem Later.same (hEpoch : s'.epoch = s.epoch) (hKnown : s'.lastKnown = s.lastKnown) :
    Later s s' :=
  ⟨hEpoch.ge, fun _ hLast => .inl (hKnown ▸ hLast)⟩

theorem pairwise_snoc {ms : List Nat} {n : Nat} (hSorted : ms.Pairwise (· < ·))
    (hLess : ∀ m ∈ ms, m < n) :
    (ms ++ [n]).Pairwise (· < ·) :=
  List.pairwise_append.mpr
    ⟨hSorted, List.pairwise_singleton _ _, fun m hMem _ hLast =>
      List.mem_singleton.mp hLast ▸ hLess m hMem⟩

theorem snoc_lt {ms : List Nat} {n k : Nat} (hLess : ∀ m ∈ ms, m < k) (hLast : n < k) :
    ∀ m ∈ ms ++ [n], m < k := by
  simpa [or_imp, forall_and] using And.intro hLess hLast

theorem hold_ok (hOk : s.Ok) (hHold : s.hold = some s') :
    s'.Ok ∧ Later s s' := by
  have hLock := hOk.lock
  unfold hold at hHold
  unfold LockOk at hLock
  split at hHold
  · rename_i since e hHolder
    cases hHold
    simp only [hHolder] at hLock
    rcases hLock with ⟨hNone, hSince, hEpoch, hNext, hCache, hKnown⟩
    refine ⟨⟨?_, hOk.known, hOk.unforced, ?_, pairwise_snoc hOk.cacheLog hCache, hOk.knownLog,
      snoc_lt hOk.cacheNext hNext, hOk.knownNext, ?_⟩, Later.same rfl rfl⟩
    · rintro e' ⟨⟩
      exact hEpoch
    · simp [hNone]
    · exact ⟨hNone, hSince, hEpoch, hNext, hKnown⟩
  · rename_i since e hHolder
    cases hHold
    simp only [hHolder] at hLock
    rcases hLock with ⟨hNone, hSince, hEpoch, hNext, hKnown⟩
    refine ⟨⟨hOk.cache, ?_, ?_, ?_, hOk.cacheLog, pairwise_snoc hOk.knownLog hKnown, hOk.cacheNext,
      snoc_lt hOk.knownNext hNext, ?_⟩, le_rfl, ?_⟩
    · rintro e' ⟨⟩
      exact hEpoch.le
    · rintro _ e' ⟨⟩
      exact hEpoch
    · simp [hNone]
    · exact ⟨hNone, hSince, hEpoch, hNext, rfl⟩
    · rintro e' ⟨⟩
      exact .inr hEpoch.ge
  · rename_i all hHolder
    cases hHold
    simp only [hHolder] at hLock
    refine ⟨{ hOk with unforced := ?_, lock := ⟨hLock.1, ?_⟩ }, Later.same rfl rfl⟩
    · intro hForced
      simp only [Bool.or_eq_false_iff] at hForced
      exact hOk.unforced hForced.1.2
    · intro _
      cases s.lastKnown with
      | none => exact .inr rfl
      | some e => exact .inl (by simp)
  · rename_i all hHolder
    cases hHold
    simp only [hHolder] at hLock
    refine ⟨{ hOk with
      cache := nofun
      known := fun e hKnown => Nat.le_succ_of_le (hOk.known e hKnown)
      unforced := ?_
      pending := ?_
      lock := trivial }, Nat.le_succ _, fun e hKnown => .inl hKnown⟩
    · intro hForced e hKnown
      rcases hLock.2 trivial with hSet | hNone
      · rw [hSet] at hForced
        cases hForced
      · rw [hNone] at hKnown
        cases hKnown
    · simp [hLock.1]
  · cases hHold

theorem invalidate_ok {all : Bool} (hOk : s.Ok) (hInvalidate : s.invalidate all = some s') :
    s'.Ok ∧ Later s s' := by
  unfold invalidate at hInvalidate
  split at hInvalidate <;> cases hInvalidate
  refine ⟨{ hOk with unforced := ?_, pending := nofun, lock := ⟨rfl, nofun⟩ }, Later.same rfl rfl⟩
  intro hForced
  simp only [Bool.or_eq_false_iff] at hForced
  exact hOk.unforced hForced.1

theorem abandon_ok {evicted : Bool} (hOk : s.Ok) (hAbandon : s.abandon evicted = some s') :
    s'.Ok ∧ Later s s' := by
  have hFreed : Ok { s with lock := .free } := { hOk with lock := trivial }
  unfold abandon at hAbandon
  split at hAbandon
  · cases hAbandon
    exact ⟨hFreed, Later.same rfl rfl⟩
  · cases hAbandon
    exact ⟨hFreed, Later.same rfl rfl⟩
  · cases hAbandon
    refine ⟨{ hOk with cache := ?_, lock := trivial }, Later.same rfl rfl⟩
    dsimp only
    split
    · exact nofun
    · exact hOk.cache
  · cases hAbandon

end Store

--
-- Calls and Answers
--

variable (denyAll : V) (refusing : V → V)

/- A refusal, or a resolve as late as the call's own epoch. -/
def Answer.Ok (a : Answer V) : Prop :=
  match a.source with
  | some t => a.since ≤ t.epoch ∧ t.epoch ≤ a.upon
  | none => ∃ v, a.value = refusing v

def Judgement.Ok (j : Judgement V) : Prop :=
  j.answer.upon < j.since → j.current = false

def Call.Ok (s : Store V) (c : Call V) : Prop :=
  c.since ≤ s.epoch ∧
    match c.stage with
    | .unforced => ∀ e ∈ s.lastKnown, c.since ≤ e.ticket.epoch
    | .resolving t
    | .resolved t _ => c.since ≤ t.epoch
    | .judging a => a.Ok refusing
    | .judgingKnown a => a.Ok refusing ∧ ∀ e ∈ s.lastKnown, c.since ≤ e.ticket.epoch
    | _ => True

structure Tenant.Ok (s : Tenant V) : Prop where
  store : s.store.Ok
  calls : ∀ c ∈ s.calls, c.Ok refusing s.store
  answers : ∀ a ∈ s.answers, a.Ok refusing
  judgements : ∀ j ∈ s.judgements, j.Ok

variable {denyAll : V} {refusing : V → V} {s s' : Tenant V}
variable {i : Nat} {c : Call V}

theorem Call.Ok.later {s s' : Store V} (hOk : c.Ok refusing s) (hLater : s.Later s') :
    c.Ok refusing s' := by
  rcases hOk with ⟨hSince, hStage⟩
  have hStill :
      (∀ e ∈ s.lastKnown, c.since ≤ e.ticket.epoch) →
        ∀ e ∈ s'.lastKnown, c.since ≤ e.ticket.epoch := by
    intro hKnown e hLast
    rcases hLater.known e hLast with hOld | hNew
    · exact hKnown e hOld
    · exact hSince.trans hNew
  refine ⟨hSince.trans hLater.epoch, ?_⟩
  split at hStage <;> simp_all

namespace Tenant.Ok

section

variable (hOk : s.Ok refusing)
include hOk

/- The maps move on and the calls stay. -/
theorem moved {t : Store V} (hStore : t.Ok ∧ s.store.Later t) :
    Tenant.Ok refusing { s with store := t } :=
  ⟨hStore.1, fun c hCall => (hOk.calls c hCall).later hStore.2, hOk.answers, hOk.judgements⟩

theorem spawned (hCall : c.Ok refusing s.store) :
    Tenant.Ok refusing { s with calls := s.calls ++ [c] } := by
  refine { hOk with calls := ?_ }
  simpa [or_imp, forall_and] using And.intro hOk.calls hCall

theorem dropped (i : Nat) :
    Tenant.Ok refusing { s with calls := s.calls.eraseIdx i } :=
  { hOk with calls := fun c hCall => hOk.calls c (List.mem_of_mem_eraseIdx hCall) }

theorem became {stage : Stage V} (hStage : Call.Ok refusing s.store { c with stage }) :
    (s.become i c stage).Ok refusing := by
  refine { hOk with calls := ?_ }
  intro c' hCall
  rcases List.mem_or_eq_of_mem_set hCall with hOld | rfl
  · exact hOk.calls c' hOld
  · exact hStage

theorem replied {source : Option Ticket} {value : V}
    (hAnswer : Answer.Ok refusing ⟨c.since, s.store.epoch, source, value⟩) :
    (s.reply i c source value).Ok refusing := by
  refine ⟨hOk.store, (hOk.dropped i).calls, ?_, hOk.judgements⟩
  simpa [reply, or_imp, forall_and] using And.intro hOk.answers hAnswer

theorem unavailable :
    (s.replyUnavailable denyAll refusing i c).Ok refusing :=
  hOk.replied ⟨_, rfl⟩

theorem entry {e : Entry V} (hSince : c.since ≤ e.ticket.epoch)
    (hPast : e.ticket.epoch ≤ s.store.epoch) :
    (s.replyEntry i c e).Ok refusing :=
  hOk.replied ⟨hSince, hPast⟩

theorem judged {a : Answer V} {current : Bool} (hJudgement : Judgement.Ok ⟨c.since, a, current⟩) :
    (s.judge i c a current).Ok refusing := by
  refine ⟨hOk.store, (hOk.dropped i).calls, hOk.answers, ?_⟩
  simpa [judge, or_imp, forall_and] using And.intro hOk.judgements hJudgement

end

end Tenant.Ok

--
-- Steps
--

open Tenant

section

variable (hOk : s.Ok refusing)
include hOk

theorem enter_ok {x : Met V} (hCall : c.Ok refusing s.store) (hFree : s.store.lock = .free) :
    (s.enter denyAll refusing i c x).Ok refusing := by
  have hStore := hOk.store
  unfold enter
  split
  · exact hOk.unavailable
  · split_ifs with hFull
    · refine hOk.unavailable.moved ⟨{ hStore with pending := ?_, lock := ?_ }, .same rfl rfl⟩
      · intro t hPending
        simp only [Bool.and_eq_true, isNone_iff_eq_none] at hFull
        rw [hFull.2] at hPending
        cases hPending
      · simp [Store.LockOk, hFree]
    · have hBecame : (s.become i c (.resolving ⟨s.store.next, s.store.epoch⟩)).Ok refusing :=
        hOk.became ⟨hCall.1, hCall.1⟩
      refine hBecame.moved ⟨{ hStore with
        pending := ?_, cacheNext := ?_, knownNext := ?_, lock := ?_ }, .same rfl rfl⟩
      · rintro t' ⟨⟩
        exact ⟨rfl, Nat.lt_succ_self _, hStore.cacheNext, hStore.knownNext⟩
      · exact fun m hMem => Nat.lt_succ_of_lt (hStore.cacheNext m hMem)
      · exact fun m hMem => Nat.lt_succ_of_lt (hStore.knownNext m hMem)
      · simp [Store.LockOk, hFree]

/- Only the ticket that is pending may publish. -/
theorem settle_ok {t : Ticket} {result : Option V}
    (hCall : c.Ok refusing s.store) (hStage : c.stage = .resolved t result)
    (hFree : s.store.lock = .free) :
    (s.settle denyAll refusing i c t result).Ok refusing := by
  have hStore := hOk.store
  have hSince := hCall.2
  simp only [hStage] at hSince
  unfold settle
  split_ifs with hPending
  · rcases hStore.pending t hPending with ⟨hEpoch, hNext, hCache, hKnown⟩
    split
    · refine (hOk.dropped i).moved ⟨{ hStore with pending := nofun, lock := ?_ }, .same rfl rfl⟩
      exact ⟨rfl, hSince, hEpoch, hNext, hCache, hKnown⟩
    · refine hOk.unavailable.moved ⟨{ hStore with pending := nofun, lock := ?_ }, .same rfl rfl⟩
      simp [Store.LockOk, hFree]
  · split
    · rename_i e hForced hKnown
      have hNow := hStore.unforced hForced e hKnown
      exact hOk.entry (hCall.1.trans hNow.ge) hNow.le
    · exact hOk.unavailable

theorem advance_ok {x : Met V} (hAt : s.calls[i]? = some c)
    (hAdvance : s.advance denyAll refusing i c x = some s') :
    s'.Ok refusing := by
  have hCall := hOk.calls c (List.mem_of_getElem? hAt)
  have hSpawned : Call.Ok refusing s.store ⟨s.store.epoch, true, .entering⟩ := ⟨le_rfl, trivial⟩
  -- a read that finds the tenant unforced, before the next
  have hUnforced : s.store.forced = false → ∀ e ∈ s.store.lastKnown, c.since ≤ e.ticket.epoch :=
    fun hForced e hKnown => hCall.1.trans (hOk.store.unforced hForced e hKnown).ge
  have hStage := hCall.2
  unfold advance at hAdvance
  split at hAdvance
  · split at hAdvance
    · rename_i e hCache
      have hNow := hOk.store.cache e hCache
      have hReplied := hOk.entry (i := i) (hCall.1.trans hNow.ge) hNow.le
      rw [some.injEq] at hAdvance
      subst hAdvance
      split
      · exact hReplied.spawned hSpawned
      · exact hReplied
    · cases hAdvance
      exact hOk.became ⟨hCall.1, trivial⟩
  · rw [some.injEq] at hAdvance
    subst hAdvance
    apply hOk.became
    split
    · exact ⟨hCall.1, trivial⟩
    · rename_i hForced
      exact ⟨hCall.1, hUnforced (by simpa using hForced)⟩
  · rename_i hUnforcedStage
    simp only [hUnforcedStage] at hStage
    split at hAdvance
    · rename_i e hKnown
      cases hAdvance
      exact (hOk.entry (hStage e hKnown) (hOk.store.known e hKnown)).spawned hSpawned
    · cases hAdvance
      exact hOk.became ⟨hCall.1, trivial⟩
  · split at hAdvance <;> cases hAdvance
    rename_i hFree
    exact enter_ok hOk hCall hFree
  · rename_i t hResolving
    simp only [hResolving] at hStage
    cases hAdvance
    exact hOk.became ⟨hCall.1, hStage⟩
  · rename_i t result hResolved
    split at hAdvance <;> cases hAdvance
    rename_i hFree
    exact settle_ok hOk hCall hResolved hFree
  · rename_i a hJudging
    simp only [hJudging] at hStage
    rw [some.injEq] at hAdvance
    subst hAdvance
    split
    · exact hOk.judged (fun _ => rfl)
    · rename_i hForced
      exact hOk.became ⟨hCall.1, hStage, hUnforced (by simpa using hForced)⟩
  · rename_i a hJudging
    simp only [hJudging] at hStage
    cases hAdvance
    apply hOk.judged
    intro hBefore
    rw [any_eq_false]
    intro e hKnown
    have hSince := hStage.2 e hKnown
    have hAnswer := hStage.1
    unfold Answer.Ok at hAnswer
    cases hSource : a.source with
    | none => simp
    | some t =>
      simp only [hSource] at hAnswer
      simp only [beq_eq_false_iff_ne, ne_eq, some.injEq]
      rintro rfl
      dsimp only at hBefore
      omega

theorem publish_ok (hPublish : publish s = some s') :
    s'.Ok refusing := by
  have hStore := hOk.store
  have hLock := hStore.lock
  unfold publish at hPublish
  unfold Store.LockOk at hLock
  split at hPublish <;> cases hPublish
  rename_i since e hHolder
  simp only [hHolder] at hLock
  rcases hLock with ⟨hNone, hSince, hEpoch, _, hKnown⟩
  have hMoved := hOk.moved (t :=
      { s.store with forced := false, lock := .free })
    ⟨{ hStore with
      lock := trivial
      unforced := fun _ e' hLast => by
        rw [hKnown] at hLast
        cases hLast
        exact hEpoch }, .same rfl rfl⟩
  refine ⟨hMoved.store, hMoved.calls, ?_, hOk.judgements⟩
  simpa [or_imp, forall_and] using And.intro hOk.answers ⟨hSince, hEpoch.le⟩

theorem step_ok {e : Event V} (hStep : step denyAll refusing s e = some s') :
    s'.Ok refusing := by
  cases e with
  | call =>
    cases hStep
    exact hOk.spawned ⟨le_rfl, trivial⟩
  | judge n =>
    rcases bind_eq_some_iff.mp hStep with ⟨a, hAt, hSome⟩
    cases hSome
    exact hOk.spawned ⟨le_rfl, hOk.answers a (List.mem_of_getElem? hAt)⟩
  | advance i x =>
    rcases bind_eq_some_iff.mp hStep with ⟨c, hAt, hAdvance⟩
    exact advance_ok hOk hAt hAdvance
  | cancel i =>
    cases hStep
    exact hOk.dropped i
  | invalidate all =>
    rcases bind_eq_some_iff.mp hStep with ⟨t, hNext, hSome⟩
    cases hSome
    exact hOk.moved (Store.invalidate_ok hOk.store hNext)
  | hold =>
    rcases bind_eq_some_iff.mp hStep with ⟨t, hNext, hSome⟩
    cases hSome
    exact hOk.moved (Store.hold_ok hOk.store hNext)
  | publish => exact publish_ok hOk hStep
  | abandon evicted =>
    rcases bind_eq_some_iff.mp hStep with ⟨t, hNext, hSome⟩
    cases hSome
    exact hOk.moved (Store.abandon_ok hOk.store hNext)
  | evict =>
    cases hStep
    exact hOk.moved ⟨{ hOk.store with cache := nofun }, .same rfl rfl⟩

end

--
-- Runs
--

section Runs

variable {κ γ ρ π : Type} [DecidableEq κ]

/- One step of the call of one tenant, in any interleaving. -/
def Steps (denyAll : ResolvedEntitlements γ ρ π) (s : κ → Tenant (ResolvedEntitlements γ ρ π))
    (e : κ × Event (ResolvedEntitlements γ ρ π))
    (s' : κ → Tenant (ResolvedEntitlements γ ρ π)) : Prop :=
  stepAt (fun _ => step denyAll refuse) s e = some s'

/-
  A call that began in an epoch answers with a refusal or with a resolve started no earlier than
  that epoch.  Both maps are written in the order the resolves started, and no answer of an earlier
  epoch is current.
-/
theorem invalidation_fences (denyAll : ResolvedEntitlements γ ρ π)
    {events : List (κ × Event (ResolvedEntitlements γ ρ π))}
    {s : κ → Tenant (ResolvedEntitlements γ ρ π)}
    (hRun : Run (Steps denyAll) (fun _ => {}) events s) (k : κ) :
    (∀ a ∈ (s k).answers, a.value.Refuses ∨ ∃ t, a.source = some t ∧ a.since ≤ t.epoch) ∧
      (s k).store.cacheLog.Pairwise (· < ·) ∧
      (s k).store.knownLog.Pairwise (· < ·) ∧
      ∀ j ∈ (s k).judgements, j.answer.upon < j.since → j.current = false := by
  have hNew : Everywhere (Tenant.Ok refuse)
      (fun _ : κ => ({} : Tenant (ResolvedEntitlements γ ρ π))) :=
    fun _ => ⟨⟨nofun, nofun, nofun, nofun, .nil, .nil, nofun, nofun, trivial⟩, nofun, nofun, nofun⟩
  have hAll : Everywhere (Tenant.Ok refuse) s :=
    hRun.invariant
      (fun s e _ hOk hStep => stepAt_keeps hStep hOk (fun _ hNext => step_ok (hOk e.1) hNext)) hNew
  have hOk := hAll k
  refine ⟨?_, hOk.store.cacheLog, hOk.store.knownLog, hOk.judgements⟩
  intro a hMem
  have hAnswer := hOk.answers a hMem
  unfold Answer.Ok at hAnswer
  split at hAnswer
  · rename_i t hSource
    exact .inr ⟨t, hSource, hAnswer.1⟩
  · rcases hAnswer with ⟨v, hValue⟩
    rw [hValue]
    exact .inl ⟨rfl, rfl⟩

end Runs

/- A tenant is resolved, invalidated, and resolved again while the control plane is out. -/
def outage :
    List (Unit × Event (ResolvedEntitlements Nat Nat Nat)) :=
  let go (x : Met (ResolvedEntitlements Nat Nat Nat)) := Event.advance 0 x
  ([.call, go {}, go {}, go {}, go {},
    go { result := some ⟨1, some 2, none⟩ }, go {}, .hold,
    .hold, .publish, .invalidate false, .hold, .hold, .judge 0,
    go {}, .call, go {}, go {}, go {}, go {}, go {}] :
    List (Event _)).map (fun e => ((), e))

theorem outage_fenced :
    ∃ s : Unit → Tenant (ResolvedEntitlements Nat Nat Nat),
      Run (Steps ⟨0, none, none⟩) (fun _ => {}) outage s ∧
        (s ()).answers =
          [⟨0, 0, some ⟨0, 0⟩, ⟨1, some 2, none⟩⟩, ⟨1, 1, none, ⟨1, none, some none⟩⟩] ∧
        ∀ j ∈ (s ()).judgements, j.answer.upon < j.since → j.current = false :=
  Run.exists_and (Run.eval (by decide)) (fun _ hRun _ =>
    (invalidation_fences ⟨0, none, none⟩ hRun ()).2.2.2)

end Entitlements

end Tracelane.Gateway
