import Tracelane.Lib.Sha256
import Tracelane.Gateway.Budgets

/-
  The bound on end-user counters: `endUsers` is raised for
  each counter and lowered for each slot an eviction drops.
-/

namespace Tracelane.Gateway

open List

--
-- Capacity
--

namespace TenantCounters

open HashTable Option

/- The counters of end users. -/
def endUserCounters (slots : HashTable Slot (List Counter)) :
    Nat :=
  slots.weigh (fun slot counters => if slot.endUser.isSome then counters.length else 0)

/- The slots of end users. -/
def endUserSlots (slots : HashTable Slot (List Counter)) :
    Nat :=
  slots.weigh (fun slot _ => slot.endUser.isSome.toNat)

/- The slots an eviction drops. -/
def idleSlots (tc : TenantCounters) (instant : Instant) : HashTable Slot (List Counter) :=
  tc.slots.retain (fun s v => !keepsSlot instant endUserIdle s v)

/- The call drops no slot with more than one counter. -/
def evictsSingles (endUserHash : String → Nat) (cfg : BudgetConfig)
    (tc : TenantCounters) (a : Applicable) (instant : Instant) : Bool :=
  !(tc.isNewEndUser endUserHash a && cfg.maxEndUsers ≤ tc.endUsers) ||
    (tc.idleSlots instant).entries.all (fun e => e.2.length = 1)

/-
  The counter stands for at least the slots of end users, and for fewer than the bound more than
  them, which is what lets an eviction of all of them make room.
-/
structure Bounded (cfg : BudgetConfig) (tc : TenantCounters) : Prop where
  bounded : tc.endUsers ≤ cfg.maxEndUsers
  slots : endUserSlots tc.slots ≤ tc.endUsers
  spare : 0 < cfg.maxEndUsers → tc.endUsers < endUserSlots tc.slots + cfg.maxEndUsers
  inhabited : ∀ slot counters, tc.slots.lookup slot = some counters → counters ≠ []

/- The counter is the number of end-user counters. -/
def Exact (tc : TenantCounters) : Prop :=
  tc.endUsers = endUserCounters tc.slots

/- Every end user's counters have been idle long enough. -/
def AllIdle (tc : TenantCounters) (instant : Instant) : Prop :=
  ∀ slot counters, tc.slots.lookup slot = some counters →
    slot.endUser.isSome → ∀ c ∈ counters, endUserIdle ≤ saturatingDurationSince instant c.lastUsed

--
-- Evictions
--

variable {endUserHash : String → Nat} {cfg : BudgetConfig} {tc : TenantCounters}
variable {a : Applicable} {now : DateTime} {instant : Instant}

theorem mem_idleSlots {e : (_ : Slot) × List Counter}
    (hMem : e ∈ (tc.idleSlots instant).entries) :
    e ∈ tc.slots.entries ∧ e.1.endUser.isSome := by
  rcases mem_filter.mp hMem with ⟨hOld, hIdle⟩
  refine ⟨hOld, ?_⟩
  unfold keepsSlot at hIdle
  cases hUser : e.1.endUser with
  | none => simp [hUser] at hIdle
  | some user => rfl

/- An eviction frees one for each end-user slot it drops. -/
theorem endUserSlots_idleSlots :
    endUserSlots (tc.idleSlots instant) = (tc.idleSlots instant).entries.length := by
  rw [← weigh_one]
  apply weigh_congr
  intro e hMem
  rw [(mem_idleSlots hMem).2]
  rfl

theorem endUserSlots_evict (tc : TenantCounters) (instant : Instant) :
    endUserSlots (tc.evictIdleEndUsers instant endUserIdle).slots +
        (tc.idleSlots instant).entries.length =
      endUserSlots tc.slots := by
  rw [← endUserSlots_idleSlots]
  exact weigh_retain _ _ _

theorem endUsers_evict (tc : TenantCounters) (instant : Instant) :
    (tc.evictIdleEndUsers instant endUserIdle).endUsers =
      tc.endUsers - (tc.idleSlots instant).entries.length :=
  rfl

theorem evict_bounded (hBounded : tc.Bounded cfg) :
    (tc.evictIdleEndUsers instant endUserIdle).Bounded cfg := by
  have hSlots := endUserSlots_evict tc instant
  have hCount := endUsers_evict tc instant
  have hLe := hBounded.slots
  refine ⟨?_, ?_, ?_, ?_⟩
  · have hBound := hBounded.bounded
    omega
  · omega
  · intro hPos
    have hSpare := hBounded.spare hPos
    omega
  · intro slot counters hLookup
    unfold evictIdleEndUsers at hLookup
    simp only at hLookup
    rw [lookup_retain, filter_eq_some_iff] at hLookup
    exact hBounded.inhabited slot counters hLookup.1

/- The count stays exact if each dropped slot has one. -/
theorem evict_exact_iff (hBounded : tc.Bounded cfg) (hExact : tc.Exact) :
    (tc.evictIdleEndUsers instant endUserIdle).Exact ↔
      (tc.idleSlots instant).entries.all (fun e => e.2.length = 1) = true := by
  have hCounters :
      endUserCounters (tc.evictIdleEndUsers instant endUserIdle).slots +
        endUserCounters (tc.idleSlots instant) = endUserCounters tc.slots := weigh_retain _ _ _
  have hCount := endUsers_evict tc instant
  have hPos : ∀ e ∈ (tc.idleSlots instant).entries, 0 < e.2.length := by
    intro e hMem
    apply length_pos_iff.mpr
    apply hBounded.inhabited e.1
    exact mem_entries_iff.mp (mem_idleSlots hMem).1
  have hIdle :
      endUserCounters (tc.idleSlots instant) =
        (tc.idleSlots instant).weigh (fun _ v => v.length) := by
    apply weigh_congr
    intro e hMem
    rw [if_pos (mem_idleSlots hMem).2]
  have hLe : (tc.idleSlots instant).entries.length ≤ endUserCounters (tc.idleSlots instant) := by
    rw [hIdle, ← weigh_one]
    exact sum_le_sum hPos
  rw [List.all_eq_true]
  simp only [decide_eq_true_eq]
  have hSingles := weigh_eq_length_iff (t := tc.idleSlots instant) (fun _ v => v.length) hPos
  rw [← hIdle] at hSingles
  rw [← hSingles]
  unfold Exact at hExact ⊢
  rw [hCount]
  omega

--
-- Writing A Counter
--

theorem length_putWindow (c : Counter) (counters : List Counter) :
    (putWindow c counters).length =
      if (findWindow c.spec.window counters).isSome then
        counters.length
      else
        counters.length + 1 := by
  induction counters with
  | nil => rfl
  | cons d ds ih =>
    unfold putWindow findWindow
    rw [find?_cons]
    by_cases hHere : d.spec.window = c.spec.window
    · simp [hHere]
    · simp only [hHere, if_false, decide_false, length_cons, ih]
      unfold findWindow
      split <;> rfl

variable (slots : HashTable Slot (List Counter)) (slot : Slot) (counters : List Counter)

theorem endUserCounters_insert :
    endUserCounters (slots.insert slot counters) +
        (if slot.endUser.isSome then
          ((slots.lookup slot).getD []).length else 0) =
      (if slot.endUser.isSome then counters.length else 0) +
        endUserCounters slots := by
  have hInsert :=
    weigh_insert
      (fun (slot : Slot) (v : List Counter) =>
        if slot.endUser.isSome then v.length else 0)
      slots slot counters
  unfold endUserCounters
  cases hLookup : slots.lookup slot with
  | none =>
    rw [hLookup] at hInsert
    simpa using hInsert
  | some old =>
    rw [hLookup] at hInsert
    exact hInsert

theorem endUserSlots_insert :
    endUserSlots (slots.insert slot counters) =
      if (slots.lookup slot).isNone && slot.endUser.isSome then
        endUserSlots slots + 1
      else
        endUserSlots slots := by
  have hInsert :=
    weigh_insert (fun (slot : Slot) (_ : List Counter) => slot.endUser.isSome.toNat)
      slots slot counters
  unfold endUserSlots
  cases hLookup : slots.lookup slot with
  | none =>
    rw [hLookup] at hInsert
    cases hUser : slot.endUser.isSome
    · simpa [hUser] using hInsert
    · simpa [hUser, Nat.add_comm] using hInsert
  | some old =>
    rw [hLookup, elim_some] at hInsert
    simp only [isNone_some, Bool.false_and, Bool.false_eq_true, if_false]
    omega

theorem putWindow_ne_nil (c : Counter) (counters : List Counter) :
    putWindow c counters ≠ [] := by
  cases counters with
  | nil => simp [putWindow]
  | cons d ds =>
    unfold putWindow
    split <;> simp

theorem consult_window :
    (consult cfg counters a now instant).2.spec = a.budget :=
  Counter.decideNow_spec _ _

--
-- Prepare And Capacity
--

theorem find?_makeRoom (window : BudgetWindow) (hNone : tc.find? slot window = none) :
    (tc.makeRoom endUserHash cfg a instant).find? slot window = none := by
  unfold makeRoom
  split
  · unfold find? evictIdleEndUsers at *
    simp only
    rw [lookup_retain]
    cases hLookup : tc.slots.lookup slot with
    | none => rfl
    | some counters =>
      rw [hLookup] at hNone
      simp only [Option.filter]
      split
      · exact hNone
      · rfl
  · exact hNone

theorem makeRoom_bounded (hBounded : tc.Bounded cfg) :
    (tc.makeRoom endUserHash cfg a instant).Bounded cfg := by
  unfold makeRoom
  split
  · exact evict_bounded hBounded
  · exact hBounded

theorem makeRoom_exact_iff (hBounded : tc.Bounded cfg) (hExact : tc.Exact) :
    (tc.makeRoom endUserHash cfg a instant).Exact ↔
      tc.evictsSingles endUserHash cfg a instant = true := by
  unfold makeRoom evictsSingles
  split
  · rename_i hOver
    rw [hOver, Bool.not_true, Bool.false_or]
    exact evict_exact_iff hBounded hExact
  · rename_i hFits
    rw [Bool.not_eq_true] at hFits
    rw [hFits, Bool.not_false, Bool.true_or]
    exact iff_of_true hExact rfl

/- Everything `prepare` can do. -/
theorem prepare_cases (endUserHash : String → Nat) (cfg : BudgetConfig)
    (tc : TenantCounters) (a : Applicable) (now : DateTime) (instant : Instant) :
    let slot := slotOf endUserHash a
    let room := tc.makeRoom endUserHash cfg a instant
    let counters := (room.slots.lookup slot).getD []
    let said := consult cfg counters a now instant
    (tc.isNewEndUser endUserHash a = true ∧
        cfg.maxEndUsers ≤ room.endUsers ∧
        tc.prepare endUserHash cfg a now instant = (.capacity, room)) ∨
      ((tc.isNewEndUser endUserHash a = true → room.endUsers < cfg.maxEndUsers) ∧
        tc.prepare endUserHash cfg a now instant =
          (said.1,
            { room with
              endUsers :=
                if tc.isNewEndUser endUserHash a then
                  room.endUsers + 1
                else
                  room.endUsers
              slots :=
                room.slots.insert slot
                  (putWindow said.2 counters) })) := by
  simp only
  unfold prepare
  simp only
  split
  · rename_i hOver
    rw [Bool.and_eq_true, decide_eq_true_eq] at hOver
    exact .inl ⟨hOver.1, hOver.2, rfl⟩
  · rename_i hFits
    rw [Bool.and_eq_true, decide_eq_true_eq, not_and, not_le] at hFits
    exact .inr ⟨hFits, rfl⟩

/- A call that is not for a new end user makes no room. -/
theorem makeRoom_of_not_new (hOld : tc.isNewEndUser endUserHash a = false) :
    tc.makeRoom endUserHash cfg a instant = tc := by
  unfold makeRoom
  rw [hOld, Bool.false_and]
  rfl

variable {counters : List Counter} {tc' : TenantCounters}

/- The written slot has one counter more exactly if new. -/
theorem endUserCounters_prepare {room : TenantCounters}
    (hRoom : room = tc.makeRoom endUserHash cfg a instant)
    (hCounters : counters = (room.slots.lookup (slotOf endUserHash a)).getD []) :
    endUserCounters
        (room.slots.insert (slotOf endUserHash a)
          (putWindow (consult cfg counters a now instant).2 counters)) =
      if tc.isNewEndUser endUserHash a then
        endUserCounters room.slots + 1
      else
        endUserCounters room.slots := by
  have hInsert :=
    endUserCounters_insert room.slots (slotOf endUserHash a)
      (putWindow (consult cfg counters a now instant).2 counters)
  rw [← hCounters, length_putWindow, consult_window] at hInsert
  have hFind :
      room.find? (slotOf endUserHash a) a.budget.window = findWindow a.budget.window counters := by
    unfold find?
    rw [hCounters]
    cases room.slots.lookup (slotOf endUserHash a) <;> rfl
  cases hNew : tc.isNewEndUser endUserHash a with
  | true =>
    unfold isNewEndUser at hNew
    simp only [Bool.and_eq_true, isNone_iff_eq_none] at hNew
    have hNone : findWindow a.budget.window counters = none := by
      rw [← hFind, hRoom]
      exact find?_makeRoom _ _ hNew.1
    rw [hNone, if_pos hNew.2, if_pos hNew.2] at hInsert
    simp only [isSome_none, Bool.false_eq_true, if_false] at hInsert
    simp only [if_true]
    omega
  | false =>
    rw [makeRoom_of_not_new hNew] at hRoom
    unfold isNewEndUser at hNew
    simp only [Bool.and_eq_false_iff, isNone_eq_false_iff] at hNew
    simp only [Bool.false_eq_true, if_false]
    rcases hNew with hSome | hUser
    · rw [← hRoom, hFind] at hSome
      rw [if_pos hSome] at hInsert
      omega
    · rw [hUser] at hInsert
      simpa using hInsert

theorem prepare_exact_iff (hBounded : tc.Bounded cfg) (hExact : tc.Exact) :
    (tc.prepare endUserHash cfg a now instant).2.Exact ↔
      tc.evictsSingles endUserHash cfg a instant = true := by
  rw [← makeRoom_exact_iff hBounded hExact]
  rcases prepare_cases endUserHash cfg tc a now instant with ⟨_, _, hPrepare⟩ | ⟨_, hPrepare⟩
  · rw [hPrepare]
  · rw [hPrepare]
    unfold Exact
    simp only
    rw [endUserCounters_prepare rfl rfl]
    split
    · exact Nat.add_right_cancel_iff
    · exact Iff.rfl

/- A slot that is there already is one of those counted. -/
theorem one_le_endUserSlots {slots : HashTable Slot (List Counter)}
    (hNew : tc.isNewEndUser endUserHash a = true)
    (hSeen :
      ¬((slots.lookup (slotOf endUserHash a)).isNone &&
        (slotOf endUserHash a).endUser.isSome) = true) :
    1 ≤ endUserSlots slots := by
  unfold isNewEndUser at hNew
  simp only [Bool.and_eq_true] at hNew
  rw [hNew.2, Bool.and_true, Bool.not_eq_true] at hSeen
  rcases isSome_iff_exists.mp (isNone_eq_false_iff.mp hSeen) with ⟨counters, hLookup⟩
  have hLe := le_weigh (fun (slot : Slot) (_ : List Counter) => slot.endUser.isSome.toNat) hLookup
  rw [hNew.2] at hLe
  exact hLe

theorem prepare_bounded (hBounded : tc.Bounded cfg) :
    (tc.prepare endUserHash cfg a now instant).2.Bounded cfg := by
  have hRoom : (tc.makeRoom endUserHash cfg a instant).Bounded cfg := makeRoom_bounded hBounded
  rcases prepare_cases endUserHash cfg tc a now instant with ⟨_, _, hPrepare⟩ | ⟨hFits, hPrepare⟩
  · rw [hPrepare]
    exact hRoom
  · rw [hPrepare]
    have hSlots :=
      endUserSlots_insert (tc.makeRoom endUserHash cfg a instant).slots (slotOf endUserHash a)
    have hOld :
        tc.isNewEndUser endUserHash a = false →
          (((tc.makeRoom endUserHash cfg a instant).slots.lookup (slotOf endUserHash a)).isNone &&
            (slotOf endUserHash a).endUser.isSome) = false := by
      intro hNew
      rw [makeRoom_of_not_new hNew]
      unfold isNewEndUser find? at hNew
      cases hLookup : tc.slots.lookup (slotOf endUserHash a) with
      | none => simpa [hLookup] using hNew
      | some counters => rfl
    refine ⟨?_, ?_, ?_, ?_⟩
    · simp only
      have hBound := hRoom.bounded
      split_ifs with hNew
      · have hRoomFor := hFits hNew
        omega
      · exact hBound
    · simp only
      rw [hSlots]
      have hLe := hRoom.slots
      cases hNew : tc.isNewEndUser endUserHash a with
      | true =>
        simp only [if_true]
        split <;> omega
      | false =>
        rw [hOld hNew]
        exact hLe
    · intro hPos
      simp only
      rw [hSlots]
      have hSpare := hRoom.spare hPos
      cases hNew : tc.isNewEndUser endUserHash a with
      | true =>
        simp only [if_true]
        have hRoomFor := hFits hNew
        split
        · omega
        · rename_i hSeen
          have hSome := one_le_endUserSlots hNew hSeen
          omega
      | false =>
        rw [hOld hNew]
        exact hSpare
    · exact forall_lookup_insert (putWindow_ne_nil _ _) hRoom.inhabited

/- An eviction of idle end users leaves none. -/
theorem endUserSlots_evict_allIdle (hIdle : tc.AllIdle instant) :
    endUserSlots (tc.evictIdleEndUsers instant endUserIdle).slots = 0 := by
  apply sum_eq_zero
  intro n hWeight
  rcases mem_map.mp hWeight with ⟨e, hMem, rfl⟩
  rcases mem_filter.mp hMem with ⟨hOld, hKept⟩
  cases hUser : e.1.endUser with
  | none => simp [hUser]
  | some user =>
    exfalso
    unfold keepsSlot at hKept
    rw [hUser, isNone_some, Bool.false_or, List.any_eq_true] at hKept
    rcases hKept with ⟨c, hCounter, hUsed⟩
    have hLong := hIdle e.1 e.2 (mem_entries_iff.mp hOld) (by rw [hUser]; rfl) c hCounter
    rw [decide_eq_true_eq] at hUsed
    exact Nat.not_lt.mpr hLong hUsed

/- Where all end users are idle there is room for another. -/
theorem prepare_ne_capacity (hBounded : tc.Bounded cfg)
    (hPos : 0 < cfg.maxEndUsers) (hIdle : tc.AllIdle instant) :
    (tc.prepare endUserHash cfg a now instant).1 ≠ .capacity := by
  rcases prepare_cases endUserHash cfg tc a now instant with ⟨hNew, hOver, _⟩ | ⟨_, hPrepare⟩
  · exfalso
    have hSpare := hBounded.spare hPos
    have hAll : (tc.idleSlots instant).entries.length = endUserSlots tc.slots := by
      have hSlots := endUserSlots_evict tc instant
      rw [endUserSlots_evict_allIdle hIdle] at hSlots
      omega
    unfold makeRoom at hOver
    split at hOver
    · rw [endUsers_evict] at hOver
      omega
    · rename_i hFits
      simp only [hNew, Bool.true_and, decide_eq_true_eq] at hFits
      omega
  · rw [hPrepare]
    exact Counter.decideNow_ne_capacity _ _

--
-- Calls That Create No Counter
--

/- The slots and how many counters each has are the same. -/
def SameShape (tc tc' : TenantCounters) : Prop :=
  tc'.endUsers = tc.endUsers ∧
    endUserSlots tc'.slots = endUserSlots tc.slots ∧
    endUserCounters tc'.slots = endUserCounters tc.slots ∧
    ∀ slot counters, tc'.slots.lookup slot = some counters →
      ∃ old, tc.slots.lookup slot = some old ∧ counters.length = old.length

theorem SameShape.refl (tc : TenantCounters) :
    SameShape tc tc :=
  ⟨rfl, rfl, rfl, fun _ counters hLookup =>
    ⟨counters, hLookup, rfl⟩⟩

theorem SameShape.trans {tc₁ tc₂ tc₃ : TenantCounters}
    (hFirst : SameShape tc₁ tc₂) (hSecond : SameShape tc₂ tc₃) :
    SameShape tc₁ tc₃ := by
  rcases hFirst with ⟨hUsers, hSlots, hCounters, hLookup⟩
  rcases hSecond with ⟨hUsers', hSlots', hCounters', hLookup'⟩
  refine ⟨hUsers'.trans hUsers, hSlots'.trans hSlots, hCounters'.trans hCounters, ?_⟩
  intro slot counters hThird
  rcases hLookup' slot counters hThird with ⟨middle, hMiddle, hLen⟩
  rcases hLookup slot middle hMiddle with ⟨old, hOld, hLen'⟩
  exact ⟨old, hOld, hLen.trans hLen'⟩

/- Rewriting the counters of a slot, as many as there were. -/
theorem sameShape_insert {slot : Slot} {old : List Counter}
    (hLookup : tc.slots.lookup slot = some old) (hLen : counters.length = old.length) :
    SameShape tc { tc with slots := tc.slots.insert slot counters } := by
  refine ⟨rfl, ?_, ?_, ?_⟩
  · simp only
    rw [endUserSlots_insert, hLookup]
    rfl
  · have hInsert := endUserCounters_insert tc.slots slot counters
    rw [hLookup, getD_some, hLen] at hInsert
    simp only
    omega
  · exact forall_lookup_insert ⟨old, hLookup, hLen⟩
      (fun _ counters' hAfter => ⟨counters', hAfter, rfl⟩)

theorem SameShape.bounded (hSame : SameShape tc tc') (hBounded : tc.Bounded cfg) :
    tc'.Bounded cfg := by
  rcases hSame with ⟨hUsers, hSlots, _, hLookup⟩
  refine ⟨?_, ?_, ?_, ?_⟩
  · rw [hUsers]
    exact hBounded.bounded
  · rw [hUsers, hSlots]
    exact hBounded.slots
  · rw [hUsers, hSlots]
    exact hBounded.spare
  · intro slot counters hAfter
    rcases hLookup slot counters hAfter with ⟨old, hOld, hLen⟩
    have hSome := hBounded.inhabited slot old hOld
    intro hNil
    rw [hNil] at hLen
    exact hSome (length_eq_zero_iff.mp hLen.symm)

theorem SameShape.exact_iff (hSame : SameShape tc tc') :
    tc'.Exact ↔ tc.Exact := by
  unfold Exact
  rw [hSame.1, hSame.2.2.1]

/- A write that keeps the window of the counter. -/
theorem modify_sameShape {f : Counter → Counter}
    (hWindow : ∀ c, (f c).spec.window = c.spec.window) :
    SameShape tc (tc.modify endUserHash a f) := by
  unfold modify
  simp only
  cases hLookup : tc.slots.lookup (slotOf endUserHash a) with
  | none => exact SameShape.refl tc
  | some counters =>
    simp only
    cases hFind : findWindow a.budget.window counters with
    | none => exact SameShape.refl tc
    | some c =>
      apply sameShape_insert hLookup
      have hHere : c.spec.window = a.budget.window := by simpa using find?_some hFind
      rw [length_putWindow, hWindow, hHere, hFind]
      rfl

theorem seed_sameShape (period : Nat) (seed : Seed) :
    SameShape tc (tc.seed endUserHash a period seed now).2 := by
  apply modify_sameShape
  intro c
  rw [Counter.expire_spec, Counter.applySeed_spec]

theorem seedFailed_sameShape :
    SameShape tc (tc.seedFailed endUserHash a instant) :=
  modify_sameShape (fun _ => rfl)

theorem record_sameShape {sha256 : Bytes → Hash} {tenant : TenantId}
    {project key : Option Uuid} {endUser : Option String} {cost : Nat} {sink : Crossing → Bool} :
    SameShape tc (tc.record endUserHash sha256 tenant project key endUser cost now sink) := by
  unfold record
  split
  · exact SameShape.refl tc
  · refine foldlRecOn (motive := fun (tc' : TenantCounters) => SameShape tc tc')
      _ _ (SameShape.refl tc) ?_
    intro tc' hSame slot _
    apply hSame.trans
    unfold recordSlot
    cases hLookup : tc'.slots.lookup slot with
    | none => exact SameShape.refl tc'
    | some counters =>
      apply sameShape_insert hLookup
      exact length_map _

end TenantCounters

--
-- Runs
--

namespace Capacity

open Transition

/- A call on a tenant's counters. -/
inductive Event where
| prepare
    (a : Applicable)
    (now : DateTime)
    (instant : Instant)
| seed
    (a : Applicable)
    (period : Nat)
    (seed : Seed)
    (now : DateTime)
| seedFailed
    (a : Applicable)
    (instant : Instant)
| storeEndUserSeed
    (scope : Scope)
    (window : BudgetWindow)
    (period : Nat)
    (seed : EndUserSeed)
| record
    (project key : Option Uuid)
    (endUser : Option String)
    (cost : Nat)
    (now : DateTime)
    (sink : Crossing → Bool)

variable (endUserHash : String → Nat) (sha256 : Bytes → Hash)
variable (cfg : BudgetConfig)

def step (tenant : TenantId) (tc : TenantCounters) : Event → Option TenantCounters
| .prepare a now instant =>
    some (tc.prepare endUserHash cfg a now instant).2
| .seed a period seed now =>
    some (tc.seed endUserHash a period seed now).2
| .seedFailed a instant =>
    some (tc.seedFailed endUserHash a instant)
| .storeEndUserSeed scope window period seed =>
    some (tc.storeEndUserSeed scope window period seed)
| .record project key endUser cost now sink =>
    some (tc.record endUserHash sha256 tenant project key endUser cost now sink)

/- The step drops no slot with more than one counter. -/
def evictsSingles (tc : TenantCounters) : Event → Bool
| .prepare a _ instant =>
    tc.evictsSingles endUserHash cfg a instant
| _ => true

variable {endUserHash : String → Nat} {sha256 : Bytes → Hash}
variable {cfg : BudgetConfig} {tc tc' : TenantCounters} {tenant : TenantId}
variable {e : Event}

/- A step is a `prepare` or keeps the shape of the table. -/
theorem step_cases (hStep : step endUserHash sha256 cfg tenant tc e = some tc') :
    (∃ a now instant,
        e = .prepare a now instant ∧ tc' = (tc.prepare endUserHash cfg a now instant).2) ∨
      (tc.SameShape tc' ∧ evictsSingles endUserHash cfg tc e = true) := by
  cases e with
  | prepare a now instant =>
    cases hStep
    exact .inl ⟨a, now, instant, rfl, rfl⟩
  | seed a period seed now =>
    cases hStep
    exact .inr ⟨TenantCounters.seed_sameShape _ _, rfl⟩
  | seedFailed a instant =>
    cases hStep
    exact .inr ⟨TenantCounters.seedFailed_sameShape, rfl⟩
  | storeEndUserSeed scope window period seed =>
    cases hStep
    exact .inr ⟨TenantCounters.SameShape.refl _, rfl⟩
  | record project key endUser cost now sink =>
    cases hStep
    exact .inr ⟨TenantCounters.record_sameShape, rfl⟩

theorem step_bounded (hBounded : tc.Bounded cfg)
    (hStep : step endUserHash sha256 cfg tenant tc e = some tc') :
    tc'.Bounded cfg := by
  rcases step_cases hStep with ⟨a, now, instant, _, rfl⟩ | ⟨hSame, _⟩
  · exact TenantCounters.prepare_bounded hBounded
  · exact hSame.bounded hBounded

/- A step keeps the count exact if it evicts singles only. -/
theorem step_exact_iff (hBounded : tc.Bounded cfg) (hExact : tc.Exact)
    (hStep : step endUserHash sha256 cfg tenant tc e = some tc') :
    tc'.Exact ↔ evictsSingles endUserHash cfg tc e = true := by
  rcases step_cases hStep with ⟨a, now, instant, rfl, rfl⟩ | ⟨hSame, hSingles⟩
  · exact TenantCounters.prepare_exact_iff hBounded hExact
  · exact iff_of_true (hSame.exact_iff.mpr hExact) hSingles

/-
  In every run the count is bounded, and an end user who comes when all others are idle is not
  refused.  Where no step drops a slot with more than one counter the count is also exact.
-/
theorem run_capacity {trace : List (TenantId × Event)} {s : TenantId → TenantCounters}
    (hRun :
      Run (fun s e t => stepAt (step endUserHash sha256 cfg) s e = some t) (fun _ => {}) trace s) :
    (∀ T,
      (s T).endUsers ≤ cfg.maxEndUsers ∧
        (0 < cfg.maxEndUsers →
          ∀ a now instant, (s T).AllIdle instant →
            ((s T).prepare endUserHash cfg a now instant).1 ≠ .capacity)) ∧
      (Run
          (fun s e t =>
            evictsSingles endUserHash cfg (s e.1) e.2 ∧
              stepAt (step endUserHash sha256 cfg) s e = some t)
          (fun _ => {}) trace s →
        ∀ T, (s T).Exact) := by
  have hEmpty : ({} : TenantCounters).Bounded cfg := by
    refine ⟨Nat.zero_le _, le_rfl, fun hPos => ?_, ?_⟩
    · exact Nat.lt_add_left _ hPos
    · intro slot counters hLookup
      cases hLookup
  have hBounded : Everywhere (TenantCounters.Bounded cfg) s := by
    apply hRun.invariant
    · intro s e t hInv hStep
      apply stepAt_keeps hStep hInv
      intro u hNext
      exact step_bounded (hInv e.1) hNext
    · exact fun _ => hEmpty
  refine ⟨fun T => ⟨(hBounded T).bounded, ?_⟩, ?_⟩
  · intro hPos a now instant hIdle
    exact TenantCounters.prepare_ne_capacity (hBounded T) hPos hIdle
  · intro hSingles
    have hBoth : Everywhere (fun tc : TenantCounters => tc.Bounded cfg ∧ tc.Exact) s := by
      apply hSingles.invariant
      · intro s e t hInv hStep
        apply stepAt_keeps hStep.2 hInv
        intro u hNext
        rcases hInv e.1 with ⟨hHere, hExact⟩
        exact ⟨step_bounded hHere hNext, (step_exact_iff hHere hExact hNext).mpr hStep.1⟩
      · exact fun _ => ⟨hEmpty, rfl⟩
    exact fun T => (hBoth T).2

--
-- A Drift
--

def twoEndUsers : BudgetConfig where
  maxEndUsers := 2
  backoff := 0

def userBudget (user : String) (window : BudgetWindow) : Applicable where
  origin := .workspace
  scope := .workspace
  endUser := some user
  budget := ⟨1000000, window, .hard, [], []⟩

/-
  An end user with a daily and a monthly counter, dropped for
  another one an hour later: one of the two is given back.
-/
def drift : List (TenantId × Event) :=
  [(.zero 16, .prepare (userBudget "a" .daily) 0 0),
    (.zero 16, .prepare (userBudget "a" .monthly) 0 0),
    (.zero 16, .prepare (userBudget "bb" .daily) 3600 endUserIdle)]

theorem drift_not_exact :
    ∃ s,
      Run
          (fun s e t => stepAt (step String.length Sha256.digest twoEndUsers) s e = some t)
          (fun _ => {}) drift s ∧
        (s (.zero 16)).endUsers = 2 ∧
        TenantCounters.endUserCounters (s (.zero 16)).slots = 1 :=
  Run.eval (by decide +kernel)

/- The same with one counter for each of the two. -/
def noDrift : List (TenantId × Event) :=
  [(.zero 16, .prepare (userBudget "a" .daily) 0 0),
    (.zero 16, .prepare (userBudget "bb" .daily) 0 0),
    (.zero 16, .prepare (userBudget "ccc" .daily) 3600 endUserIdle)]

theorem noDrift_exact :
    ∃ s,
      Run
          (fun s e t =>
            evictsSingles String.length twoEndUsers (s e.1) e.2 ∧
              stepAt (step String.length Sha256.digest twoEndUsers) s e = some t)
          (fun _ => {}) noDrift s ∧
        (s (.zero 16)).endUsers = 1 ∧
        (s (.zero 16)).Exact :=
  Run.exists_and (Run.eval_guard (by decide)) (fun _ hGuarded _ =>
    (run_capacity (hGuarded.mono (fun _ _ _ _ hStep => hStep.2))).2 hGuarded (.zero 16))

end Capacity

end Tracelane.Gateway
