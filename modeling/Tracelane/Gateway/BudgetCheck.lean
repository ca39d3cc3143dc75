import Tracelane.Gateway.BudgetSpend

/- What a budget check answers, and what a passing answer on a hard budget rests on. -/

namespace Tracelane.Gateway

open Option

structure ControlDenial where
  status : Nat
  code : String
deriving DecidableEq

namespace Applicable

def subjectLabel (a : Applicable) : String :=
  if a.endUser.isSome then "end_user" else a.scope.asStr

/- A soft budget never refuses. -/
def refuse (a : Applicable) (denial : ControlDenial) : Except ControlDenial Unit :=
  if a.budget.mode = .hard then .error denial else .ok ()

def checkSpent (a : Applicable) (spent : Nat) : Except ControlDenial Unit :=
  if a.budget.microUsd ≤ spent then a.refuse ⟨402, "budget_exceeded_" ++ a.subjectLabel⟩
  else .ok ()

theorem lt_of_checkSpent (a : Applicable) {spent : Nat} (hHard : a.budget.mode = .hard)
    (hPass : a.checkSpent spent = .ok ()) :
    spent < a.budget.microUsd := by
  simpa [checkSpent, refuse, hHard] using hPass

end Applicable

namespace Spending

open List TenantCounters Transition

variable (endUserHash : String → Nat) (sha256 : Bytes → Hash) (cfg : BudgetConfig)

/- The check a step ends, its time, and its answer. -/
def checkBudget (s : State) : Event → Option (Applicable × DateTime × Except ControlDenial Unit)
| .prepare a now instant =>
    match (s.counters.prepare endUserHash cfg a now instant).1 with
    | .ready spent => some (a, now, a.checkSpent spent)
    | .needsSeed _ => none
    | .backoff => some (a, now, a.refuse ⟨503, "budget_spend_unknown"⟩)
    | .capacity => some (a, now, a.refuse ⟨503, "budget_capacity"⟩)
| .seed i => do
    let f ← s.flights[i]?
    match f.stage with
    | .known seed =>
        -- A counter that is gone has spent nothing.
        let spent := (s.counters.seed endUserHash f.a f.period seed f.now).1.getD 0
        some (f.a, f.now, f.a.checkSpent spent)
    | _ => none
| .seedFailed i _ => do
    let f ← s.flights[i]?
    some (f.a, f.now, f.a.refuse ⟨503, "budget_spend_unknown"⟩)
| _ => none

/- Seeded for the period of `now`; once for a rolling window. -/
def SeededAt (now : DateTime) (c : Counter) : Prop :=
  match c.spec.window.rollingHours with
  | some _ => c.seededFor.isSome
  | none => c.seededFor = some (periodKey c.spec.window now)

/- The counter of a budget is seeded and below the ceiling. -/
def Known (tc : TenantCounters) (a : Applicable) (now : DateTime) : Prop :=
  ∃ c,
    tc.find? (slotOf endUserHash a) a.budget.window = some c ∧
      SeededAt now c ∧ c.spent now < a.budget.microUsd

/- A hard budget that a step passes is known after it. -/
def Justified (s : State) (e : Event) (t : State) : Prop :=
  ∀ a now,
    a.budget.mode = .hard →
    checkBudget endUserHash cfg s e = some (a, now, .ok ()) →
    Known endUserHash t.counters a now

/- The counter was evicted while its baseline was read. -/
def SeedsNothing (s : State) (e : Event) : Prop :=
  ∃ i f,
    e = .seed i ∧
      s.flights[i]? = some f ∧
      f.a.budget.mode = .hard ∧
      0 < f.a.budget.microUsd ∧
      s.counters.find? (slotOf endUserHash f.a) f.a.budget.window = none

--
-- The Counter A Step Leaves
--

variable {endUserHash : String → Nat} {sha256 : Bytes → Hash} {cfg : BudgetConfig}
variable {tc : TenantCounters} {a : Applicable} {c : Counter} {now : DateTime} {spent : Nat}

theorem find?_modify {f : Counter → Counter} (hKeeps : ∀ c, (f c).spec = c.spec) :
    (tc.modify endUserHash a f).find? (slotOf endUserHash a) a.budget.window =
      (tc.find? (slotOf endUserHash a) a.budget.window).map f := by
  unfold TenantCounters.modify TenantCounters.find?
  cases hLookup : tc.slots.lookup (slotOf endUserHash a) with
  | none => simp [hLookup]
  | some counters =>
    cases hFind : findWindow a.budget.window counters with
    | none => simp [hLookup, hFind]
    | some c =>
      have hWindow : (f c).spec.window = a.budget.window := by
        rw [hKeeps, (findWindow_eq_some hFind).2]
      have hFound := findWindow_putWindow (f c) counters
      simpa [hLookup, hFind, hWindow] using hFound

theorem find?_seed (period : Nat) (seed : Seed) :
    (tc.seed endUserHash a period seed now).2.find? (slotOf endUserHash a) a.budget.window =
      (tc.find? (slotOf endUserHash a) a.budget.window).map
        (fun c => (c.applySeed period seed).expire now) := by
  apply find?_modify
  intro c
  rw [Counter.expire_spec, Counter.applySeed_spec]

theorem spent_expire (c : Counter) (now : DateTime) :
    (c.expire now).spent now = c.spent now := by
  unfold Counter.spent
  rw [Counter.expire_spec]
  cases hHours : c.spec.window.rollingHours <;> simp [Counter.expire, hHours, dropWhile_idempotent]

theorem SeededAt.expire (hSeeded : SeededAt now c) :
    SeededAt now (c.expire now) := by
  unfold Counter.expire
  split <;> exact hSeeded

theorem decideNow_ready {backoff : Duration} {instant : Instant}
    (hSaid : (c.decideNow backoff now instant).1 = .ready spent) :
    SeededAt now (c.decideNow backoff now instant).2 ∧
      (c.decideNow backoff now instant).2.spent now = spent := by
  unfold Counter.decideNow at hSaid ⊢
  cases hHours : c.spec.window.rollingHours with
  | none =>
    simp only [hHours] at hSaid ⊢
    split_ifs at hSaid ⊢ with _ hSeeded
    cases hSaid
    simp [SeededAt, Counter.spent, hHours, hSeeded]
  | some n =>
    simp only [hHours] at hSaid ⊢
    split_ifs at hSaid ⊢ with _ hSeeded
    cases hSaid
    have hAt : SeededAt now c := by simpa [SeededAt, hHours, isSome_iff_ne_none] using hSeeded
    exact ⟨hAt.expire, spent_expire c now⟩

theorem prepare_known {instant : Instant}
    (hSaid : (tc.prepare endUserHash cfg a now instant).1 = .ready spent)
    (hBelow : spent < a.budget.microUsd) :
    Known endUserHash (tc.prepare endUserHash cfg a now instant).2 a now := by
  have hOwn := prepare_own (hSaid.trans_ne nofun)
  have hAt := decideNow_ready (hOwn.1.symm.trans hSaid)
  exact ⟨_, hOwn.2, hAt.1, hAt.2.trans_lt hBelow⟩

--
-- Waiting Checks
--

/- A calendar check waits for the period of its own time. -/
def Flight.Due (f : Flight) : Prop :=
  f.a.budget.window.rollingHours = none → f.period = periodKey f.a.budget.window f.now

def Due (s : State) : Prop :=
  ∀ f ∈ s.flights, f.Due

theorem seed_known {f : Flight} {seed : Seed} (hDue : f.Due)
    (hFind : tc.find? (slotOf endUserHash f.a) f.a.budget.window = some c)
    (hBelow : (tc.seed endUserHash f.a f.period seed f.now).1.getD 0 < f.a.budget.microUsd) :
    Known endUserHash (tc.seed endUserHash f.a f.period seed f.now).2 f.a f.now := by
  have hSeeded : (c.applySeed f.period seed).seededFor = some f.period := by
    unfold Counter.applySeed
    grind
  simp only [TenantCounters.seed, hFind, map_some, getD_some] at hBelow
  refine ⟨_, ?_, SeededAt.expire (c := c.applySeed f.period seed) ?_, ?_⟩
  · rw [find?_seed, hFind, map_some]
  · unfold SeededAt
    rw [Counter.applySeed_spec, hSeeded, find?_window hFind]
    cases hHours : f.a.budget.window.rollingHours with
    | none => exact congrArg some (hDue hHours)
    | some n => rfl
  · rw [spent_expire]
    exact hBelow

section Step

variable {tenant : TenantId} {s t : State} {e : Event}

theorem Due.setStage {i : Nat} {f : Flight} {stage : Stage} (hDue : Due s)
    (hFlight : s.flights[i]? = some f) :
    Due (s.setStage i f stage) := by
  intro g hMem
  rcases mem_or_eq_of_mem_set hMem with hOld | rfl
  · exact hDue g hOld
  · exact hDue f (mem_of_getElem? hFlight)

section

variable (hDue : Due s) (hStep : step endUserHash sha256 cfg tenant s e = some t)
include hDue hStep

theorem Due.step :
    Due t := by
  have hErase : ∀ i, ∀ f ∈ s.flights.eraseIdx i, f.Due :=
    fun i f hMem => hDue f (mem_of_mem_eraseIdx hMem)
  cases e with
  | prepare a now instant =>
    simp only [Spending.step] at hStep
    split at hStep <;> cases hStep
    · rename_i period hSaid
      exact forall_mem_append.mpr ⟨hDue, forall_mem_singleton.mpr (prepare_needsSeed hSaid)⟩
    · exact hDue
  | record =>
    cases hStep
    exact hDue
  | _ i => grind [Spending.step, Due.setStage, Due, bind_eq_some_iff]

theorem step_justified_iff :
    Justified endUserHash cfg s e t ↔ ¬SeedsNothing endUserHash s e := by
  constructor
  · rintro hJustified ⟨i, f, rfl, hFlight, hHard, hCeiling, hGone⟩
    rcases bind_eq_some_iff.mp hStep with ⟨g, hSame, hStep⟩
    cases hFlight.symm.trans hSame
    split at hStep <;> cases hStep
    rename_i seed hStage
    have hPass : checkBudget endUserHash cfg s (.seed i) = some (f.a, f.now, .ok ()) := by
      simp [checkBudget, hFlight, hStage, TenantCounters.seed, hGone, Applicable.checkSpent,
        hCeiling.ne']
    rcases hJustified _ _ hHard hPass with ⟨c, hFind, _⟩
    rw [find?_seed, hGone] at hFind
    cases hFind
  · intro hFound a now hHard hPass
    cases e with
    | prepare b at' instant =>
      cases hSaid : (s.counters.prepare endUserHash cfg b at' instant).1 with
      | ready spent =>
        simp only [checkBudget, hSaid, some.injEq, Prod.mk.injEq] at hPass
        rcases hPass with ⟨rfl, rfl, hPass⟩
        simp only [step, hSaid] at hStep
        cases hStep
        exact prepare_known hSaid (b.lt_of_checkSpent hHard hPass)
      | _ => grind [checkBudget, Applicable.refuse]
    | seed i =>
      rcases bind_eq_some_iff.mp hStep with ⟨f, hFlight, hStep⟩
      simp only [checkBudget, hFlight, bind_eq_bind, bind_some] at hPass
      split at hStep <;> cases hStep
      rename_i seed hStage
      simp only [hStage, some.injEq, Prod.mk.injEq] at hPass
      rcases hPass with ⟨rfl, rfl, hPass⟩
      have hBelow := f.a.lt_of_checkSpent hHard hPass
      cases hFind : s.counters.find? (slotOf endUserHash f.a) f.a.budget.window with
      | none => exact absurd ⟨i, f, rfl, hFlight, hHard, by omega, hFind⟩ hFound
      | some c => exact seed_known (hDue f (mem_of_getElem? hFlight)) hFind hBelow
    | seedFailed i => grind [checkBudget, Applicable.refuse]
    | _ => cases hPass

end

end Step

theorem checkBudget_justified_iff {trace : List (TenantId × Event)} {s t : TenantId → State}
    {e : TenantId × Event}
    (hRun :
      Run (fun s e t => stepAt (step endUserHash sha256 cfg) s e = some t) (fun _ => {}) trace s)
    (hStep : stepAt (step endUserHash sha256 cfg) s e = some t) :
    Justified endUserHash cfg (s e.1) e.2 (t e.1) ↔ ¬SeedsNothing endUserHash (s e.1) e.2 := by
  have hDue : Everywhere Due s := by
    apply hRun.invariant
    · intro s e t hDue hStep
      exact stepAt_keeps hStep hDue (fun u hNext => (hDue e.1).step hNext)
    · intro T f hMem
      cases hMem
  rcases map_eq_some_iff.mp hStep with ⟨u, hNext, rfl⟩
  rw [Function.update_self]
  exact step_justified_iff (hDue e.1) hNext

--
-- An Evicted Counter
--

def oneEndUser : BudgetConfig := ⟨1, 0⟩

def oneStep := stepAt (step String.length Sha256.digest oneEndUser)

/- A user over budget is dropped while their spend is read. -/
def evicted : List (TenantId × Event) :=
  [(.zero 16, .prepare (Capacity.userBudget "a" .daily) 0 0),
    (.zero 16, .prepare (Capacity.userBudget "bb" .daily) 3600 endUserIdle),
    (.zero 16, .lookup 0),
    (.zero 16, .readGroup 0 (AList.insert "a" 5000000 ∅)),
    (.zero 16, .storeGroup 0)]

theorem evicted_passes :
    ∃ s t,
      Run (fun s e t => oneStep s e = some t) (fun _ => {}) evicted s ∧
        oneStep s (.zero 16, .seed 0) = some t ∧
        ¬Justified String.length oneEndUser (s (.zero 16)) (.seed 0) (t (.zero 16)) := by
  have hSeen :
      ((evicted.foldlM oneStep (fun _ => {})).bind (fun s =>
          (oneStep s (.zero 16, .seed 0)).map (fun t =>
            (checkBudget String.length oneEndUser (s (.zero 16)) (.seed 0),
              (t (.zero 16)).counters.find? ⟨.workspace, some 1⟩ .daily)))) =
        some (some (Capacity.userBudget "a" .daily, 0, .ok ()), none) := by
    decide
  rcases bind_eq_some_iff.mp hSeen with ⟨s, hFold, hSeen⟩
  rcases map_eq_some_iff.mp hSeen with ⟨t, hStep, hSeen⟩
  rw [Prod.mk.injEq] at hSeen
  refine ⟨s, t, .of_foldlM hFold, hStep, fun hJustified => ?_⟩
  rcases hJustified _ _ rfl hSeen.1 with ⟨c, hFind, _⟩
  cases hSeen.2.symm.trans hFind

theorem unevicted_justified :
    ∃ s t,
      Run (fun s e t => oneStep s e = some t) (fun _ => {}) (rollover.take 2) s ∧
        oneStep s (.zero 16, .seed 0) = some t ∧
        Justified String.length oneEndUser (s (.zero 16)) (.seed 0) (t (.zero 16)) := by
  have hSeen :
      (((rollover.take 2).foldlM oneStep (fun _ => {})).bind (fun s =>
          (oneStep s (.zero 16, .seed 0)).map (fun _ =>
            (s (.zero 16)).flights[0]?.map (fun f =>
              ((s (.zero 16)).counters.find? (slotOf String.length f.a)
                f.a.budget.window).isSome)))) =
        some (some true) := by
    decide
  rcases bind_eq_some_iff.mp hSeen with ⟨s, hFold, hSeen⟩
  rcases map_eq_some_iff.mp hSeen with ⟨t, hStep, hSeen⟩
  have hRun := Run.of_foldlM hFold
  refine ⟨s, t, hRun, hStep, (checkBudget_justified_iff hRun hStep).mpr ?_⟩
  rintro ⟨i, f, hSeed, hFlight, _, _, hGone⟩
  cases hSeed
  simp [hFlight, hGone] at hSeen

end Spending

end Tracelane.Gateway
