import Tracelane.Gateway.Limits

/-
  Promotions of a prompt's versions, and the rollback of its production pointer when the drift
  engine asks for it.

  The router's tables are those of one prompt of one tenant: calls about another change nothing of
  them.

  A rollback goes to the version that the last move displaced. It is itself a move, so the next one
  goes forward again, and the version that drifts is not compared with the pointer.
-/

namespace Tracelane.Prompts

open Gateway Function

--
-- The Prompt
--

inductive Env where
| dev
| staging
| production
| canary
deriving DecidableEq

inductive EvalRunStatus where
| running
| passed
| failed
| errored

inductive DecisionKind where
| promoted
| blockedByEval
| blockedByPolicy
| manualOverride

inductive RollbackMode where
| auto
| suggested
| humanConfirmed
| humanDismissed
deriving DecidableEq

/- The production pointer is set, by a caller or because of a drift observed on a version. -/
structure Move where
  observed : Option Uuid
  fromVersion : Option Uuid
  toVersion : Uuid

/- `moves` only logs, the last move first. -/
structure Prompt where
  versions : List Uuid := []
  routing : Env → Option Uuid := fun _ => none
  prevProduction : Option Uuid := none
  moves : List Move := []

namespace Prompt

def recordPrevProduction (p : Prompt) (toEnv : Env)
    (displaced : Option Uuid) (toVersion : Uuid) : Prompt :=
  if toEnv ≠ .production then p
  else
    match displaced with
    | none => p
    | some prev =>
        if prev = toVersion then p
        else { p with prevProduction := some prev }

/- What a promotion does once its decision is persisted. -/
def movePointer (p : Prompt) (toEnv : Env) (toVersion : Uuid) (observed : Option Uuid) : Prompt :=
  let fromVersion := p.routing toEnv
  recordPrevProduction
    { p with
      routing := update p.routing toEnv toVersion
      moves :=
        if toEnv = .production then
          ⟨observed, fromVersion, toVersion⟩ :: p.moves
        else p.moves }
    toEnv fromVersion toVersion

def promoteWithOverride (p : Prompt) (toEnv : Env) (toVersion : Uuid)
    (persisted : Bool) (observed : Option Uuid) : Option Prompt :=
  if toVersion ∉ p.versions then none
  else if !persisted then none
  else some (p.movePointer toEnv toVersion observed)

/- An eval run is given with the gate's answer about it. -/
def decisionKind (requireEvalGate : Bool) :
    Option (Option EvalRunStatus) → DecisionKind
| some (some .passed) => .promoted
| some _ => .blockedByEval
| none => if requireEvalGate then .blockedByPolicy else .promoted

def promote (requireEvalGate : Bool) (p : Prompt) (toEnv : Env)
    (toVersion : Uuid) (evalRun : Option (Option EvalRunStatus))
    (persisted : Bool) : Option Prompt :=
  if toVersion ∉ p.versions then none
  else if !persisted then none
  else
    match decisionKind requireEvalGate evalRun with
    | .promoted | .manualOverride => some (p.movePointer toEnv toVersion none)
    | .blockedByEval | .blockedByPolicy => some p

/- `mode` is what the drift engine answers. -/
def observeAndMaybeRollback (p : Prompt) (env : Env) (version : Uuid)
    (mode : Option RollbackMode) (persisted : Bool) : Option Prompt :=
  if version ∉ p.versions then none
  else if mode = some .auto ∧ env = .production then
    match p.prevProduction with
    | some prev => p.promoteWithOverride env prev persisted (some version)
    | none => some p
  else some p

end Prompt

inductive Call where
| register (version : Uuid)
| promote (toEnv : Env) (toVersion : Uuid)
    (evalRun : Option (Option EvalRunStatus)) (persisted : Bool)
| override (toEnv : Env) (toVersion : Uuid) (persisted : Bool)
| observe (env : Env) (version : Uuid) (mode : Option RollbackMode) (persisted : Bool)

/- A call that fails leaves the prompt as it was. -/
def step (requireEvalGate : Bool) (p : Prompt) : Call → Prompt
| .register version =>
    { p with versions := version :: p.versions }
| .promote toEnv toVersion evalRun persisted =>
    (p.promote requireEvalGate toEnv toVersion evalRun persisted).getD p
| .override toEnv toVersion persisted =>
    (p.promoteWithOverride toEnv toVersion persisted none).getD p
| .observe env version mode persisted =>
    (p.observeAndMaybeRollback env version mode persisted).getD p

def run (requireEvalGate : Bool) (calls : List Call) : Prompt :=
  calls.foldl (step requireEvalGate) {}

--
-- Automatic Moves
--

/- An automatic move left the version, and no caller has promoted it since. -/
def MovedAway (version : Uuid) : List Move → Prop
| [] => False
| m :: past =>
    if m.observed = none then
      m.toVersion ≠ version ∧ MovedAway version past
    else m.fromVersion = some version ∨ MovedAway version past

def Justified : List Move → Prop
| [] => True
| m :: past =>
    (∀ version, m.observed = some version →
      m.fromVersion = some version ∧ m.toVersion ≠ version ∧ ¬MovedAway m.toVersion past) ∧
    Justified past

/- The last move that changed the pointer was a caller's. -/
def ByCaller : List Move → Prop
| [] => True
| m :: past =>
    if m.fromVersion ≠ some m.toVersion then m.observed = none
    else ByCaller past

/-
  Each drift that moved the pointer was on the version in
  production, where a caller's move had put it.
-/
def Attentive : List Move → Prop
| [] => True
| m :: past =>
    (∀ version, m.observed = some version → m.fromVersion = some version ∧ ByCaller past) ∧
    Attentive past

structure Inv (p : Prompt) : Prop where
  apart :
    ∀ prev, p.prevProduction = some prev →
      ∃ version, p.routing .production = some version ∧ version ≠ prev
  same : Justified p.moves ↔ Attentive p.moves
  live :
    Justified p.moves → ∀ version, p.routing .production = some version → ¬MovedAway version p.moves
  stale :
    Justified p.moves → ∀ prev, p.prevProduction = some prev →
      (MovedAway prev p.moves ↔ ¬ByCaller p.moves)

variable {p : Prompt} {toVersion : Uuid}

theorem Inv.elsewhere {toEnv : Env} (hInv : Inv p) (hEnv : toEnv ≠ .production) :
    Inv (p.movePointer toEnv toVersion none) := by
  have hPointer : update p.routing toEnv (some toVersion) .production = p.routing .production :=
    update_of_ne hEnv.symm _ _
  unfold Prompt.movePointer Prompt.recordPrevProduction
  rw [if_pos hEnv, if_neg hEnv]
  constructor
  · simpa only [hPointer] using hInv.apart
  · exact hInv.same
  · simpa only [hPointer] using hInv.live
  · exact hInv.stale

/- A move that displaces a version records it. -/
theorem Inv.displaced {version : Uuid} {observed : Option Uuid} (hInv : Inv p)
    (hFrom : p.routing .production = some version) (hNe : version ≠ toVersion)
    (hDrift : observed ≠ none → p.prevProduction = some toVersion) :
    Inv (p.movePointer .production toVersion observed) := by
  have hMoved :
      p.movePointer .production toVersion observed =
        { p with
          routing := update p.routing .production toVersion
          prevProduction := some version
          moves := ⟨observed, some version, toVersion⟩ :: p.moves } := by
    simp [Prompt.movePointer, Prompt.recordPrevProduction, hFrom, hNe]
  rw [hMoved]
  cases observed with
  | none =>
    refine ⟨?_, ?_, ?_, ?_⟩
    · simp [hNe.symm]
    · simpa [Justified, Attentive] using hInv.same
    · simp [MovedAway]
    · intro hJustified
      have hLive := hInv.live hJustified.2 version hFrom
      simp [MovedAway, ByCaller, hNe, hLive]
  | some drifting =>
    have hStale hJustified := hInv.stale hJustified toVersion (hDrift (by simp))
    refine ⟨?_, ?_, ?_, ?_⟩
    · simp [hNe.symm]
    · simp only [Justified, Attentive, ← hInv.same, Option.some.injEq, forall_eq']
      refine and_congr_left (fun hJustified => and_congr_right ?_)
      rintro rfl
      rw [hStale hJustified, not_not]
      exact and_iff_right hNe.symm
    · intro hJustified
      have hFresh := (hJustified.1 drifting rfl).2.2
      simpa [MovedAway, hNe] using hFresh
    · simp [MovedAway, ByCaller, hNe]

/- A caller may also promote what is already in production. -/
theorem Inv.promoted (hInv : Inv p) :
    Inv (p.movePointer .production toVersion none) := by
  by_cases hDisplaced : ∃ version, p.routing .production = some version ∧ version ≠ toVersion
  · rcases hDisplaced with ⟨version, hFrom, hNe⟩
    exact hInv.displaced hFrom hNe (fun h => absurd rfl h)
  · push Not at hDisplaced
    have hMoved :
        p.movePointer .production toVersion none =
          { p with
            routing := update p.routing .production toVersion
            moves := ⟨none, p.routing .production, toVersion⟩ :: p.moves } := by
      cases hFrom : p.routing .production with
      | none => simp [Prompt.movePointer, Prompt.recordPrevProduction, hFrom]
      | some version =>
        simp [Prompt.movePointer, Prompt.recordPrevProduction, hFrom, hDisplaced version hFrom]
    rw [hMoved]
    refine ⟨fun prev hPrev => ?_, ?_, ?_, fun hJustified prev hPrev => ?_⟩
    · rcases hInv.apart prev hPrev with ⟨version, hFrom, hNe⟩
      exact ⟨toVersion, by simp, hDisplaced version hFrom ▸ hNe⟩
    · simpa [Justified, Attentive] using hInv.same
    · simp [MovedAway]
    · rcases hInv.apart prev hPrev with ⟨version, hFrom, hNe⟩
      cases hDisplaced version hFrom
      simpa [MovedAway, ByCaller, hFrom, hNe] using hInv.stale hJustified.2 prev hPrev

theorem Inv.step {requireEvalGate : Bool} (hInv : Inv p) (call : Call) :
    Inv (Prompts.step requireEvalGate p call) := by
  have hCaller (toEnv : Env) (toVersion : Uuid) : Inv (p.movePointer toEnv toVersion none) := by
    by_cases hEnv : toEnv = .production
    · exact hEnv ▸ hInv.promoted
    · exact hInv.elsewhere hEnv
  cases call with
  | register version => exact { hInv with }
  | promote toEnv toVersion evalRun persisted =>
    simp only [Prompts.step, Prompt.promote]
    split_ifs
    · exact hInv
    · split
      · exact hCaller ..
      · exact hCaller ..
      · exact hInv
      · exact hInv
    · exact hInv
  | override toEnv toVersion persisted =>
    simp only [Prompts.step, Prompt.promoteWithOverride]
    split_ifs
    · exact hInv
    · exact hCaller ..
    · exact hInv
  | observe env version mode persisted =>
    simp only [Prompts.step, Prompt.observeAndMaybeRollback]
    split_ifs with _ hAuto
    · cases hPrev : p.prevProduction with
      | none => exact hInv
      | some prev =>
        simp only [Prompt.promoteWithOverride, hAuto.2]
        split_ifs
        · exact hInv
        · rcases hInv.apart prev hPrev with ⟨version, hFrom, hNe⟩
          exact hInv.displaced hFrom hNe (fun _ => hPrev)
        · exact hInv
    · exact hInv
    · exact hInv

/-
  Over any calls the automatic moves are as they should be just when each drift was on the version
  in production and it was a caller that had last moved the pointer.
-/
theorem run_justified_iff (requireEvalGate : Bool) (calls : List Call) :
    Justified (run requireEvalGate calls).moves ↔ Attentive (run requireEvalGate calls).moves := by
  have hInv : Inv (run requireEvalGate calls) := by
    refine List.foldlRecOn calls _ ?_ (fun p hInv call _ => hInv.step call)
    constructor <;> simp [Justified, Attentive, MovedAway]
  exact hInv.same

/-
  Two drifts on the second of two versions: the second drift
  puts back the version that the first one took away.
-/
theorem second_drift_restores :
    let a := ByteArr.zero 16
    let b : Uuid := ⟨List.replicate 16 1, rfl⟩
    ¬Justified
      (run false
        [.register a, .register b, .promote .production a none true,
          .promote .production b none true,
          .observe .production b (some .auto) true,
          .observe .production b (some .auto) true]).moves := by
  intro a b hJustified
  have hDrift := (hJustified.1 b (by decide)).1
  revert hDrift
  decide

end Tracelane.Prompts
