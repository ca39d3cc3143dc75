import Tracelane.Lib.Bytes

/-
  A routed chat request: the first target of its plan, and the hops to later ones.

  What the gates of both ask (flags, tables, policies, prices, aliases, pools with their random
  draws, and breakers) is held fixed during the request; so a breaker that would admit a call admits
  it.  A routed dispatch is one attempt.
-/

namespace Tracelane.Chat

open Option Nat

namespace Hops

open List

--
-- What A Request Meets
--

inductive ProviderKey where
| found (key : String)
| notConfigured
| unusable
| lookupFailed
| kmsUnavailable
| kmsDenied
deriving DecidableEq

structure ModelAlias where
  providerId : String
  upstreamModel : String

structure PoolChoice where
  labels : List String
  pooled : Bool

structure Candidate where
  model : String
  providerId : String
deriving DecidableEq

/- What a provider is sent, the rest of the request aside. -/
structure Call where
  providerId : String
  label : String
  key : String
  model : String
deriving DecidableEq

inductive Answer where
| ok
| status (code : Nat)
| transport
deriving DecidableEq

/- A dispatch that live controls refuse sends nothing. -/
inductive Result where
| denied
| answered (a : Answer)
deriving DecidableEq

def Result.isKeyFailure : Result → Bool
| .answered (.status code) =>
    code = 401 || code = 403 || code = 429
| _ => false

inductive Reason where
| killed
| zdrIneligible
| policyDenied
| unpricedUnderBudget
| unsupportedRequest
| unroutable
| breakerOpen
| noByokKey
deriving DecidableEq

/- An element of the attempt ledger. -/
inductive Entry where
| skipped
    (provider model : String) (reason : Reason)
    (keyLabel : Option String)
| tried
    (provider model : String) (keyLabel : Option String)
    (call : Call) (result : Result)
deriving DecidableEq

/-
  Kill flags and the ZDR table go by name; a breaker by the span name, the provider, and the label;
  live controls by the provider and the model.
-/
structure Env where
  killed : String → Bool
  zdrRequired : Bool
  eligible : String → Bool
  callerBudgeted : Bool
  unpriced : String → Bool
  policyAllows : String → String → Bool
  aliasOf : String → Option ModelAlias
  registry : String → Option String
  supported : String → String → Bool
  poolLabels : String → PoolChoice
  resolve : String → String → ProviderKey
  admits : String → String → String → Bool
  live : String → String → Bool
  answers : Call → Answer

namespace Env

variable (env : Env)

def providerIdForModel (model : String) : Option String :=
  match env.aliasOf model with
  | some a => some a.providerId
  | none => env.registry model

def providerNameFromModel (model : String) : String :=
  match env.providerIdForModel model with
  | some "vertex" => "gcp_vertex_ai"
  | some "bedrock" => "aws_bedrock"
  | some other => other
  | none => "unknown"

/- The model name that goes out for the first target. -/
def upstreamModel (model : String) : String :=
  ((env.aliasOf model).map ModelAlias.upstreamModel).getD model

/- The targets of a virtual model that still route. -/
def candidates (targets : List String) : List Candidate :=
  targets.filterMap (fun model => (env.providerIdForModel model).map (fun id => ⟨model, id⟩))

/- `Context::check`. -/
def check (call : Call) (model : String) : Bool :=
  env.live call.providerId model &&
    !env.killed call.providerId &&
    (!env.zdrRequired || env.eligible call.providerId) &&
    decide (env.resolve call.providerId call.label = .found call.key)

def dispatch (call : Call) (model : String) : Result :=
  if env.check call model then .answered (env.answers call)
  else .denied

/- `KeyCursor::into_failure` once every label was tried. -/
def poolFailure (id : String) (labels : List String) :
    ProviderKey :=
  (labels.foldl
    (fun (failure : Option ProviderKey) label =>
      match env.resolve id label with
      | .found _ => failure
      | .lookupFailed => some .lookupFailed
      | .kmsUnavailable =>
          if failure = some .lookupFailed then failure
          else some .kmsUnavailable
      | .kmsDenied =>
          if failure = some .lookupFailed then failure
          else some .kmsDenied
      | other => failure.or (some other))
    none).getD .notConfigured

end Env

--
-- The First Target
--

structure RoutedKey where
  label : String
  key : String
  cursor : List String
  pooled : Bool

structure CandidateSkip where
  attempts : List Entry
  lookupFailed : Bool

variable (env : Env)

/- The first key of a pool whose breaker would admit it. -/
def pickKey (name : String) (c : Candidate) (pooled : Bool) :
    List String → List Entry → Except (List Entry) RoutedKey
| [], skips => .error skips
| label :: rest, skips =>
    match env.resolve c.providerId label with
    | .found key =>
        if env.admits name c.providerId label then
          .ok ⟨label, key, rest, pooled⟩
        else
          pickKey name c pooled rest
            (skips ++ [.skipped name c.model .breakerOpen (if pooled then some label else none)])
    | _ => pickKey name c pooled rest skips

def selectCandidate (c : Candidate) : Except CandidateSkip RoutedKey :=
  let name := env.providerNameFromModel c.model
  let skip (reason : Reason) : Except CandidateSkip RoutedKey :=
    .error ⟨[.skipped name c.model reason none], false⟩
  if env.killed name then skip .killed
  else if env.zdrRequired && !env.eligible c.providerId then
    skip .zdrIneligible
  else if !env.policyAllows c.model c.providerId then
    skip .policyDenied
  else if env.callerBudgeted && env.unpriced c.model then
    skip .unpricedUnderBudget
  else if !env.supported c.providerId
      (env.upstreamModel c.model) then
    skip .unsupportedRequest
  else
    let pool := env.poolLabels c.providerId
    match pickKey env name c pool.pooled pool.labels [] with
    | .ok k => .ok k
    | .error [] =>
        .error ⟨[.skipped name c.model .noByokKey none],
          env.poolFailure c.providerId pool.labels = .lookupFailed⟩
    | .error skips => .error ⟨skips, false⟩

/- A key failure moves to the next key of the pool. -/
def keyLoop (name : String) (c : Candidate) :
    List String → Result → Nat → List Entry
| [], _, _ => []
| label :: rest, result, budget =>
    if !result.isKeyFailure || budget = 0 then []
    else
      match env.resolve c.providerId label with
      | .found key =>
          if env.admits name c.providerId label then
            let call : Call :=
              ⟨c.providerId, label, key,
                env.upstreamModel c.model⟩
            let r := env.dispatch call c.model
            .tried name c.model (some label) call r ::
              keyLoop name c rest r (budget - 1)
          else
            .skipped name c.model .breakerOpen (some label) ::
              keyLoop name c rest result budget
      | _ => keyLoop name c rest result budget

/- The dispatches of a first target, at most `budget`. -/
def firstTries (c : Candidate) (k : RoutedKey) (budget : Nat) : List Entry :=
  let name := env.providerNameFromModel c.model
  let call : Call := ⟨c.providerId, k.label, k.key, env.upstreamModel c.model⟩
  let r := env.dispatch call c.model
  .tried name c.model (if k.pooled then some k.label else none) call r ::
    keyLoop env name c k.cursor r (budget - 1)

--
-- Later Targets
--

/- What the keys of a hop came to. -/
structure HopKeys where
  entries : List Entry
  keyed : Bool
  result : Option Result
  budget : Nat

def hopKeys (name : String) (c : Candidate) (pooled : Bool) : List String → Nat → HopKeys
| [], budget => ⟨[], false, none, budget⟩
| label :: rest, budget =>
    if budget = 0 then ⟨[], false, none, budget⟩
    else
      match env.resolve c.providerId label with
      | .found key =>
          let keyLabel := if pooled then some label else none
          if key = "" then hopKeys name c pooled rest budget
          else if env.admits name c.providerId label then
            let call : Call := ⟨c.providerId, label, key, c.model⟩
            let r := env.dispatch call c.model
            let entry := .tried name c.model keyLabel call r
            if r.isKeyFailure && !rest.isEmpty then
              let later := hopKeys name c pooled rest (budget - 1)
              ⟨entry :: later.entries, true,
                later.result.or (some r), later.budget⟩
            else ⟨[entry], true, some r, budget - 1⟩
          else
            let later := hopKeys name c pooled rest budget
            ⟨.skipped name c.model .breakerOpen keyLabel ::
              later.entries, true, later.result, later.budget⟩
      | _ => hopKeys name c pooled rest budget

inductive HopEnd where
| skipped
| refused
| tried (r : Result)
deriving DecidableEq

structure Hop where
  entries : List Entry
  ended : HopEnd
  budget : Nat

def hop (name model : String) (budget : Nat) : Hop :=
  let skip (reason : Reason) : Hop := ⟨[.skipped name model reason none], .skipped, budget⟩
  if env.callerBudgeted && env.unpriced model then
    skip .unpricedUnderBudget
  else if env.zdrRequired && !env.eligible name then
    skip .zdrIneligible
  else if env.killed name then skip .killed
  else
    match env.providerIdForModel model with
    | none => skip .unroutable
    | some id =>
        if !env.policyAllows model id then skip .policyDenied
        else if !env.supported id model then
          skip .unsupportedRequest
        else
          let pool := env.poolLabels id
          let keys := hopKeys env name ⟨model, id⟩ pool.pooled pool.labels budget
          if keys.keyed then
            match keys.result with
            | some r => ⟨keys.entries, .tried r, keys.budget⟩
            | none => ⟨keys.entries, .skipped, keys.budget⟩
          else
            match env.poolFailure id pool.labels with
            | .kmsUnavailable => ⟨[], .refused, budget⟩
            | .kmsDenied => ⟨[], .refused, budget⟩
            | _ => skip .noByokKey

structure State where
  ledger : List Entry
  budget : Nat
  going : Bool

/- One turn of the hop loop. -/
def hopStep (s : State) (target : String × String) : State :=
  if s.going && 0 < s.budget then
    let h := hop env target.1 target.2 s.budget
    { ledger := s.ledger ++ h.entries
      budget := h.budget
      going := h.ended ≠ .refused ∧ h.ended ≠ .tried (.answered .ok) }
  else s

/- The targets after the one that was chosen, as hops. -/
def hopsOf (cs : List Candidate) : List (String × String) :=
  cs.map (fun c => (env.providerNameFromModel c.model, c.model))

def lastResult : List Entry → Option Result
| [] => none
| .tried _ _ _ _ r :: rest => (lastResult rest).or (some r)
| .skipped _ _ _ _ :: rest => lastResult rest

def triedCount (es : List Entry) : Nat :=
  es.countP (fun
    | .tried _ _ _ _ _ => true
    | .skipped _ _ _ _ => false)

/-
  A plan's run: the first candidate that can be dispatched, then, unless it was served or refused by
  live controls, the candidates after it and the failover chain.
-/
def run (maxAttempts : Nat) (chain : List (String × String)) :
    List Candidate → List Entry → State
| [], skips => ⟨skips, 0, false⟩
| c :: rest, skips =>
    match selectCandidate env c with
    | .error skip => run maxAttempts chain rest (skips ++ skip.attempts)
    | .ok k =>
        let tries := firstTries env c k maxAttempts
        (hopsOf env rest ++ chain).foldl (hopStep env)
          { ledger := skips ++ tries
            budget := maxAttempts - triedCount tries
            going := lastResult tries ≠ some .denied ∧ lastResult tries ≠ some (.answered .ok) }

--
-- Served Alike
--

/- The calls that reached a provider, in order. -/
def sent (es : List Entry) : List Call :=
  es.filterMap (fun
    | .tried _ _ _ call (.answered _) => some call
    | _ => none)

/- What a candidate that comes first is tried with. -/
def served (c : Candidate) (budget : Nat) : List Entry :=
  match selectCandidate env c with
  | .ok k => firstTries env c k budget
  | .error _ => []

/- The provider is killed, or ineligible where ZDR is asked. -/
def barred (c : Candidate) : Bool :=
  env.killed c.providerId || (env.zdrRequired && !env.eligible c.providerId)

def hopOf (c : Candidate) : String × String :=
  (env.providerNameFromModel c.model, c.model)

/- What a turn of the loop adds to the ledger. -/
def added (s : State) (c : Candidate) : List Entry :=
  (hopStep env s (hopOf env c)).ledger.drop s.ledger.length

/-
  A hop dispatches where a first target would, with the same calls; and a barred provider is
  skipped, on the record, and the loop goes on.
-/
structure Alike (s : State) (c : Candidate) : Prop where
  dispatched : 0 < triedCount (added env s c) ↔ ∃ k, selectCandidate env c = .ok k
  calls : sent (added env s c) = sent (served env c s.budget)
  skipped :
    barred env c = true →
      triedCount (added env s c) = 0 ∧ added env s c ≠ [] ∧
        (hopStep env s (hopOf env c)).going = true

/- The keys of a pool that resolve and whose breaker admits. -/
def admitted (c : Candidate) (labels : List String) : List (String × String) :=
  labels.filterMap (fun label =>
    match env.resolve c.providerId label with
    | .found key =>
        if env.admits (env.providerNameFromModel c.model) c.providerId label then
          some (label, key)
        else none
    | _ => none)

def isKeyed (k : String × String) : Bool :=
  k.2 ≠ ""

/- No label has a key that is not empty. -/
def unkeyed (c : Candidate) (labels : List String) : Bool :=
  labels.all (fun label =>
    match env.resolve c.providerId label with
    | .found key => key = ""
    | _ => true)

/- There is no key, and a customer key service is why. -/
def kmsRefuses (c : Candidate) : Bool :=
  let labels := (env.poolLabels c.providerId).labels
  unkeyed env c labels &&
    (env.poolFailure c.providerId labels = .kmsUnavailable ||
      env.poolFailure c.providerId labels = .kmsDenied)

/- The gates that ask the same of both. -/
def shared (c : Candidate) : Bool :=
  !env.killed (env.providerNameFromModel c.model) &&
    env.policyAllows c.model c.providerId &&
    !(env.callerBudgeted && env.unpriced c.model)

def openFirst (c : Candidate) : Bool :=
  (!env.zdrRequired || env.eligible c.providerId) &&
    env.supported c.providerId (env.upstreamModel c.model)

def openHop (c : Candidate) : Bool :=
  (!env.zdrRequired || env.eligible (env.providerNameFromModel c.model)) &&
    env.supported c.providerId c.model

def poolKeys (c : Candidate) : List (String × String) :=
  admitted env c (env.poolLabels c.providerId).labels

/-
  What the two gate sequences read apart comes to the same: the ZDR table and the kill flags under
  the provider's id and its span name, support for the model before and after the alias, empty keys,
  and, where something is sent, the model's name.
-/
def Agrees (c : Candidate) : Prop :=
  shared env c = true →
    ((openFirst env c = true ∧ poolKeys env c ≠ []) ↔
        (openHop env c = true ∧ (poolKeys env c).filter isKeyed ≠ [])) ∧
      (openHop env c = true →
        (poolKeys env c).filter isKeyed ≠ [] ∨ kmsRefuses env c = true → barred env c = false) ∧
      (openHop env c = true →
        (poolKeys env c).filter isKeyed ≠ [] →
          env.live c.providerId c.model = true →
            env.upstreamModel c.model = c.model ∧ ∀ k ∈ poolKeys env c, isKeyed k = true)

--
-- Calls Along A Pool
--

/- The calls that keys are sent with, until one settles it. -/
def callsOf (c : Candidate) (model : String) :
    List (String × String) → Nat → List Call
| [], _ => []
| _ :: _, 0 => []
| k :: rest, budget + 1 =>
    let call : Call := ⟨c.providerId, k.1, k.2, model⟩
    match env.dispatch call c.model with
    | .denied => []
    | .answered a =>
        call ::
          if (Result.answered a).isKeyFailure then
            callsOf c model rest budget
          else []

/- The calls of a candidate that comes first, and of a hop. -/
def firstCalls (c : Candidate) (budget : Nat) : List Call :=
  if shared env c && openFirst env c then
    callsOf env c (env.upstreamModel c.model) (poolKeys env c) budget
  else []

def hopCalls (c : Candidate) (budget : Nat) : List Call :=
  if shared env c && openHop env c then
    callsOf env c c.model ((poolKeys env c).filter isKeyed) budget
  else []

variable {env} {c : Candidate} (name model : String) (keyLabel : Option String)

theorem sent_tried (call : Call) (r : Result) (es : List Entry) :
    sent (.tried name model keyLabel call r :: es) =
      match r with
      | .denied => sent es
      | .answered _ => call :: sent es := by
  cases r with
  | denied => rfl
  | answered a => rfl

theorem callsOf_zero (model : String) (keys : List (String × String)) :
    callsOf env c model keys 0 = [] := by
  cases keys with
  | nil => rfl
  | cons k rest => rfl

theorem sent_keyLoop (labels : List String) (r : Result) (budget : Nat) :
    sent (keyLoop env (env.providerNameFromModel c.model) c labels r budget) =
      if r.isKeyFailure then
        callsOf env c (env.upstreamModel c.model) (admitted env c labels) budget
      else [] := by
  induction labels generalizing r budget with
  | nil => simp [keyLoop, sent, admitted, callsOf]
  | cons label rest ih =>
    cases hFailure : r.isKeyFailure with
    | false => simp [keyLoop, hFailure, sent]
    | true =>
      cases budget with
      | zero => simp [keyLoop, sent, callsOf_zero]
      | succ budget =>
        rw [keyLoop]
        simp only [hFailure, Bool.not_true, Bool.false_or, succ_ne_zero, decide_false,
          Bool.false_eq_true, if_false, if_true]
        cases hKey : env.resolve c.providerId label with
        | found key =>
          by_cases hAdmits : env.admits (env.providerNameFromModel c.model) c.providerId label
          · simp only [if_pos hAdmits]
            rw [sent_tried, ih]
            simp only [admitted, filterMap_cons, hKey, if_pos hAdmits, callsOf, Nat.add_sub_cancel]
            split
            · next hDenied =>
                simp [hDenied, Result.isKeyFailure]
            · next a hAnswer => simp [hAnswer]
          · simp only [if_neg hAdmits]
            have hSkip :
                ∀ reason es,
                  sent (.skipped
                    (env.providerNameFromModel c.model)
                    c.model reason (some label) :: es) = sent es :=
              fun _ _ => rfl
            rw [hSkip, ih, hFailure]
            simp [admitted, hKey, hAdmits]
        | _ =>
          simp only
          rw [ih, hFailure]
          simp [admitted, hKey]

/- The first admitted key, and the labels after it. -/
theorem pickKey_cases (pooled : Bool) (labels : List String) (skips : List Entry) :
    (∃ k,
        pickKey env (env.providerNameFromModel c.model) c pooled
          labels skips = .ok k ∧
          admitted env c labels = (k.label, k.key) :: admitted env c k.cursor) ∨
      (∃ es,
        pickKey env (env.providerNameFromModel c.model) c pooled
          labels skips = .error es ∧
          admitted env c labels = []) := by
  induction labels generalizing skips with
  | nil => exact .inr ⟨skips, rfl, rfl⟩
  | cons label rest ih =>
    rw [pickKey]
    simp only [admitted, filterMap_cons]
    cases hKey : env.resolve c.providerId label with
    | found key =>
      by_cases hAdmits : env.admits (env.providerNameFromModel c.model) c.providerId label
      · simp only [if_pos hAdmits]
        exact .inl ⟨_, rfl, rfl⟩
      · simp only [if_neg hAdmits]
        exact ih _
    | _ => exact ih _

/- What the gates of a first target let through. -/
theorem selectCandidate_cases (env : Env) (c : Candidate) :
    (∃ k, selectCandidate env c = .ok k ∧
        (shared env c && openFirst env c) = true ∧
        poolKeys env c = (k.label, k.key) :: admitted env c k.cursor) ∨
      (∃ skip, selectCandidate env c = .error skip ∧
        ((shared env c && openFirst env c) = false ∨ poolKeys env c = [])) := by
  unfold selectCandidate shared openFirst
  simp only
  split
  · next hKilled => exact .inr ⟨_, rfl, by simp [hKilled]⟩
  split
  · next hZdr => exact .inr ⟨_, rfl, by simp_all⟩
  split
  · next hPolicy => exact .inr ⟨_, rfl, by simp_all⟩
  split
  · next hPrice => exact .inr ⟨_, rfl, by simp_all⟩
  split
  · next hSupport => exact .inr ⟨_, rfl, by simp_all⟩
  next hKilled hZdr hPolicy hPrice hSupport =>
  have hOpen :
      (!env.killed (env.providerNameFromModel c.model) &&
          env.policyAllows c.model c.providerId &&
          !(env.callerBudgeted && env.unpriced c.model) &&
        ((!env.zdrRequired || env.eligible c.providerId) &&
          env.supported c.providerId (env.upstreamModel c.model))) = true := by
    grind
  rcases pickKey_cases (env.poolLabels c.providerId).pooled
      (env.poolLabels c.providerId).labels [] with
    ⟨k, hPick, hKeys⟩ | ⟨es, hPick, hKeys⟩
  · rw [hPick]
    exact .inl ⟨k, rfl, hOpen, hKeys⟩
  · rw [hPick]
    right
    cases es with
    | nil | cons _ _ => exact ⟨_, rfl, .inr hKeys⟩

theorem selectCandidate_ok_iff :
    (∃ k, selectCandidate env c = .ok k) ↔
      shared env c = true ∧ openFirst env c = true ∧ poolKeys env c ≠ [] := by
  rw [← and_assoc, ← Bool.and_eq_true]
  rcases selectCandidate_cases env c with ⟨k, hSelect, hOpen, hKeys⟩ | ⟨skip, hSelect, hShut⟩
  · simp [hSelect, hOpen, hKeys]
  · rw [hSelect]
    constructor
    · rintro ⟨k, hOk⟩
      cases hOk
    · rintro ⟨hOpen, hKeys⟩
      rcases hShut with hShut | hShut
      · rw [hOpen] at hShut
        cases hShut
      · exact absurd hShut hKeys

variable {budget : Nat}

theorem sent_served (hBudget : 0 < budget) :
    sent (served env c budget) = firstCalls env c budget := by
  unfold served firstCalls
  rcases selectCandidate_cases env c with ⟨k, hSelect, hOpen, hKeys⟩ | ⟨skip, hSelect, hShut⟩
  · rcases exists_eq_succ_of_ne_zero (ne_of_gt hBudget) with ⟨n, rfl⟩
    rw [hSelect, if_pos hOpen, hKeys, callsOf]
    simp only [firstTries]
    rw [sent_tried, sent_keyLoop]
    simp only [Nat.succ_eq_add_one, Nat.add_sub_cancel]
    split
    · next hDenied => simp [hDenied, Result.isKeyFailure]
    · next a hAnswer => simp [hAnswer]
  · rw [hSelect]
    rcases hShut with hShut | hShut
    · simp [sent, hShut]
    · simp [sent, hShut, callsOf]

--
-- The Hop
--

theorem sent_hopKeys (env : Env) (c : Candidate) (pooled : Bool) (labels : List String)
    (budget : Nat) :
    sent (hopKeys env (env.providerNameFromModel c.model) c pooled labels budget).entries =
      callsOf env c c.model ((admitted env c labels).filter isKeyed) budget := by
  induction labels generalizing budget with
  | nil => rfl
  | cons label rest ih =>
    cases budget with
    | zero => simp [hopKeys, sent, callsOf_zero]
    | succ budget =>
      rw [hopKeys]
      simp only [succ_ne_zero, if_false, admitted, filterMap_cons]
      cases hKey : env.resolve c.providerId label with
      | found key =>
        by_cases hEmpty : key = ""
        · simp only [if_pos hEmpty, ih]
          by_cases hAdmits : env.admits (env.providerNameFromModel c.model) c.providerId label
          · simp [hAdmits, admitted, isKeyed, hEmpty]
          · simp [hAdmits, admitted]
        by_cases hAdmits : env.admits (env.providerNameFromModel c.model) c.providerId label
        · simp only [if_neg hEmpty, if_pos hAdmits]
          have hKeyed : isKeyed (label, key) = true := by simp [isKeyed, hEmpty]
          rw [filter_cons_of_pos hKeyed, callsOf]
          split
          · next hAgain =>
              rw [Bool.and_eq_true] at hAgain
              rw [sent_tried, ih]
              simp only [Nat.add_sub_cancel]
              split
              · next hDenied =>
                  simp [hDenied, Result.isKeyFailure] at hAgain
              · next a hAnswer =>
                  rw [hAnswer] at hAgain
                  simp [hAgain.1, admitted]
          · next hStops =>
              rw [sent_tried]
              split
              · next hDenied => simp [hDenied, sent]
              · next a hAnswer =>
                  simp only [hAnswer, Bool.and_eq_true, not_and] at hStops
                  simp only [hAnswer, sent, filterMap_nil]
                  split
                  · next hFailure =>
                      have hNil := hStops hFailure
                      simp at hNil
                      simp [hNil, callsOf]
                  · rfl
        · simp only [if_neg hEmpty, if_neg hAdmits]
          exact ih _
      | _ => exact ih _

@[simp] theorem triedCount_tried (call : Call) (r : Result) (es : List Entry) :
    triedCount (.tried name model keyLabel call r :: es) = triedCount es + 1 :=
  countP_cons_of_pos rfl

@[simp] theorem triedCount_skipped (reason : Reason) (keyLabel : Option String) (es : List Entry) :
    triedCount (.skipped name model reason keyLabel :: es) = triedCount es :=
  countP_cons_of_neg (by simp)

/- What the keys of a hop say of it. -/
structure HopKeys.Tells (keys : HopKeys) (tries found : Bool) : Prop where
  tried : triedCount keys.entries ≠ 0 ↔ tries = true
  keyed : keys.keyed = found
  recorded : keys.keyed = true → keys.entries ≠ []
  result : keys.result = none ↔ triedCount keys.entries = 0

theorem hopKeys_tells (env : Env) (c : Candidate) (pooled : Bool) (labels : List String)
    (hBudget : 0 < budget) :
    (hopKeys env (env.providerNameFromModel c.model) c pooled labels budget).Tells
      (!((admitted env c labels).filter isKeyed).isEmpty)
      (!unkeyed env c labels) := by
  induction labels with
  | nil =>
    exact ⟨by simp [hopKeys, triedCount, admitted], rfl,
      nofun, by simp [hopKeys, triedCount]⟩
  | cons label rest ih =>
    rw [hopKeys]
    simp only [ne_of_gt hBudget, if_false, admitted, unkeyed, filterMap_cons, all_cons]
    cases hKey : env.resolve c.providerId label with
    | found key =>
      by_cases hEmpty : key = ""
      · simp only [hEmpty, decide_true, if_true, Bool.true_and]
        by_cases hAdmits : env.admits (env.providerNameFromModel c.model) c.providerId label
        · simp only [if_pos hAdmits]
          rw [filter_cons_of_neg (by simp [isKeyed])]
          exact ih
        · simp only [if_neg hAdmits]
          exact ih
      by_cases hAdmits : env.admits (env.providerNameFromModel c.model) c.providerId label
      · simp only [if_neg hEmpty, if_pos hAdmits]
        have hKeyed : isKeyed (label, key) = true := by simp [isKeyed, hEmpty]
        rw [filter_cons_of_pos hKeyed]
        split
        · exact ⟨by simp, by simp [hEmpty], by simp,
            by simp⟩
        · exact ⟨by simp, by simp [hEmpty], by simp,
            by simp⟩
      · simp only [if_neg hEmpty, if_neg hAdmits]
        refine ⟨?_, by simp [hEmpty], by simp, ?_⟩
        · rw [triedCount_skipped]
          exact ih.tried
        · rw [triedCount_skipped]
          exact ih.result
    | _ =>
      simp only [Bool.true_and]
      exact ih

theorem no_keys_of_unkeyed {labels : List String} (hUnkeyed : unkeyed env c labels = true) :
    (admitted env c labels).filter isKeyed = [] := by
  rw [filter_eq_nil_iff]
  intro k hK
  rcases mem_filterMap.mp hK with ⟨label, hLabel, hSome⟩
  have hEmpty := all_eq_true.mp hUnkeyed label hLabel
  cases hKey : env.resolve c.providerId label with
  | found key =>
    simp only [hKey, decide_eq_true_eq, ite_none_right_eq_some, some.injEq] at hEmpty hSome
    simp [← hSome.2, isKeyed, hEmpty]
  | _ => simp [hKey] at hSome

/- What a hop does with a candidate of the plan. -/
structure Hop.Serves (env : Env) (c : Candidate) (budget : Nat) (h : Hop) : Prop where
  tried :
    triedCount h.entries ≠ 0 ↔
      (shared env c && openHop env c) = true ∧ (poolKeys env c).filter isKeyed ≠ []
  calls : sent h.entries = hopCalls env c budget
  passed :
    triedCount h.entries = 0 →
      ((h.entries ≠ [] ∧ h.ended = .skipped) ∨
        (h.ended = .refused ∧ (shared env c && openHop env c) = true ∧ kmsRefuses env c = true))
  refused :
    (shared env c && openHop env c) = true → kmsRefuses env c = true → h.ended = .refused

/- Refused at a gate. -/
theorem serves_of_shut (hShut : (shared env c && openHop env c) = false) (reason : Reason) :
    Hop.Serves env c budget
      ⟨[.skipped (env.providerNameFromModel c.model) c.model reason none], .skipped, budget⟩ where
  tried := by simp [hShut, triedCount]
  calls := by simp [hopCalls, hShut, sent]
  passed := fun _ => .inl ⟨by simp, rfl⟩
  refused := by simp [hShut]

theorem hop_serves (hId : env.providerIdForModel c.model = some c.providerId)
    (hBudget : 0 < budget) :
    Hop.Serves env c budget (hop env (env.providerNameFromModel c.model) c.model budget) := by
  unfold hop
  simp only [hId]
  split
  · exact serves_of_shut (by simp_all [shared]) _
  split
  · exact serves_of_shut (by simp_all [openHop]) _
  split
  · exact serves_of_shut (by simp_all [shared]) _
  split
  · exact serves_of_shut (by simp_all [shared]) _
  split
  · exact serves_of_shut (by simp_all [openHop]) _
  next hPrice hZdr hKilled hPolicy hSupport =>
  have hOpen : (shared env c && openHop env c) = true := by
    unfold shared openHop
    grind
  have hSent := sent_hopKeys env c (env.poolLabels c.providerId).pooled
    (env.poolLabels c.providerId).labels budget
  have hTells := hopKeys_tells env c (env.poolLabels c.providerId).pooled
    (env.poolLabels c.providerId).labels hBudget
  generalize hopKeys env (env.providerNameFromModel c.model) c (env.poolLabels c.providerId).pooled
    (env.poolLabels c.providerId).labels budget = keys at hSent hTells ⊢
  have hTried :
      triedCount keys.entries ≠ 0 ↔
        (shared env c && openHop env c) = true ∧ (poolKeys env c).filter isKeyed ≠ [] := by
    rw [hTells.tried, Bool.not_eq_true', isEmpty_eq_false_iff, and_iff_right hOpen]
    rfl
  have hCalls : sent keys.entries = hopCalls env c budget := by
    rw [hopCalls, if_pos hOpen]
    exact hSent
  cases hKeyed : keys.keyed with
  | true =>
    have hKms : kmsRefuses env c = false := by
      rw [hTells.keyed] at hKeyed
      simp_all [kmsRefuses]
    simp only [if_true]
    split
    · next r hResult =>
        refine ⟨hTried, hCalls, fun hNone => ?_, by simp [hKms]⟩
        rw [hTells.result.mpr hNone] at hResult
        cases hResult
    · exact ⟨hTried, hCalls, fun _ => .inl ⟨hTells.recorded hKeyed, rfl⟩, by simp [hKms]⟩
  | false =>
    have hUnkeyed : unkeyed env c (env.poolLabels c.providerId).labels = true := by
      rw [hTells.keyed] at hKeyed
      simpa using hKeyed
    have hNone : (poolKeys env c).filter isKeyed = [] := no_keys_of_unkeyed hUnkeyed
    have hNothing :
        (triedCount [] ≠ 0 ↔
            (shared env c && openHop env c) = true ∧ (poolKeys env c).filter isKeyed ≠ []) ∧
          [] = hopCalls env c budget := by
      simp [hopCalls, hNone, triedCount, callsOf]
    have hRefused (hKms : kmsRefuses env c = true) :
        Hop.Serves env c budget ⟨[], .refused, budget⟩ :=
      ⟨hNothing.1, hNothing.2, fun _ => .inr ⟨rfl, hOpen, hKms⟩, fun _ _ => rfl⟩
    simp only [Bool.false_eq_true, if_false]
    split
    · next hFailure => exact hRefused (by simp [kmsRefuses, hUnkeyed, hFailure])
    · next hFailure => exact hRefused (by simp [kmsRefuses, hUnkeyed, hFailure])
    · next hUnavailable hDenied =>
        have hKms : kmsRefuses env c = false := by
          rw [Bool.eq_false_iff]
          intro hKms
          simp only [kmsRefuses, Bool.and_eq_true, Bool.or_eq_true, decide_eq_true_eq] at hKms
          exact hKms.2.elim hUnavailable hDenied
        refine ⟨?_, ?_, fun _ => .inl ⟨by simp, rfl⟩, by simp [hKms]⟩
        · rw [triedCount_skipped]
          exact hNothing.1
        · exact hNothing.2

--
-- The Loop
--

/- The loop comes to a candidate after the one chosen first. -/
theorem run_reaches (maxAttempts : Nat) (chain : List (String × String)) {before : List Candidate}
    (hChosen : ∃ p ∈ before, ∃ k, selectCandidate env p = .ok k)
    (c : Candidate) (after : List Candidate) (skips : List Entry) :
    run env maxAttempts chain (before ++ c :: after) skips =
      (hopsOf env after ++ chain).foldl (hopStep env)
        (hopStep env (run env maxAttempts [] before skips) (hopOf env c)) := by
  induction before generalizing skips with
  | nil =>
    rcases hChosen with ⟨p, hP, _⟩
    cases hP
  | cons p before ih =>
    rw [cons_append, run, run]
    cases hSelect : selectCandidate env p with
    | error skip =>
      apply ih
      rcases hChosen with ⟨q, hQ, k, hOk⟩
      rcases mem_cons.mp hQ with rfl | hQ
      · rw [hSelect] at hOk
        cases hOk
      · exact ⟨q, hQ, k, hOk⟩
    | ok k =>
      simp [hopsOf, hopOf]

theorem hopStep_going {s : State} (hGoing : s.going = true) (hBudget : 0 < s.budget) :
    added env s c = (hop env (hopOf env c).1 c.model s.budget).entries ∧
      ((hopStep env s (hopOf env c)).going = true ↔
        (hop env (hopOf env c).1 c.model s.budget).ended ≠ .refused ∧
          (hop env (hopOf env c).1 c.model s.budget).ended ≠ .tried (.answered .ok)) := by
  unfold added hopStep
  simp only [hGoing, hBudget, decide_true, Bool.and_self, if_true, drop_left, hopOf, true_and]
  exact decide_eq_true_iff

variable {c : Candidate} {env : Env}

/- Keys that are all refused are all sent, in order. -/
theorem callsOf_all (model : String) {keys : List (String × String)}
    (hCheck : ∀ k ∈ keys, env.check ⟨c.providerId, k.1, k.2, model⟩ c.model = true)
    (hRefused : ∀ call, env.answers call = .status 401) (hBudget : keys.length ≤ budget) :
    callsOf env c model keys budget = keys.map (fun k => ⟨c.providerId, k.1, k.2, model⟩) := by
  induction keys generalizing budget with
  | nil => rfl
  | cons k keys ih =>
    cases budget with
    | zero => cases hBudget
    | succ budget =>
      rw [callsOf, Env.dispatch, if_pos (hCheck k mem_cons_self), hRefused]
      simp only [Result.isKeyFailure, decide_true, Bool.true_or, if_true, map_cons]
      rw [ih (fun k hK => hCheck k (mem_cons_of_mem _ hK)) (le_of_succ_le_succ hBudget)]

theorem callsOf_refused (hLive : env.live c.providerId c.model = false)
    (model : String) (keys : List (String × String)) (budget : Nat) :
    callsOf env c model keys budget = [] := by
  cases keys with
  | nil => rfl
  | cons k keys =>
    cases budget with
    | zero => rfl
    | succ budget => simp [callsOf, Env.dispatch, Env.check, hLive]

theorem resolve_of_mem {k : String × String} (hK : k ∈ poolKeys env c) :
    env.resolve c.providerId k.1 = .found k.2 := by
  rcases mem_filterMap.mp hK with ⟨label, _, hSome⟩
  cases hKey : env.resolve c.providerId label with
  | found key =>
    simp only [hKey, ite_none_right_eq_some, some.injEq] at hSome
    rw [← hSome.2]
    exact hKey
  | _ => simp [hKey] at hSome

--
-- First Or Later
--

/- What being served alike comes to, for one state. -/
theorem alike_iff (env : Env) (hId : env.providerIdForModel c.model = some c.providerId) {s : State}
    (hGoing : s.going = true) (hBudget : 0 < s.budget) :
    Alike env s c ↔
      ((shared env c && openHop env c) = true ∧ (poolKeys env c).filter isKeyed ≠ [] ↔
          shared env c = true ∧ openFirst env c = true ∧ poolKeys env c ≠ []) ∧
        hopCalls env c s.budget = firstCalls env c s.budget ∧
        (barred env c = true →
          (shared env c && openHop env c) = true →
            ¬ ((poolKeys env c).filter isKeyed ≠ [] ∨ kmsRefuses env c = true)) := by
  have hServes := hop_serves hId hBudget
  rcases hopStep_going hGoing hBudget with ⟨hAdded, hGoes⟩
  rw [← hServes.tried, ← hServes.calls, ← sent_served hBudget, ← selectCandidate_ok_iff]
  constructor
  · rintro ⟨hDispatched, hCalls, hSkipped⟩
    rw [hAdded, Nat.pos_iff_ne_zero] at hDispatched
    rw [hAdded] at hCalls hSkipped
    refine ⟨hDispatched, hCalls, ?_⟩
    rintro hBarred hOpen (hKeys | hKms)
    · exact hServes.tried.mpr ⟨hOpen, hKeys⟩ (hSkipped hBarred).1
    · exact (hGoes.mp (hSkipped hBarred).2.2).1 (hServes.refused hOpen hKms)
  · rintro ⟨hDispatched, hCalls, hSkipped⟩
    refine ⟨?_, ?_, ?_⟩
    · rw [hAdded, Nat.pos_iff_ne_zero]
      exact hDispatched
    · rw [hAdded]
      exact hCalls
    · intro hBarred
      have hNone : triedCount (hop env (hopOf env c).1 c.model s.budget).entries = 0 := by
        by_contra hTried
        rcases hServes.tried.mp hTried with ⟨hOpen, hKeys⟩
        exact hSkipped hBarred hOpen (.inl hKeys)
      rw [hAdded, hGoes]
      rcases hServes.passed hNone with ⟨hRecorded, hEnded⟩ | ⟨_, hOpen, hKms⟩
      · refine ⟨hNone, hRecorded, ?_⟩
        constructor
        · rw [hopOf, hEnded]
          exact nofun
        · rw [hopOf, hEnded]
          exact nofun
      · exact absurd (.inr hKms) (hSkipped hBarred hOpen)

theorem Agrees.calls_eq (hAgrees : Agrees env c) (budget : Nat) :
    hopCalls env c budget = firstCalls env c budget := by
  unfold hopCalls firstCalls
  cases hShared : shared env c with
  | false => rfl
  | true =>
    rcases hAgrees hShared with ⟨hSame, _, hSends⟩
    simp only [Bool.true_and]
    by_cases hHop : openHop env c = true ∧ (poolKeys env c).filter isKeyed ≠ []
    · rw [if_pos hHop.1, if_pos (hSame.mpr hHop).1]
      cases hLive : env.live c.providerId c.model with
      | false => rw [callsOf_refused hLive, callsOf_refused hLive]
      | true =>
        rcases hSends hHop.1 hHop.2 hLive with ⟨hModel, hKeyed⟩
        rw [hModel, filter_eq_self.mpr hKeyed]
    · have hNil :
          ∀ {open_ : Bool} {model : String}
            {keys : List (String × String)},
            ¬ (open_ = true ∧ keys ≠ []) →
              (if open_ then callsOf env c model keys budget
                else []) = [] := by
        intro open_ model keys hNot
        cases open_ with
        | false => rfl
        | true =>
          have hKeys : keys = [] := by
            by_contra hKeys
            exact hNot ⟨rfl, hKeys⟩
          rw [hKeys]
          rfl
      rw [hNil hHop, hNil (fun hFirst => hHop (hSame.mp hFirst))]

theorem routed_of_mem {targets : List String} (hC : c ∈ env.candidates targets) :
    env.providerIdForModel c.model = some c.providerId := by
  rcases mem_filterMap.mp hC with ⟨model, _, hSome⟩
  rcases map_eq_some_iff.mp hSome with ⟨id, hId, rfl⟩
  exact hId

/- With every key refused, all keys are sent. -/
theorem sends_of_alike (hId : env.providerIdForModel c.model = some c.providerId)
    (hRefused : ∀ call, env.answers call = .status 401)
    (hAlike : Alike env ⟨[], (poolKeys env c).length, true⟩ c)
    (hOpen : (shared env c && openHop env c) = true) (hKeys : (poolKeys env c).filter isKeyed ≠ [])
    (hBarred : barred env c = false) (hLive : env.live c.providerId c.model = true) :
    env.upstreamModel c.model = c.model ∧ ∀ k ∈ poolKeys env c, isKeyed k = true := by
  cases hPool : poolKeys env c with
  | nil =>
    rw [hPool] at hKeys
    exact absurd rfl hKeys
  | cons k rest =>
    rcases (alike_iff env hId rfl (by simp [hPool])).mp hAlike with ⟨hSame, hCalls, _⟩
    have hFirst := hSame.mp ⟨hOpen, hKeys⟩
    have hCheck :
        ∀ model, ∀ k ∈ poolKeys env c,
          env.check ⟨c.providerId, k.1, k.2, model⟩ c.model = true := by
      intro model k hK
      have hResolve := resolve_of_mem hK
      simp only [barred, Bool.or_eq_false_iff] at hBarred
      simp only [Env.check, hLive, hBarred.1, hResolve]
      grind
    rw [hopCalls, firstCalls, if_pos hOpen,
      if_pos (Bool.and_eq_true_iff.mpr ⟨hFirst.1, hFirst.2.1⟩),
      callsOf_all _ (fun k hK => hCheck _ k (mem_of_mem_filter hK)) hRefused (length_filter_le _ _),
      callsOf_all _ (hCheck _) hRefused (le_refl _)]
      at hCalls
    have hKeyed := congrArg length hCalls
    rw [length_map, length_map, length_filter_eq_length_iff] at hKeyed
    rw [filter_eq_self.mpr hKeyed, hPool] at hCalls
    simp only [map_cons, cons.injEq, Call.mk.injEq] at hCalls
    rw [← hPool]
    exact ⟨hCalls.1.2.2.2.symm, hKeyed⟩

/-
  The loop comes to every candidate after the chosen one; and whatever the providers answer, it
  serves one as if it had been first exactly when the two gate sequences agree on it.
-/
theorem hop_alike_iff (env : Env) {targets : List String} {c : Candidate}
    (hC : c ∈ env.candidates targets) :
    (∀ maxAttempts chain before after,
        (∃ p ∈ before, ∃ k, selectCandidate env p = .ok k) →
          run env maxAttempts chain (before ++ c :: after) [] =
            (hopsOf env after ++ chain).foldl (hopStep env)
              (hopStep env (run env maxAttempts [] before []) (hopOf env c))) ∧
      ((∀ answers s, s.going = true → 0 < s.budget → Alike { env with answers := answers } s c) ↔
        Agrees env c) := by
  have hId := routed_of_mem hC
  refine ⟨fun maxAttempts chain before after hChosen =>
    run_reaches maxAttempts chain hChosen c after [], ?_, ?_⟩
  · intro hAlike hShared
    have hSame := (alike_iff env hId rfl one_pos).mp (hAlike env.answers ⟨[], 1, true⟩ rfl one_pos)
    simp only [hShared, Bool.true_and, true_and] at hSame
    have hBarred :
        openHop env c = true →
          (poolKeys env c).filter isKeyed ≠ [] ∨ kmsRefuses env c = true →
            barred env c = false := by
      intro hOpen hAny
      rw [Bool.eq_false_iff]
      exact fun hBarred => hSame.2.2 hBarred hOpen hAny
    refine ⟨hSame.1.symm, hBarred, ?_⟩
    intro hOpen hKeys hLive
    let refusing := { env with answers := fun _ => .status 401 }
    have hBudget : 0 < (poolKeys env c).length := by
      rw [length_pos_iff]
      exact (hSame.1.mp ⟨hOpen, hKeys⟩).2
    have hSends : refusing.upstreamModel c.model = c.model ∧
        ∀ k ∈ poolKeys refusing c, isKeyed k = true :=
      sends_of_alike hId (fun _ => rfl) (hAlike _ ⟨[], _, true⟩ rfl hBudget)
        (Bool.and_eq_true_iff.mpr ⟨hShared, hOpen⟩) hKeys (hBarred hOpen (.inl hKeys)) hLive
    exact hSends
  · intro hAgrees answers s hGoing hBudget
    let env' := { env with answers := answers }
    have hAgrees' : Agrees env' c := hAgrees
    refine (alike_iff env' hId hGoing hBudget).mpr ⟨?_, hAgrees'.calls_eq _, ?_⟩
    · cases hShared : shared env' c with
      | false => simp
      | true => simpa using (hAgrees' hShared).1.symm
    · intro hBarred hOpen hAny
      rw [Bool.and_eq_true] at hOpen
      rw [(hAgrees' hOpen.1).2.1 hOpen.2 hAny] at hBarred
      cases hBarred

/- Two providers, a key each; `fast` is an operator's alias. -/
def sampleEnv : Env where
  killed := fun _ => false
  zdrRequired := false
  eligible := fun _ => false
  callerBudgeted := false
  unpriced := fun _ => false
  policyAllows := fun _ _ => true
  aliasOf := fun model =>
    if model = "fast" then some ⟨"openai", "gpt-4o-mini"⟩
    else none
  registry := fun model =>
    if model = "gpt-4o" then some "openai" else some "anthropic"
  supported := fun _ _ => true
  poolLabels := fun _ => ⟨["default"], false⟩
  resolve := fun _ _ => .found "k"
  admits := fun _ _ _ => true
  live := fun _ _ => true
  answers := fun call =>
    if call.providerId = "anthropic" then .status 500 else .ok

/- As a fallback, the alias itself goes out as the model. -/
theorem alias_sent_as_fallback :
    sent (run sampleEnv 3 []
        (sampleEnv.candidates ["claude", "fast"]) []).ledger =
        [⟨"anthropic", "default", "k", "claude"⟩, ⟨"openai", "default", "k", "fast"⟩] ∧
      sent (run sampleEnv 3 []
        (sampleEnv.candidates ["fast"]) []).ledger =
        [⟨"openai", "default", "k", "gpt-4o-mini"⟩] := by
  decide

theorem plain_model_alike :
    Alike sampleEnv ⟨[], 2, true⟩ ⟨"gpt-4o", "openai"⟩ :=
  (hop_alike_iff sampleEnv
    (show _ ∈ sampleEnv.candidates ["claude", "gpt-4o"] by
      decide)).2.mpr
    (by unfold Agrees; decide) sampleEnv.answers _ rfl
    (by decide)

end Hops

end Tracelane.Chat
