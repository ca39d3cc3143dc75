import Mathlib.Data.Rat.Defs
import Mathlib.Data.Set.Card
import Mathlib.Order.Interval.Finset.Nat
import Tracelane.Lib.Bytes
import Tracelane.Lib.Shares
import Tracelane.Lib.StrSlice

/-
  Splits of a routing rule over weighted arms, by a sticky bucket of the caller. What a rule
  matches, and how a target becomes a plan, is not part of it.
-/

namespace Tracelane.Routing

open List Nat

def maxRules : Nat := 64

def maxArms : Nat := 8

def maxMatchValueBytes : Nat := 256

def stickyKeyMaxBytes : Nat := 128

def matchHeaderDenylist : List String :=
  ["authorization", "proxy-authorization", "cookie", "set-cookie",
    "x-api-key", "api-key", "x-goog-api-key", "x-tracelane-zdr"]

inductive Missing where
| stable
| random
| refuse

structure Arm where
  name : String
  routeTo : String
  bp : Option Nat

structure Split where
  stickyBy : List String
  onMissingIdentity : Missing
  arms : List Arm

structure Action where
  routeTo : Option String
  split : Option Split

structure Rule where
  id : String
  action : Action
  salt : String

structure FieldError where
  code : String
  field : String
  message : String
deriving DecidableEq

def invalid (index : Nat) (message : String) : FieldError :=
  ⟨"invalid_rule", s!"rules[{index}]", message⟩

def bounded (value : String) : Bool :=
  !value.isEmpty && value.utf8ByteSize ≤ maxMatchValueBytes

/- `headerName` tells the names that are valid in HTTP. -/
def headerOk (headerName : String → Bool) (name : String) : Bool :=
  bounded name && headerName name &&
    !matchHeaderDenylist.any (fun s => StrSlice.eqIgnoreAsciiCase (chars s) (chars name))

def stickyHeader (s : String) : Option String :=
  (s.dropPrefix? "header:").map (fun h => h.toString)

def stickyOk (headerName : String → Bool) (s : String) : Bool :=
  match stickyHeader s with
  | some h => headerOk headerName h
  | none => s = "end_user" || s = "session" || s = "key"

/- The sum of the basis points of all arms but the last. -/
def validateArms (bad : String → FieldError) :
    List String → Nat → List Arm → Except FieldError Nat
| _, sum, [] => .ok sum
| names, sum, a :: rest =>
    if !bounded a.name || names.contains a.name then
      .error (bad "arm names must be bounded, nonempty and unique")
    else if rest.isEmpty then
      if a.bp.isSome then
        .error (bad "last arm must be the remainder, without bp")
      else .ok sum
    else
      match a.bp.filter (· ≤ 10000) with
      | none => .error (bad "non-final arms require bp between 0 and 10000")
      | some bp => validateArms bad (a.name :: names) (sum + bp) rest

def validateSplit (headerName : String → Bool) (bad : String → FieldError)
    (stored : Bool) (r : Rule) (s : Split) : Except FieldError Unit :=
  if stored && !bounded r.salt then
    .error (bad "stored split has no valid server salt")
  else if s.arms.length < 2 || s.arms.length > maxArms then
    .error (bad "split needs between two and max_arms arms")
  else
    match validateArms bad [] 0 s.arms with
    | .error e => .error e
    | .ok sum =>
        if sum > 10000 then
          .error (bad "arm basis points exceed 10000")
        else if s.stickyBy.length > maxRules ||
            s.stickyBy.any (fun v => !stickyOk headerName v) then
          .error (bad "invalid or denied sticky source")
        else .ok ()

def validateAction (headerName : String → Bool) (index : Nat) (stored : Bool)
    (r : Rule) : Except FieldError Unit :=
  if r.action.routeTo.isSome = r.action.split.isSome then
    .error (invalid index "choose exactly one action: route_to or split")
  else
    match r.action.split with
    | none => .ok ()
    | some s => validateSplit headerName (invalid index) stored r s

--
-- The Arm Chosen
--

/- `headers` gives the value of a header that is plain text. -/
structure Facts where
  headers : String → Option String
  keyId : Option String
  endUser : Option String
  session : Option String
  traceId : String

inductive PlanError where
| routingInvalid
| identityRequired

/- The namespace is the JSON text of the triple kept here. -/
structure Assignment where
  rule : String
  arm : Option String := none
  bucket : Option Nat := none
  stickySource : Option String := none
  nonSticky : Bool := false
  armPct : Option ℚ := none
  armNamespace : Option (String × String × String) := none

def identity (split : Split) (f : Facts) : Option (String × String) :=
  split.stickyBy.findSome? (fun s =>
    let found : String × Option String :=
      match stickyHeader s with
      | some h => ("header", f.headers h)
      | none =>
          if s = "end_user" then (s, f.endUser)
          else if s = "session" then (s, f.session)
          else if s = "key" then (s, f.keyId)
          else ("none", none)
    (found.2.filter (fun v =>
      !v.isEmpty && v.utf8ByteSize ≤ stickyKeyMaxBytes)).map (fun v => (found.1, v)))

/- The first eight bytes of the digest, most significant first. -/
def sampleDraw (blake3 : Bytes → ByteArr 32) (salt : String) (assignmentKey : Bytes) : Nat :=
  ((blake3 (utf8 salt ++ assignmentKey)).bytes.take 8).foldl (fun n b => n * 256 + b.toNat) 0

/- The bucket of a request; none where no identity is needed. -/
def bucketFor (blake3 : Bytes → ByteArr 32) (salt : String) (split : Split)
    (f : Facts) : Except PlanError (Option Nat) :=
  let draw := fun v => sampleDraw blake3 salt (utf8 v) % 10000
  match identity split f, split.onMissingIdentity with
  | some (_, v), _ => .ok (some (draw v))
  | none, .stable => .ok none
  | none, .random => .ok (some (draw f.traceId))
  | none, .refuse => .error .identityRequired

/- The arm a bucket falls on, with its place and its width. -/
def pick (bucket : Option Nat) :
    Nat → List Arm → Option (Nat × Arm × Nat)
| _, [] => none
| lower, arm :: arms =>
    let bp := arm.bp.getD (10000 - lower)
    if bucket.any (· < lower + bp) ||
        bucket.isNone && arm.bp.isNone then
      some (0, arm, bp)
    else
      (pick bucket (lower + bp) arms).map (Prod.map (· + 1) id)

def choose (blake3 : Bytes → ByteArr 32) (rule : Rule)
    (f : Facts) : Except PlanError (String × Assignment) :=
  match rule.action.routeTo, rule.action.split with
  | some target, _ => .ok (target, { rule := rule.id })
  | none, none => .error .routingInvalid
  | none, some split =>
      match bucketFor blake3 rule.salt split f with
      | .error e => .error e
      | .ok bucket =>
          match pick bucket 0 split.arms with
          | none => .error .routingInvalid
          | some (_, arm, bp) =>
              let who := identity split f
              .ok (arm.routeTo,
                { rule := rule.id
                  arm := some arm.name
                  bucket
                  stickySource := some (who.elim "none" Prod.fst)
                  nonSticky := who.isNone
                  armPct := some (bp / 100)
                  armNamespace :=
                    some (rule.salt, rule.id, arm.name) })

/- The place of the arm that `choose` picks. -/
def armFor (blake3 : Bytes → ByteArr 32) (salt : String) (split : Split) (f : Facts) : Option Nat :=
  match bucketFor blake3 salt split f with
  | .error _ => none
  | .ok bucket => (pick bucket 0 split.arms).map Prod.fst

--
-- Valid Arms
--

/- The last arm takes what the others leave of the buckets. -/
inductive Sound : Nat → List Arm → Prop
| last {lower : Nat} {a : Arm} :
    lower ≤ 10000 → a.bp = none → Sound lower [a]
| cons {lower bp : Nat} {a : Arm} {arms : List Arm} :
    a.bp = some bp → Sound (lower + bp) arms → Sound lower (a :: arms)

variable {headerName : String → Bool} {bad : String → FieldError}
variable {stored : Bool} {index lower sum b i k : Nat} {names : List String}
variable {a arm : Arm} {arms : List Arm} {rule : Rule} {split : Split}

theorem Sound.le (hSound : Sound lower arms) : lower ≤ 10000 := by
  induction hSound with
  | last hLower _ => exact hLower
  | cons _ _ ih => exact (le_add_right _ _).trans ih

theorem validateArms_sound (hArms : arms ≠ [])
    (hValid : validateArms bad names lower arms = .ok sum) (hSum : sum ≤ 10000) :
    Sound lower arms := by
  induction arms generalizing names lower with
  | nil => exact absurd rfl hArms
  | cons a rest ih =>
    unfold validateArms at hValid
    split at hValid
    · simp at hValid
    · cases rest with
      | nil =>
        cases hBp : a.bp with
        | some bp => simp [hBp] at hValid
        | none =>
          obtain rfl : lower = sum := by simpa [hBp] using hValid
          exact .last hSum hBp
      | cons a' rest =>
        simp only [isEmpty_cons, Bool.false_eq_true, if_false] at hValid
        split at hValid
        · simp at hValid
        · rename_i bp hFits
          exact .cons (Option.filter_eq_some_iff.mp hFits).1 (ih (by simp) hValid)

theorem validate_sound (hSplit : rule.action.split = some split)
    (hValid : validateAction headerName index stored rule = .ok ()) :
    rule.action.routeTo = none ∧ Sound 0 split.arms := by
  simp only [validateAction, hSplit, validateSplit] at hValid
  split at hValid
  · simp at hValid
  rename_i hOne
  split at hValid
  · simp at hValid
  split at hValid
  · simp at hValid
  rename_i hCount
  split at hValid
  · simp at hValid
  rename_i sum hArms
  split at hValid
  · simp at hValid
  rename_i hSum
  have hSome : split.arms ≠ [] := by
    rintro hNil
    simp [hNil] at hCount
  exact ⟨by simpa using hOne,
    validateArms_sound hSome hArms (by omega)⟩

--
-- Buckets of Arms
--

/- The place of the arm that a bucket falls on. -/
def place (b : Nat) (arms : List Arm) : Option Nat :=
  (pick (some b) 0 arms).map Prod.fst

/- The last arm reaches past the last bucket. -/
def Arm.weight (a : Arm) : Nat :=
  a.bp.getD 10000

/- Where the buckets of the arm at `i` begin. -/
def edge (arms : List Arm) (i : Nat) : Nat :=
  Shares.total Arm.weight (arms.take i)

theorem edge_mono (arms : List Arm) : Monotone (edge arms) := by
  intro i j hLe
  exact ((take_sublist_take_left hLe).map _).sum_le_sum (by simp)

theorem le_of_edges (hLow : edge arms i ≤ b) (hHigh : b < edge arms (k + 1)) :
    i ≤ k := by
  by_contra hGt
  have hEdge : edge arms (k + 1) ≤ edge arms i := edge_mono arms (not_le.mp hGt)
  omega

theorem Sound.pick_some (hSound : Sound lower arms) (hLower : lower ≤ b) (hBucket : b < 10000) :
    ∃ i arm bp, arms[i]? = some arm ∧
      pick (some b) lower arms = some (i, arm, bp) ∧
      lower + edge arms i ≤ b ∧ b < lower + edge arms (i + 1) := by
  induction hSound with
  | @last lower a hEnd hNone =>
    refine ⟨0, a, 10000 - lower, rfl, ?_, ?_⟩
    · have hIn : b < lower + (10000 - lower) := by omega
      simp [pick, hNone, hIn]
    · simp [edge, Shares.total, Arm.weight, hNone]
      omega
  | @cons lower bp a arms hBp hRest ih =>
    by_cases hHere : b < lower + bp
    · refine ⟨0, a, bp, rfl, ?_, ?_⟩
      · simp [pick, hBp, hHere]
      · simpa [edge, Shares.total, Arm.weight, hBp] using ⟨hLower, hHere⟩
    · rcases ih (by omega) with ⟨i, arm, bp', hAt, hPick, hEdges⟩
      refine ⟨i + 1, arm, bp', hAt, ?_, ?_⟩
      · simp [pick, hBp, hHere, hPick]
      · simp [edge, Shares.total, Arm.weight, hBp] at hEdges ⊢
        omega

theorem Sound.pick_none (hSound : Sound lower arms) :
    ∃ arm bp, arms[arms.length - 1]? = some arm ∧
      pick none lower arms = some (arms.length - 1, arm, bp) := by
  induction hSound with
  | @last lower a hEnd hNone =>
    exact ⟨a, 10000 - lower, rfl, by simp [pick, hNone]⟩
  | @cons lower bp a arms hBp hRest ih =>
    rcases ih with ⟨arm, bp', hAt, hPick⟩
    have hSome : arms.length - 1 + 1 = arms.length := by
      cases hRest <;> simp
    refine ⟨arm, bp', ?_, ?_⟩
    · rw [length_cons, Nat.add_sub_cancel, ← hSome]
      exact hAt
    · simp [pick, hBp, hPick, hSome]

theorem Sound.width (hSound : Sound lower arms) (hAt : arms[i]? = some arm) :
    min (lower + edge arms (i + 1)) 10000 - (lower + edge arms i) =
      arm.bp.getD (10000 - (lower + Shares.total (·.bp.getD 0) arms)) := by
  induction hSound generalizing i with
  | @last lower a hEnd hNone =>
    cases i with
    | succ => simp at hAt
    | zero =>
      obtain rfl : a = arm := by simpa using hAt
      simp [edge, Shares.total, Arm.weight, hNone]
  | @cons lower bp a arms hBp hRest ih =>
    cases i with
    | zero =>
      obtain rfl : a = arm := by simpa using hAt
      have hLe := hRest.le
      simp [edge, Shares.total, Arm.weight, hBp]
      omega
    | succ i =>
      have hHere := ih (by simpa using hAt)
      simp [edge, Shares.total, Arm.weight, hBp, ← add_assoc] at hHere ⊢
      exact hHere

/- The place of a bucket is the one whose edges are around it. -/
theorem Sound.place_iff (hSound : Sound 0 arms) (hBucket : b < 10000) :
    place b arms = some i ↔ edge arms i ≤ b ∧ b < edge arms (i + 1) := by
  rcases hSound.pick_some (zero_le b) hBucket with ⟨k, arm, bp, hAt, hPick, hEdges⟩
  simp only [zero_add] at hEdges
  rw [place, hPick, Option.map_some, Option.some_inj]
  constructor
  · rintro rfl
    exact hEdges
  · intro hHere
    exact (le_of_edges hEdges.1 hHere.2).antisymm (le_of_edges hHere.1 hEdges.2)

theorem edge_set_of_le (hLe : k ≤ i) :
    edge (arms.set i a) k = edge arms k := by
  rw [edge, take_set_of_le hLe, edge]

theorem edge_le_set (hAt : arms[i]? = some arm) (hMore : arm.weight ≤ a.weight) (k : Nat) :
    edge arms k ≤ edge (arms.set i a) k := by
  rcases le_or_gt k i with hLe | hGt
  · rw [edge_set_of_le hLe]
  · have hHere : (arms.take k)[i]? = some arm := by rw [getElem?_take_of_lt hGt, hAt]
    have hTotal := Shares.total_set Arm.weight hHere a
    rw [edge, edge, take_set]
    omega

/- The edges up to the raised arm stay, and none moves down. -/
theorem Sound.place_set {j : Nat} (hSound : Sound 0 arms)
    (hRaised : Sound 0 (arms.set i a)) (hAt : arms[i]? = some arm)
    (hMore : arm.weight ≤ a.weight) (hBucket : b < 10000) (hPlace : place b arms = some j) :
    ∃ k ≤ j, (j ≤ i → k = j) ∧ place b (arms.set i a) = some k := by
  rcases hRaised.pick_some (zero_le b) hBucket with ⟨k, _, _, _, hPick, hLow, hHigh⟩
  rw [zero_add] at hLow hHigh
  have hOld := (hSound.place_iff hBucket).mp hPlace
  have hLe : k ≤ j := le_of_edges hLow (hOld.2.trans_le (edge_le_set hAt hMore (j + 1)))
  refine ⟨k, hLe, fun hBefore => hLe.antisymm ?_, by simp [place, hPick]⟩
  rw [← edge_set_of_le hBefore] at hOld
  exact le_of_edges hOld.1 hHigh

--
-- Valid Splits
--

variable {blake3 : Bytes → ByteArr 32}

/- The rule with another arm in the place of one of its arms. -/
def Rule.setArm (rule : Rule) (split : Split) (i : Nat) (arm : Arm) : Rule :=
  { rule with action.split := some { split with arms := split.arms.set i arm } }

structure Divides (blake3 : Bytes → ByteArr 32) (headerName : String → Bool)
    (rule : Rule) (split : Split) : Prop where
  one : ∀ b < 10000, ∃ i < split.arms.length, place b split.arms = some i
  never : ∀ f, choose blake3 rule f ≠ .error .routingInvalid
  routed :
    ∀ f i, armFor blake3 rule.salt split f = some i →
      ∃ arm ∈ split.arms[i]?, ∃ a,
        choose blake3 rule f = .ok (arm.routeTo, a) ∧ a.arm = some arm.name
  share :
    ∀ i, ∀ arm ∈ split.arms[i]?,
      { b | b < 10000 ∧ place b split.arms = some i }.ncard =
        arm.bp.getD (10000 - Shares.total (·.bp.getD 0) split.arms)
  missing :
    ∀ f, identity split f = none →
      split.onMissingIdentity = .stable →
      armFor blake3 rule.salt split f = some (split.arms.length - 1)
  ramp :
    ∀ i arm old new index stored,
      split.arms[i]? = some arm → arm.bp = some old → old ≤ new →
      validateAction headerName index stored
        (rule.setArm split i { arm with bp := some new }) = .ok () →
      ∀ f j, identity split f ≠ none →
        armFor blake3 rule.salt split f = some j →
        ∃ k ≤ j, (j ≤ i → k = j) ∧
          armFor blake3 rule.salt
            { split with arms := split.arms.set i { arm with bp := some new } }
            f = some k

theorem Sound.picks (hSound : Sound 0 split.arms) {f : Facts} {bucket : Option Nat}
    (hBucket : bucketFor blake3 rule.salt split f = .ok bucket) :
    ∃ i arm bp, split.arms[i]? = some arm ∧ pick bucket 0 split.arms = some (i, arm, bp) := by
  cases bucket with
  | none =>
    rcases hSound.pick_none with ⟨arm, bp, hPick⟩
    exact ⟨_, arm, bp, hPick⟩
  | some b =>
    have hLt : b < 10000 := by
      unfold bucketFor at hBucket
      split at hBucket <;> simp at hBucket <;> omega
    rcases hSound.pick_some (zero_le b) hLt with ⟨i, arm, bp, hAt, hPick, _⟩
    exact ⟨i, arm, bp, hAt, hPick⟩

theorem split_divides (hSplit : rule.action.split = some split)
    (hValid : validateAction headerName index stored rule = .ok ()) :
    Divides blake3 headerName rule split := by
  rcases validate_sound hSplit hValid with ⟨hTo, hSound⟩
  constructor
  · intro b hBucket
    rcases hSound.pick_some (zero_le b) hBucket with ⟨i, arm, bp, hAt, hPick, _⟩
    exact ⟨i, (List.getElem?_eq_some_iff.mp hAt).1, by simp [place, hPick]⟩
  · intro f
    simp only [choose, hTo, hSplit]
    split
    · rename_i e hError
      unfold bucketFor at hError
      split at hError <;> cases hError
      nofun
    · rename_i bucket hBucket
      rcases hSound.picks hBucket with ⟨i, arm, bp, _, hPick⟩
      simp [hPick]
  · intro f i hArm
    unfold armFor at hArm
    split at hArm
    · simp at hArm
    · rename_i bucket hBucket
      rcases hSound.picks hBucket with ⟨k, arm, bp, hAt, hPick⟩
      obtain rfl : k = i := by simpa [hPick] using hArm
      simp only [choose, hTo, hSplit, hBucket, hPick]
      exact ⟨arm, hAt, _, rfl, rfl⟩
  · intro i arm hAt
    have hSet :
        { b | b < 10000 ∧ place b split.arms = some i } =
          Set.Ico (edge split.arms i) (min (edge split.arms (i + 1)) 10000) := by
      ext b
      simp only [Set.mem_ofPred_eq, Set.mem_Ico, lt_min_iff]
      constructor
      · rintro ⟨hBucket, hPlace⟩
        have hEdges := (hSound.place_iff hBucket).mp hPlace
        exact ⟨hEdges.1, hEdges.2, hBucket⟩
      · rintro ⟨hLow, hHigh, hBucket⟩
        exact ⟨hBucket, (hSound.place_iff hBucket).mpr ⟨hLow, hHigh⟩⟩
    have hWidth := hSound.width hAt
    simp only [zero_add] at hWidth
    rw [hSet, ← hWidth]
    simp [Set.ncard_eq_toFinset_card']
  · intro f hNone hStable
    rcases hSound.pick_none with ⟨arm, bp, _, hPick⟩
    simp [armFor, bucketFor, hNone, hStable, hPick]
  · intro i arm old new index stored hAt hOld hMore hRaised f j hSome hArm
    rcases Option.ne_none_iff_exists'.mp hSome with ⟨⟨_, v⟩, hWho⟩
    have hWeight : arm.weight ≤ { arm with bp := some new }.weight := by
      simpa [Arm.weight, hOld] using hMore
    have hBucket : ∀ arms, bucketFor blake3 rule.salt { split with arms } f =
        .ok (some (sampleDraw blake3 rule.salt (utf8 v) % 10000)) := by
      intro arms
      simp only [bucketFor, show identity { split with arms } f = _ from hWho]
    simp only [armFor, hBucket split.arms] at hArm
    simp only [armFor, hBucket]
    exact hSound.place_set (validate_sound rfl hRaised).2 hAt hWeight (mod_lt _ (by decide)) hArm

def canary : Split where
  stickyBy := ["end_user"]
  onMissingIdentity := .stable
  arms := [⟨"canary", "new", some 2500⟩, ⟨"stable", "old", none⟩]

theorem canary_divides :
    Divides (fun _ => .zero 32) (fun _ => true) ⟨"ramp", ⟨none, canary⟩, "salt"⟩ canary :=
  split_divides rfl (show validateAction _ 0 true _ = .ok () by decide +kernel)

end Tracelane.Routing
