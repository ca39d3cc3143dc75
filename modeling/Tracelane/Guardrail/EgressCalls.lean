import Tracelane.Guardrail.Egress
import Tracelane.Guardrail.MediaSpec

/-
  What the egress walks do, read off the body alone.

  The reading walk makes a list of calls, one per text; a reader sees the calls up to the one it
  stops at.  The rewriting walk visits the string values among them.
-/

namespace Tracelane.Guardrail

open Visit List

variable {σ : Type}

--
-- Calls
--

/- What the text of a call is to the body. -/
inductive Source where
| key
| value
| payload
deriving DecidableEq

/- One call of the reader. -/
structure Call where
  source : Source
  leaf : Leaf
  origin : Origin
deriving DecidableEq

def Call.passed (c : Call) : Leaf × Origin :=
  (c.leaf, c.origin)

def mediaCalls (payload : List Char) (mime : Option (List Char))
    (origin : Origin) : List (Option Call) :=
  match skipsPayload payload mime with
  | none => [none]
  | some true => []
  | some false => (decodedLeaves payload mime).map (fun leaf => some ⟨.payload, leaf, origin⟩)

/- What becomes of one member of an object. -/
inductive Handling where
| skip : Handling
| media : List Char → Handling
| uri : Text → List Char → List Char → Handling
| text : Text → Handling
| descend : Handling

def handling (pos : Pos) (tag : Tag) (key : String) (child : Value) : Handling :=
  match pos.rule tag key, child with
  | .opaqueChild, _ => .skip
  | .media, .string text => .media (chars text.str)
  | .dataUri, .string text =>
      match base64DataUri (chars text.str) with
      | some (some (mime, payload)) => .uri text mime payload
      | _ => .text text
  | _, _ => .descend

mutual

/- The calls of a walk that is not stopped. -/
def calls : Value → Pos → Origin → List (Option Call)
| .string text, _, origin =>
    [some ⟨.value, .text text.str, origin⟩]
| .array items, pos, origin => callsItems items pos.elem origin
| .object entries, pos, origin =>
    callsMembers (Holder.of pos origin entries) entries
| .null, _, _ => []
| .bool _, _, _ => []
| .number _, _, _ => []

def callsItems : List Value → Pos → Origin → List (Option Call)
| [], _, _ => []
| item :: items, pos, origin =>
    calls item pos origin ++ callsItems items pos origin

def callsMembers (h : Holder) :
    List (String × Value) → List (Option Call)
| [] => []
| (key, child) :: rest =>
    let origin := h.childOrigin key
    some ⟨.key, .text key, origin⟩ ::
      ((match handling h.pos h.tag key child with
        | .skip => []
        | .media payload => mediaCalls payload h.mime origin
        | .uri _ mime payload => mediaCalls payload (some mime) origin
        | .text text => [some ⟨.value, .text text.str, origin⟩]
        | .descend =>
            calls child (h.pos.child h.tag key) origin) ++
        callsMembers h rest)

end

/- The calls as the reader sees them. -/
def reads (cs : List (Option Call)) :
    List (Option (Leaf × Origin)) :=
  cs.map (Option.map Call.passed)

variable (cs ds : List (Option Call))

@[simp] theorem reads_append :
    reads (cs ++ ds) = reads cs ++ reads ds :=
  map_append

variable (f : Reader σ)

theorem passAll_eq_feed (origin : Origin) (leaves : List Leaf) (s : σ) :
    passAll f origin leaves s = feed f (leaves.map (fun leaf => some (leaf, origin))) s := by
  induction leaves generalizing s with
  | nil => rfl
  | cons leaf leaves ih =>
    simp only [passAll, map_cons, feed]
    exact congrArg _ (funext ih)

theorem mediaLeaf_eq_feed (payload : List Char) (mime : Option (List Char))
    (origin : Origin) (s : σ) :
    mediaLeaf f payload mime origin s = feed f (reads (mediaCalls payload mime origin)) s := by
  unfold mediaLeaf mediaCalls
  cases skipsPayload payload mime with
  | none => rfl
  | some skips =>
    cases skips with
    | true => rfl
    | false =>
      simp only
      rw [passAll_eq_feed]
      simp only [reads, map_map]
      rfl

/- A member is handled by its rule and its shape. -/
theorem walkMembers_cons (h : Holder) (key : String) (child : Value)
    (rest : List (String × Value)) (s : σ) :
    walkMembers f h ((key, child) :: rest) s =
      orElse (some (f (.text key, h.childOrigin key) s))
        (fun s =>
          orElse
            (match handling h.pos h.tag key child with
            | .skip => some (s, false)
            | .media payload => mediaLeaf f payload h.mime (h.childOrigin key) s
            | .uri _ mime payload => mediaLeaf f payload (some mime) (h.childOrigin key) s
            | .text text => some (f (.text text.str, h.childOrigin key) s)
            | .descend =>
              walk f child (h.pos.child h.tag key) (h.childOrigin key) s)
            (walkMembers f h rest)) := by
  rw [walkMembers]
  simp only [handling]
  cases h.pos.rule h.tag key with
  | read => rfl
  | opaqueChild => rfl
  | media =>
    cases child with
    | string _ | null | bool _ | number _ | array _ | object _ => rfl
  | dataUri =>
    cases child with
    | null | bool _ | number _ | array _ | object _ => rfl
    | string text =>
      obtain ⟨uri, hUri⟩ := Option.isSome_iff_exists.mp (base64DataUri_isSome (chars text.str))
      cases uri with
      | none | some _ => simp only [hUri]

theorem feed_handling (h : Holder) (key : String) (child : Value)
    (hChild :
      ∀ s,
        walk f child (h.pos.child h.tag key) (h.childOrigin key) s =
          feed f (reads (calls child (h.pos.child h.tag key) (h.childOrigin key))) s)
    (rest : List (String × Value))
    (hRest : ∀ s, walkMembers f h rest s = feed f (reads (callsMembers h rest)) s)
    (s : σ) :
    walkMembers f h ((key, child) :: rest) s =
      feed f (reads (callsMembers h ((key, child) :: rest))) s := by
  rw [walkMembers_cons, callsMembers, funext hRest]
  simp only [reads, map_cons, Option.map_some, feed, Call.passed]
  refine congrArg _ (funext (fun s => ?_))
  rw [map_append, feed_append]
  refine congrArg (fun r => orElse r _) ?_
  cases handling h.pos h.tag key child with
  | skip => rfl
  | media payload =>
    exact mediaLeaf_eq_feed f payload h.mime _ s
  | uri text mime payload =>
    exact mediaLeaf_eq_feed f payload (some mime) _ s
  | text text => simp [feed, Call.passed]
  | descend => exact hChild s

mutual

/- The walk hands its calls over, in order. -/
theorem walk_eq_feed (f : Reader σ) (v : Value) (pos : Pos) (origin : Origin) (s : σ) :
    walk f v pos origin s = feed f (reads (calls v pos origin)) s := by
  cases v with
  | string text =>
    simp [walk, calls, reads, feed, Call.passed]
  | array items =>
    exact walkItems_eq_feed f items pos.elem origin s
  | object entries =>
    exact walkMembers_eq_feed f (Holder.of pos origin entries) entries s
  | null | bool _ | number _ => rfl

theorem walkItems_eq_feed
    (f : Reader σ) (items : List Value) (pos : Pos) (origin : Origin) (s : σ) :
    walkItems f items pos origin s = feed f (reads (callsItems items pos origin)) s := by
  cases items with
  | nil => rfl
  | cons item items =>
    simp only [walkItems, callsItems, reads_append, feed_append]
    rw [walk_eq_feed f item]
    exact congrArg _ (funext (walkItems_eq_feed f items pos origin))

theorem walkMembers_eq_feed (f : Reader σ) (h : Holder) (entries : List (String × Value)) (s : σ) :
    walkMembers f h entries s = feed f (reads (callsMembers h entries)) s := by
  cases entries with
  | nil => rfl
  | cons entry rest =>
    rcases entry with ⟨key, child⟩
    exact feed_handling f h key child (walk_eq_feed f child _ _) rest
      (walkMembers_eq_feed f h rest) s

end

--
-- Visited Strings
--

mutual

/- The strings the rewriting walk visits. -/
def values : Pos → Value → List Text
| _, .string text => [text]
| pos, .array items => valuesItems pos.elem items
| pos, .object entries =>
    valuesMembers pos (Tag.of entries) entries
| _, .null => []
| _, .bool _ => []
| _, .number _ => []

def valuesItems : Pos → List Value → List Text
| _, [] => []
| pos, item :: items => values pos item ++ valuesItems pos items

def valuesMembers (pos : Pos) (tag : Tag) :
    List (String × Value) → List Text
| [] => []
| (key, child) :: rest =>
    (match handling pos tag key child with
      | .skip => []
      | .media _ => []
      | .uri _ _ _ => []
      | .text text => [text]
      | .descend => values (pos.child tag key) child) ++
      valuesMembers pos tag rest

end

theorem redactMembers_cons (visit : Rewriter σ) (pos : Pos) (tag : Tag) (key : String)
    (child : Value) (rest : List (String × Value)) (s : σ) :
    redactMembers visit pos tag ((key, child) :: rest) s =
      ((match handling pos tag key child with
        | .skip => some (s, child)
        | .media _ => some (s, child)
        | .uri _ _ _ => some (s, child)
        | .text text => (visit text s).map (fun r => (r.1, .string r.2))
        | .descend =>
          redactWalk visit child (pos.child tag key) s) :
        Option (σ × Value)).bind
        (fun r =>
          (redactMembers visit pos tag rest r.1).map (fun r' => (r'.1, (key, r.2) :: r'.2))) := by
  rw [redactMembers.eq_def]
  simp only [handling, isBase64DataUri]
  cases pos.rule tag key with
  | read => rfl
  | opaqueChild => rfl
  | media =>
    cases child with
    | string _ | null | bool _ | number _ | array _ | object _ => rfl
  | dataUri =>
    cases child with
    | null | bool _ | number _ | array _ | object _ => rfl
    | string text =>
      obtain ⟨uri, hUri⟩ := Option.isSome_iff_exists.mp (base64DataUri_isSome (chars text.str))
      cases uri with
      | none | some _ =>
        simp only [hUri, Option.map_some]
        rfl

theorem eq_string_of_handling {pos : Pos} {tag : Tag} {key : String} {child : Value} {text : Text}
    (hText : handling pos tag key child = .text text) :
    child = .string text := by
  unfold handling at hText
  split at hText
  · cases hText
  · cases hText
  · split at hText
    · cases hText
    · rw [Handling.text.injEq] at hText
      rw [hText]
  · cases hText

/- The rewriter that keeps every string and notes it down. -/
def log : Rewriter (List Text) :=
  fun text seen => some (seen ++ [text], text)

mutual

theorem redactWalk_log (v : Value) (pos : Pos) (seen : List Text) :
    redactWalk log v pos seen = some (seen ++ values pos v, v) := by
  cases v with
  | string text => rfl
  | array items =>
    simp [redactWalk, values, redactItems_log items]
  | object entries =>
    simp [redactWalk, values, redactMembers_log entries]
  | null | bool _ | number _ => simp [redactWalk, values]

theorem redactItems_log (items : List Value) (pos : Pos) (seen : List Text) :
    redactItems log items pos seen = some (seen ++ valuesItems pos items, items) := by
  cases items with
  | nil => simp [redactItems, valuesItems]
  | cons item items =>
    simp [redactItems, valuesItems, redactWalk_log item, redactItems_log items]

theorem redactMembers_log (entries : List (String × Value)) (pos : Pos) (tag : Tag)
    (seen : List Text) :
    redactMembers log pos tag entries seen =
      some (seen ++ valuesMembers pos tag entries, entries) := by
  cases entries with
  | nil => simp [redactMembers, valuesMembers]
  | cons entry rest =>
    rcases entry with ⟨key, child⟩
    have hRest := redactMembers_log rest pos tag
    have hChild := redactWalk_log child (pos.child tag key)
    rw [redactMembers_cons, valuesMembers]
    cases hHandling : handling pos tag key child with
    | skip | media _ | uri _ _ _ => simp [hRest]
    | text text =>
      rw [eq_string_of_handling hHandling]
      simp [log, hRest]
    | descend => simp [hRest, hChild]

end

/- The string values among the calls. -/
def undecoded (cs : List (Option Call)) : List Leaf :=
  cs.filterMap (fun c =>
    c.bind (fun c => if c.source = .value then some c.leaf else none))

@[simp] theorem undecoded_append :
    undecoded (cs ++ ds) = undecoded cs ++ undecoded ds :=
  filterMap_append

@[simp] theorem undecoded_mediaCalls
    (payload : List Char) (mime : Option (List Char)) (origin : Origin) :
    undecoded (mediaCalls payload mime origin) = [] := by
  unfold mediaCalls undecoded
  cases skipsPayload payload mime with
  | none => rfl
  | some skips =>
    cases skips with
    | true => rfl
    | false => simp [filterMap_map]

def Text.leaf (text : Text) : Leaf :=
  .text text.str

mutual

/- The reader gets the strings the rewriter visits. -/
theorem undecoded_calls (v : Value) (pos : Pos) (origin : Origin) :
    undecoded (calls v pos origin) = (values pos v).map Text.leaf := by
  cases v with
  | string text => rfl
  | array items =>
    exact undecoded_callsItems items pos.elem origin
  | object entries =>
    exact undecoded_callsMembers (Holder.of pos origin entries) entries
  | null | bool _ | number _ => rfl

theorem undecoded_callsItems (items : List Value) (pos : Pos) (origin : Origin) :
    undecoded (callsItems items pos origin) = (valuesItems pos items).map Text.leaf := by
  cases items with
  | nil => rfl
  | cons item items =>
    rw [callsItems, valuesItems, undecoded_append, undecoded_calls item, undecoded_callsItems items,
      map_append]

theorem undecoded_callsMembers (h : Holder) (entries : List (String × Value)) :
    undecoded (callsMembers h entries) = (valuesMembers h.pos h.tag entries).map Text.leaf := by
  cases entries with
  | nil => rfl
  | cons entry rest =>
    rcases entry with ⟨key, child⟩
    have hRest := undecoded_callsMembers h rest
    have hChild := undecoded_calls child (h.pos.child h.tag key) (h.childOrigin key)
    rw [callsMembers, valuesMembers, map_append, ← hRest]
    simp only [undecoded, filterMap_cons, Option.bind_some,
      reduceCtorEq, if_false, filterMap_append]
    refine congrArg (· ++ _) ?_
    cases handling h.pos h.tag key child with
    | skip => rfl
    | media payload =>
      exact undecoded_mediaCalls payload h.mime _
    | uri text mime payload =>
      exact undecoded_mediaCalls payload (some mime) _
    | text text => rfl
    | descend => exact hChild

end

end Tracelane.Guardrail
