import Tracelane.Guardrail.EgressSpec
import Tracelane.Json.Parse
import Tracelane.Lib.InPlace
import Tracelane.Lib.Marking

/-
  What a guardrail hook asks to be redacted.

  The rewriting walk goes by the positions of the reading one, but leaves alone what stands under a
  structural key.  After it, a text the reader is shown has a literal only across a mark, except
  below a structural key, and except where a marked string has become a base64 data URI.
-/

namespace Tracelane.Guardrail

open List Option Bool Prod

namespace HookRedact

open List
open StrSlice (byteLen)

--
-- The Rewrite
--

/- A reply with an empty literal is not accepted. -/
structure Literal where
  text : String
  nonempty : text ≠ ""

def Literal.word (l : Literal) : List Char :=
  chars l.text

abbrev Group := List Literal

/- What the process has: the matcher's builder, and a cap. -/
structure Config where
  builds : Group → Bool
  inputBytes : Option Nat

def marker : List Char :=
  chars "[REDACTED:custom]"

def contains (text : List Char) (l : Literal) : Bool :=
  decide (l.word <:+: text)

def hits (group : Group) (s : String) : Bool :=
  group.any (contains (chars s))

def words (group : Group) : List (List Char) :=
  group.map Literal.word

/- The text stays within the cap, hit by hit. -/
def projects (cap : Nat) : Nat → List (List Char) → Bool
| _, [] => true
| projected, hit :: rest =>
    let projected := projected - byteLen hit + byteLen marker
    projected ≤ cap && projects cap projected rest

variable (cfg : Config)

def replace (group : Group) (t : Text) : Option Text :=
  if group.isEmpty then some t
  else if cfg.builds group then
    match cfg.inputBytes with
    | none => none
    | some cap =>
        let text := chars t.str
        if projects cap (byteLen text)
            (Marking.matched (words group) 0 text) then
          let out := Marking.rewrite id (words group) marker 0 text
          if byteLen out ≤ cap then Json.text? out else none
        else none
  else none

def isStructural (key : String) : Bool :=
  ["model", "role", "type", "name", "id", "tool_call_id", "url",
    "server_url", "file_id"].contains key

/- Neither the walk nor a rewrite touches the value. -/
def keeps (pos : Pos) (key : String) : Bool :=
  pos ≠ .free && isStructural key

/- The base64 data URI that a string is, where one may be. -/
def uriAt (rule : Rule) (text : List Char) : Option (List Char × List Char) :=
  if rule = .dataUri then (base64DataUri text).join else none

/- One member; `below` is what a walk into it comes to. -/
def hookMember (group : Group) (pos : Pos) (tag : Tag) (key : String)
    (child : Value) (below : Option Value) : Option Value :=
  if hits group key then none
  else
    match pos.rule tag key, child with
    | .opaqueChild, child => some child
    | .media, _ => none
    | rule, .string t =>
        if (uriAt rule (chars t.str)).isSome then none
        else if keeps pos key then
          if hits group t.str then none else some child
        else below
    | _, child => if keeps pos key then some child else below

mutual

def hookWalk (group : Group) : Value → Pos → Option Value
| .string t, _ => (replace cfg group t).map .string
| .array items, pos =>
    (hookItems group items pos.elem).map .array
| .object entries, pos =>
    (hookMembers group pos (Tag.of entries) entries).map .object
| .null, _ => some .null
| .bool b, _ => some (.bool b)
| .number token, _ => some (.number token)

def hookItems (group : Group) :
    List Value → Pos → Option (List Value)
| [], _ => some []
| item :: items, pos =>
    (hookWalk group item pos).bind (fun item => (hookItems group items pos).map (item :: ·))

def hookMembers (group : Group) (pos : Pos) (tag : Tag) :
    List (String × Value) → Option (List (String × Value))
| [] => some []
| (key, child) :: rest =>
    (hookMember group pos tag key child (hookWalk group child (pos.child tag key))).bind
      (fun child => (hookMembers group pos tag rest).map ((key, child) :: ·))

end

/- Which literals the texts have shown so far. -/
def presence (group : Group) : Reader (List Bool) :=
  fun read seen =>
    match read.1 with
    | .unscannable => (seen, true)
    | .text s =>
        (seen.zipWith
          (fun found l => found || contains (chars s) l) group,
          false)

def redactHookJson (body : Value) (groups : List Group) :
    Option Value :=
  groups.foldlM
    (fun body group =>
      match egressLeaves (presence group) body
          (group.map (fun _ => false)) with
      | some (seen, false) =>
          if seen.all id then hookWalk cfg group body .root
          else none
      | _ => none)
    body

--
-- Slots
--

/-
  A place of a body with what it shows a reader: a key, a string with the rule it is read by, which
  the walk may have to keep, or what the walk does not enter; `barred` is what it refuses.
-/
inductive Slot where
| key (k : String)
| string (t : Text) (rule : Rule) (kept : Bool)
| unread (shown : List Leaf) (barred : Bool)

def payloadLeaves (uri : List Char × List Char) : List Leaf :=
  leaves (mediaCalls uri.2 (some uri.1) .direct)

def Slot.leaves : Slot → List Leaf
| .key k => [.text k]
| .string t rule _ =>
    ((uriAt rule (chars t.str)).map payloadLeaves).getD [.text t.str]
| .unread shown _ => shown

def Slot.shut (barred : Bool) (s : Slot) : Slot :=
  .unread s.leaves barred

/- One member, its key aside, with the slots inside of it. -/
def memberSlots (pos : Pos) (tag : Tag) (mime : Option (List Char))
    (key : String) (child : Value) (below : List Slot) : List Slot :=
  match pos.rule tag key, child with
  | .opaqueChild, _ => []
  | .media, .string t => [.unread (leaves (mediaCalls (chars t.str) mime .direct)) true]
  | .media, _ => below.map (Slot.shut true)
  | rule, .string t => [.string t rule (keeps pos key)]
  | _, _ =>
      if keeps pos key then below.map (Slot.shut false)
      else below

mutual

def slots : Pos → Value → List Slot
| _, .string t => [.string t .read false]
| pos, .array items => slotsItems pos.elem items
| pos, .object entries =>
    slotsMembers pos (Tag.of entries) (declaredMime entries) entries
| _, .null => []
| _, .bool _ => []
| _, .number _ => []

def slotsItems : Pos → List Value → List Slot
| _, [] => []
| pos, item :: items => slots pos item ++ slotsItems pos items

def slotsMembers (pos : Pos) (tag : Tag) (mime : Option (List Char)) :
    List (String × Value) → List Slot
| [] => []
| (key, child) :: rest =>
    .key key ::
      (memberSlots pos tag mime key child (slots (pos.child tag key) child) ++
        slotsMembers pos tag mime rest)

end

theorem leaves_mediaCalls (payload : List Char) (mime : Option (List Char)) (origin : Origin) :
    leaves (mediaCalls payload mime origin) = leaves (mediaCalls payload mime .direct) := by
  unfold mediaCalls leaves
  split
  · rfl
  · rfl
  · simp [filterMap_map]

theorem flatMap_shut (barred : Bool) (ss : List Slot) :
    (ss.map (Slot.shut barred)).flatMap Slot.leaves = ss.flatMap Slot.leaves := by
  rw [flatMap_map]
  rfl

/- One member: its key aside, what it shows. -/
theorem leaves_member (h : Holder) (key : String) (child : Value)
    (hChild :
      leaves (calls child (h.pos.child h.tag key) (h.childOrigin key)) =
        (slots (h.pos.child h.tag key) child).flatMap Slot.leaves)
    (rest : List (String × Value))
    (hRest :
      leaves (callsMembers h rest) = (slotsMembers h.pos h.tag h.mime rest).flatMap Slot.leaves) :
    leaves (callsMembers h ((key, child) :: rest)) =
      (slotsMembers h.pos h.tag h.mime ((key, child) :: rest)).flatMap Slot.leaves := by
  have hKey :
      ∀ (origin : Origin) (cs : List (Option Call)),
        leaves (some ⟨.key, .text key, origin⟩ :: cs) = .text key :: leaves cs :=
    fun _ _ => rfl
  rw [callsMembers, slotsMembers, hKey, leaves_append, hRest, flatMap_cons, flatMap_append]
  refine congrArg (fun ls => Leaf.text key :: (ls ++ _)) ?_
  unfold handling memberSlots
  cases hRule : h.pos.rule h.tag key with
  | opaqueChild => rfl
  | media =>
    cases child with
    | string t =>
      simp only [flatMap_cons, flatMap_nil, append_nil, Slot.leaves]
      exact leaves_mediaCalls _ _ _
    | null | bool | number | array | object => simpa only [flatMap_shut] using hChild
  | read =>
    cases child with
    | string t =>
      simp only [flatMap_cons, flatMap_nil, append_nil, Slot.leaves, uriAt]
      rfl
    | null | bool | number | array | object =>
      simp only
      split
      · simpa only [flatMap_shut] using hChild
      · exact hChild
  | dataUri =>
    cases child with
    | string t =>
      simp only [flatMap_cons, flatMap_nil, append_nil, Slot.leaves, uriAt, if_true]
      rcases hUri : base64DataUri (chars t.str) with _ | _ | uri
      · rfl
      · rfl
      · exact leaves_mediaCalls _ _ _
    | null | bool | number | array | object =>
      simp only
      split
      · simpa only [flatMap_shut] using hChild
      · exact hChild

mutual

/- The slots of a body show what its reader is shown. -/
theorem leaves_calls (v : Value) (pos : Pos) (origin : Origin) :
    leaves (calls v pos origin) = (slots pos v).flatMap Slot.leaves := by
  cases v with
  | string t => rfl
  | array items => exact leaves_callsItems items pos.elem origin
  | object entries =>
    exact leaves_callsMembers entries (Holder.of pos origin entries)
  | null | bool | number => rfl

theorem leaves_callsItems (items : List Value) (pos : Pos) (origin : Origin) :
    leaves (callsItems items pos origin) = (slotsItems pos items).flatMap Slot.leaves := by
  cases items with
  | nil => rfl
  | cons item items =>
    rw [callsItems, slotsItems, leaves_append, flatMap_append, leaves_calls item,
      leaves_callsItems items]

theorem leaves_callsMembers (entries : List (String × Value)) (h : Holder) :
    leaves (callsMembers h entries) =
      (slotsMembers h.pos h.tag h.mime entries).flatMap Slot.leaves := by
  cases entries with
  | nil => rfl
  | cons entry rest =>
    rcases entry with ⟨key, child⟩
    exact leaves_member h key child (leaves_calls child _ _) rest (leaves_callsMembers rest h)

end

--
-- One Group
--

/- What a walk that goes through does to a slot. -/
inductive Walked (group : Group) : Slot → Slot → Prop where
| key
    {k : String}
    (hClean : hits group k = false) :
    Walked group (.key k) (.key k)
| kept
    {t : Text}
    {rule : Rule}
    (hClean : hits group t.str = false)
    (hPlain : uriAt rule (chars t.str) = none) :
    Walked group (.string t rule true) (.string t rule true)
| rewritten
    {t t' : Text}
    {rule : Rule}
    (hPlain : uriAt rule (chars t.str) = none)
    (hReplace : replace cfg group t = some t') :
    Walked group (.string t rule false) (.string t' rule false)
| unread
    {shown : List Leaf} :
    Walked group (.unread shown false) (.unread shown false)

variable {cfg} {group : Group}

theorem walked_shut (ss : List Slot) :
    Forall₂ (Walked cfg group) (ss.map (Slot.shut false)) (ss.map (Slot.shut false)) := by
  rw [forall₂_map_left_iff, forall₂_map_right_iff, forall₂_same]
  exact fun s _ => .unread

variable {pos : Pos} {tag : Tag}

variable {child child' : Value}

/- A member that goes through keeps its tag's keys as is. -/
theorem hookMember_kept {key : String} {below : Option Value}
    (hMem : hookMember group pos tag key child below = some child')
    (hKeeps : keeps pos key = true) :
    child' = child := by
  unfold hookMember at hMem
  split at hMem
  · cases hMem
  split at hMem
  · simpa using hMem.symm
  · cases hMem
  · split at hMem
    · cases hMem
    · split at hMem
      · cases hMem
      · simpa using hMem.symm
  · simpa using hMem.symm

theorem hookWalk_asStr {v v' : Value}
    (hWalk : hookWalk cfg group v pos = some v') (hString : v.asStr = none) :
    v'.asStr = none := by
  cases v with
  | string t => cases hString
  | array items | object entries =>
    rw [hookWalk, map_eq_some_iff] at hWalk
    rcases hWalk with ⟨_, _, rfl⟩
    rfl
  | null | bool | number =>
    rw [hookWalk, some.injEq] at hWalk
    rw [← hWalk]
    rfl

theorem memberSlots_inner {key : String} (hOpaque : pos.rule tag key ≠ .opaqueChild)
    (hMedia : pos.rule tag key ≠ .media)
    (hString : child.asStr = none) (mime : Option (List Char)) (below : List Slot) :
    memberSlots pos tag mime key child below =
      if keeps pos key then below.map (Slot.shut false)
      else below := by
  unfold memberSlots
  split
  · next hRule => exact absurd hRule hOpaque
  · next hRule => exact absurd hRule hMedia
  · next hRule _ => exact absurd hRule hMedia
  · cases hString
  · rfl

theorem walked_member {key : String}
    (hMem :
      hookMember group pos tag key child
        (hookWalk cfg group child (pos.child tag key)) = some child')
    (hBelow :
      ∀ v, hookWalk cfg group child (pos.child tag key) = some v →
        Forall₂ (Walked cfg group) (slots (pos.child tag key) child) (slots (pos.child tag key) v))
    (mime mime' : Option (List Char)) :
    hits group key = false ∧
    Forall₂ (Walked cfg group)
      (memberSlots pos tag mime key child (slots (pos.child tag key) child))
      (memberSlots pos tag mime' key child' (slots (pos.child tag key) child')) := by
  unfold hookMember at hMem
  split at hMem
  · cases hMem
  next hKey =>
  refine ⟨by simpa using hKey, ?_⟩
  split at hMem
  · next hRule =>
      simp only [memberSlots, hRule]
      exact Forall₂.nil
  · cases hMem
  · next t hOpaque hMedia =>
      have hSlots :
          ∀ mime (t : Text) below,
            memberSlots pos tag mime key (.string t) below =
              [.string t (pos.rule tag key) (keeps pos key)] := by
        intro mime t below
        unfold memberSlots
        split <;> simp_all
      split at hMem
      · cases hMem
      next hUri =>
      rw [not_isSome_iff_eq_none] at hUri
      rw [hSlots]
      split at hMem
      · next hKeeps =>
          split at hMem
          · cases hMem
          next hClean =>
          cases hMem
          rw [hSlots, hKeeps]
          exact .cons (.kept (by simpa using hClean) hUri) .nil
      · next hKeeps =>
          rw [hookWalk, map_eq_some_iff] at hMem
          rcases hMem with ⟨t', hReplace, rfl⟩
          rw [hSlots, eq_false_iff.mpr hKeeps]
          exact .cons (.rewritten hUri hReplace) .nil
  · next inner _ _ hOther hOpaque hMedia =>
      have hString : inner.asStr = none := by
        cases inner with
        | string t => exact absurd rfl (hOther t)
        | _ => rfl
      rw [memberSlots_inner hOpaque hMedia hString]
      split at hMem
      · next hKeeps =>
          cases hMem
          rw [memberSlots_inner hOpaque hMedia hString, if_pos hKeeps]
          exact walked_shut _
      · next hKeeps =>
          rw [memberSlots_inner hOpaque hMedia (hookWalk_asStr hMem hString), if_neg hKeeps,
            if_neg hKeeps]
          exact hBelow _ hMem

variable {entries entries' : List (String × Value)}

/- The structural strings of an object stay. -/
theorem hookMembers_strAt (hWalk : hookMembers cfg group pos tag entries = some entries')
    {name : String} (hKeeps : keeps pos name = true) :
    strAt name entries' = strAt name entries := by
  induction entries generalizing entries' with
  | nil =>
    cases hWalk
    rfl
  | cons entry rest ih =>
    rcases entry with ⟨key, child⟩
    rw [hookMembers, bind_eq_some_iff] at hWalk
    rcases hWalk with ⟨child', hMem, hTail⟩
    rcases map_eq_some_iff.mp hTail with ⟨rest', hRest, rfl⟩
    have hSame := ih hRest
    unfold strAt at hSame ⊢
    simp only [lookup_cons]
    by_cases hName : name = key
    · rw [← hName] at hMem
      rw [hookMember_kept hMem hKeeps, hName]
      simp
    · rw [beq_eq_false_iff_ne.mpr hName]
      exact hSame

theorem tagOf_hookMembers (hPos : pos ≠ .free)
    (hWalk : hookMembers cfg group pos tag entries = some entries') :
    Tag.of entries' = Tag.of entries := by
  unfold Tag.of
  rw [hookMembers_strAt hWalk (by simp [keeps, hPos]; decide),
    hookMembers_strAt hWalk (by simp [keeps, hPos]; decide)]

/- Where all is free text, tags make no difference. -/
theorem slotsMembers_free (tag tag' : Tag) (mime mime' : Option (List Char))
    (entries : List (String × Value)) :
    slotsMembers .free tag mime entries = slotsMembers .free tag' mime' entries := by
  induction entries with
  | nil => rfl
  | cons entry rest ih =>
    rcases entry with ⟨key, child⟩
    rw [slotsMembers, slotsMembers, ih]
    simp only [Pos.child_free, memberSlots, Pos.rule_free]
    cases child with
    | _ => rfl

mutual

/- What a walk that goes through does, slot by slot. -/
theorem walked_hookWalk (v : Value) {v' : Value} {pos : Pos}
    (hWalk : hookWalk cfg group v pos = some v') :
    Forall₂ (Walked cfg group) (slots pos v) (slots pos v') := by
  cases v with
  | string t =>
    rw [hookWalk, map_eq_some_iff] at hWalk
    rcases hWalk with ⟨t', hReplace, rfl⟩
    exact .cons (.rewritten rfl hReplace) .nil
  | array items =>
    rw [hookWalk, map_eq_some_iff] at hWalk
    rcases hWalk with ⟨items', hItems, rfl⟩
    exact walked_hookItems items hItems
  | object entries =>
    rw [hookWalk, map_eq_some_iff] at hWalk
    rcases hWalk with ⟨entries', hEntries, rfl⟩
    have hWalked := walked_hookMembers entries hEntries
      (declaredMime entries) (declaredMime entries')
    by_cases hPos : pos = .free
    · rw [hPos] at hWalked ⊢
      rw [slots, slots, slotsMembers_free (Tag.of entries') (Tag.of entries)
          (declaredMime entries') (declaredMime entries')]
      exact hWalked
    · rw [slots, slots, tagOf_hookMembers hPos hEntries]
      exact hWalked
  | null | bool | number =>
    rw [hookWalk, some.injEq] at hWalk
    rw [← hWalk]
    exact .nil

theorem walked_hookItems (items : List Value) {items' : List Value} {pos : Pos}
    (hWalk : hookItems cfg group items pos = some items') :
    Forall₂ (Walked cfg group) (slotsItems pos items) (slotsItems pos items') := by
  cases items with
  | nil =>
    cases hWalk
    exact .nil
  | cons item items =>
    rw [hookItems, bind_eq_some_iff] at hWalk
    rcases hWalk with ⟨item', hItem, hTail⟩
    rcases map_eq_some_iff.mp hTail with ⟨items', hItems, rfl⟩
    rw [slotsItems, slotsItems]
    exact rel_append (walked_hookWalk item hItem) (walked_hookItems items hItems)

theorem walked_hookMembers (entries : List (String × Value)) {entries' : List (String × Value)}
    {pos : Pos} {tag : Tag} (hWalk : hookMembers cfg group pos tag entries = some entries')
    (mime mime' : Option (List Char)) :
    Forall₂ (Walked cfg group)
      (slotsMembers pos tag mime entries)
      (slotsMembers pos tag mime' entries') := by
  cases entries with
  | nil =>
    cases hWalk
    exact .nil
  | cons entry rest =>
    rcases entry with ⟨key, child⟩
    rw [hookMembers, bind_eq_some_iff] at hWalk
    rcases hWalk with ⟨child', hMem, hTail⟩
    rcases map_eq_some_iff.mp hTail with ⟨rest', hRest, rfl⟩
    rcases walked_member hMem
        (fun v hV => walked_hookWalk child hV) mime mime' with
      ⟨hKey, hSlots⟩
    rw [slotsMembers, slotsMembers]
    exact .cons (.key hKey) (rel_append hSlots (walked_hookMembers rest hRest mime mime'))

end

--
-- Marks
--

/- Characters, with whether a rewrite put them there. -/
abbrev Tagged := List (Char × Bool)

def plain (cs : List Char) : Tagged :=
  cs.map (fun c => (c, false))

def erase (text : Tagged) : List Char :=
  text.map fst

def marks (groups : List Group) (text : Tagged) : Tagged :=
  groups.foldl
    (fun text group => Marking.rewrite fst (words group) (marker.map (fun c => (c, true))) 0 text)
    text

def textsOf (shown : List Leaf) : List (List Char) :=
  shown.filterMap (fun
    | .text s => some (chars s)
    | .unscannable => none)

/- The texts a slot shows after all groups, with their marks. -/
def marked (groups : List Group) : Slot → List Tagged
| .key k => [plain (chars k)]
| .string t rule kept =>
    let text :=
      if kept then plain (chars t.str)
      else marks groups (plain (chars t.str))
    match uriAt rule (erase text) with
    | some uri => (textsOf (payloadLeaves uri)).map plain
    | none => [text]
| .unread shown _ => (textsOf shown).map plain

/- Every occurrence of a literal overlaps a mark. -/
def Clean (groups : List Group) (text : Tagged) : Prop :=
  ∀ group ∈ groups, ∀ l ∈ group, ¬ plain l.word <:+: text

def Without (groups : List Group) (texts : List (List Char)) : Prop :=
  ∀ text ∈ texts, ∀ group ∈ groups, ∀ l ∈ group, contains text l = false

/-
  Nothing the walk does not enter has a literal, and no string
  becomes, by its marks, a data URI with one in its payload.
-/
def Safe (groups : List Group) : Slot → Prop
| .key _ => True
| .string t rule kept =>
    kept = false → ∀ uri,
      uriAt rule (erase (marks groups (plain (chars t.str)))) = some uri →
        Without groups (textsOf (payloadLeaves uri))
| .unread shown _ => Without groups (textsOf shown)

variable {groups : List Group}

@[simp] theorem erase_plain (cs : List Char) :
    erase (plain cs) = cs := by
  simp [erase, plain, Function.comp_def]

theorem erase_marks (groups : List Group) (text : Tagged) :
    erase (marks groups text) =
      groups.foldl (fun cs group => Marking.rewrite id (words group) marker 0 cs) (erase text) := by
  induction groups generalizing text with
  | nil => rfl
  | cons group groups ih =>
    have hErase :
        erase (Marking.rewrite fst (words group) (marker.map (fun c => (c, true))) 0 text) =
          Marking.rewrite id (words group)
            (erase (marker.map (fun c => (c, true)))) 0
            (erase text) :=
      Marking.map_rewrite id fst (fun _ => rfl) 0 text
    have hMarker : erase (marker.map (fun c => (c, true))) = marker := by
      simp [erase, Function.comp_def]
    rw [hMarker] at hErase
    rw [foldl_cons, ← hErase]
    exact ih _

theorem infix_plain_iff (l : Literal) (cs : List Char) :
    plain l.word <:+: plain cs ↔ contains cs l = true := by
  rw [contains, decide_eq_true_iff]
  constructor
  · intro hIn
    have hErased : erase (plain l.word) <:+: erase (plain cs) := hIn.map fst
    rwa [erase_plain, erase_plain] at hErased
  · exact fun hIn => hIn.map _

theorem clean_marks {group : Group} (hGroup : group ∈ groups) {l : Literal}
    (hLiteral : l ∈ group) (text : Tagged) :
    ¬ plain l.word <:+: marks groups text := by
  have hApart : ∀ b ∈ plain l.word, b ∉ marker.map (fun c => (c, true)) := by
    intro b hB hMark
    rcases mem_map.mp hB with ⟨c, _, rfl⟩
    rcases mem_map.mp hMark with ⟨d, _, hSame⟩
    cases (mk.inj hSame).2
  have hMark : marker.map (fun c => (c, true)) ≠ [] := by decide
  have hWord : ∀ g : Group, l ∈ g → (plain l.word).map fst ∈ words g := by
    intro g hL
    have hErase : (plain l.word).map fst = l.word := erase_plain l.word
    rw [hErase]
    exact mem_map_of_mem hL
  have hSome : plain l.word ≠ [] := by
    intro hNil
    have hEmpty := map_eq_nil_iff.mp hNil
    rw [Literal.word, chars_eq_toList, String.toList_eq_nil_iff] at hEmpty
    exact l.nonempty hEmpty
  have hStays :
      ∀ (gs : List Group) (text : Tagged),
        ¬ plain l.word <:+: text → ¬ plain l.word <:+: marks gs text := by
    intro gs
    induction gs with
    | nil => exact fun _ hNot => hNot
    | cons g gs ih =>
      intro text hNot
      exact ih _ (fun hIn => hNot (Marking.infix_of_infix_rewrite hApart hMark _ hIn))
  induction groups generalizing text with
  | nil => cases hGroup
  | cons g gs ih =>
    rcases mem_cons.mp hGroup with rfl | hGroup
    · exact hStays gs _ (Marking.no_word_rewrite hApart hMark (hWord _ hLiteral) hSome text)
    · exact ih hGroup _

variable {t : Text} {k : String} {rule : Rule}

theorem chars_replace {t' : Text} (hReplace : replace cfg group t = some t') :
    chars t'.str = Marking.rewrite id (words group) marker 0 (chars t.str) := by
  unfold replace at hReplace
  split at hReplace
  · next hEmpty =>
      rw [List.isEmpty_iff] at hEmpty
      cases hReplace
      rw [hEmpty]
      induction chars t.str with
      | nil => rfl
      | cons c cs ih =>
        rw [Marking.rewrite]
        exact congrArg (c :: ·) ih
  split at hReplace
  · split at hReplace
    · cases hReplace
    · simp only at hReplace
      split at hReplace
      · split at hReplace
        · unfold Json.text? at hReplace
          split at hReplace <;> cases hReplace
          simp only
          rw [ofChars_eq_ofList, chars_eq_toList, String.toList_ofList]
        · cases hReplace
      · cases hReplace
  · cases hReplace

--
-- All Groups
--

/- What the walks of all groups do to a slot. -/
def WalkedAll (cfg : Config) :
    List Group → Slot → Slot → Prop
| [], s, s' => s' = s
| group :: groups, s, s' =>
    ∃ m, Walked cfg group s m ∧ WalkedAll cfg groups m s'

theorem walkedAll_redactHookJson {body body' : Value}
    (hRedact : redactHookJson cfg body groups = some body') :
    Forall₂ (WalkedAll cfg groups) (slots .root body) (slots .root body') := by
  induction groups generalizing body with
  | nil =>
    cases hRedact
    rw [forall₂_same]
    exact fun _ _ => rfl
  | cons group groups ih =>
    rw [redactHookJson, foldlM_cons] at hRedact
    rcases bind_eq_some_iff.mp hRedact with ⟨mid, hFirst, hRest⟩
    split at hFirst
    · split at hFirst
      · exact InPlace.forall₂_trans (fun _ m _ hWalked hAll => ⟨m, hWalked, hAll⟩)
          (walked_hookWalk body hFirst) (ih hRest)
      · cases hFirst
    · cases hFirst

variable {s' : Slot}

/- A slot that is not rewritten stays, without a literal. -/
theorem WalkedAll.key (hAll : WalkedAll cfg groups (.key k) s') :
    s' = .key k ∧ ∀ group ∈ groups, hits group k = false := by
  induction groups with
  | nil => exact ⟨hAll, nofun⟩
  | cons group groups ih =>
    rcases hAll with ⟨m, hWalked, hRest⟩
    cases hWalked with
    | key hClean =>
      exact ⟨(ih hRest).1, forall_mem_cons.mpr ⟨hClean, (ih hRest).2⟩⟩

theorem WalkedAll.kept (hAll : WalkedAll cfg groups (.string t rule true) s') :
    s' = .string t rule true ∧
      ∀ group ∈ groups, hits group t.str = false ∧ uriAt rule (chars t.str) = none := by
  induction groups with
  | nil => exact ⟨hAll, nofun⟩
  | cons group groups ih =>
    rcases hAll with ⟨m, hWalked, hRest⟩
    cases hWalked with
    | kept hClean hPlain =>
      exact ⟨(ih hRest).1, forall_mem_cons.mpr ⟨⟨hClean, hPlain⟩, (ih hRest).2⟩⟩

theorem WalkedAll.rewritten (hAll : WalkedAll cfg groups (.string t rule false) s') :
    ∃ t', s' = .string t' rule false ∧
      chars t'.str = erase (marks groups (plain (chars t.str))) := by
  rw [erase_marks, erase_plain]
  induction groups generalizing t with
  | nil => exact ⟨t, hAll, rfl⟩
  | cons group groups ih =>
    rcases hAll with ⟨m, hWalked, hRest⟩
    cases hWalked with
    | rewritten hPlain hReplace =>
      rw [foldl_cons, ← chars_replace hReplace]
      exact ih hRest

theorem WalkedAll.unread {shown : List Leaf} {barred : Bool}
    (hAll : WalkedAll cfg groups (.unread shown barred) s') :
    s' = .unread shown barred := by
  induction groups with
  | nil => exact hAll
  | cons group groups ih =>
    rcases hAll with ⟨m, hWalked, hRest⟩
    cases hWalked with
    | unread => exact ih hRest

/- The texts of a slot at the end are those marked. -/
theorem texts_of_walkedAll {s : Slot} (hAll : WalkedAll cfg groups s s') :
    textsOf s'.leaves = (marked groups s).map erase := by
  have hPlain : ∀ texts : List (List Char), (texts.map plain).map erase = texts := by
    intro texts
    rw [List.map_map, Function.comp_def]
    simp only [erase_plain, List.map_id']
  have hShown :
      ∀ (t : Text) (rule : Rule) (kept : Bool) (text : Tagged),
        chars t.str = erase text →
          textsOf (Slot.string t rule kept).leaves =
            (match uriAt rule (erase text) with
              | some uri => (textsOf (payloadLeaves uri)).map plain
              | none => [text]).map erase := by
    intro t rule kept text hText
    rw [Slot.leaves, ← hText]
    cases uriAt rule (chars t.str) with
    | none => simpa [textsOf] using hText
    | some uri => exact (hPlain _).symm
  cases s with
  | key k =>
    rw [hAll.key.1]
    simp [Slot.leaves, textsOf, marked]
  | string t rule kept =>
    cases kept with
    | true =>
      rw [hAll.kept.1]
      exact hShown t rule true _ (erase_plain _).symm
    | false =>
      rcases hAll.rewritten with ⟨t', rfl, hText⟩
      exact hShown t' rule false _ hText
  | unread shown barred =>
    rw [hAll.unread]
    exact (hPlain _).symm

theorem clean_plain_iff (text : List Char) :
    Clean groups (plain text) ↔ ∀ group ∈ groups, ∀ l ∈ group, contains text l = false := by
  simp only [Clean, infix_plain_iff, not_eq_true]

theorem clean_of_hits (hHits : ∀ group ∈ groups, hits group k = false) :
    Clean groups (plain (chars k)) := by
  rw [clean_plain_iff]
  intro group hGroup l hL
  simpa using any_eq_false.mp (hHits group hGroup) l hL

theorem clean_texts_iff (texts : List (List Char)) :
    (∀ text ∈ texts.map plain, Clean groups text) ↔ Without groups texts := by
  simp [clean_plain_iff, Without]

/- A slot the walks went through is clean where it is safe. -/
theorem clean_iff_safe {s : Slot} (hAll : WalkedAll cfg groups s s') :
    (∀ text ∈ marked groups s, Clean groups text) ↔ Safe groups s := by
  cases s with
  | key k => simpa [marked, Safe] using clean_of_hits hAll.key.2
  | string t rule kept =>
    cases kept with
    | true =>
      rw [marked, Safe]
      simp only [if_true, erase_plain, true_eq_false, false_imp_iff, iff_true]
      intro text hText group hGroup
      have hKept := hAll.kept.2
      rw [(hKept group hGroup).2, mem_singleton] at hText
      rw [hText]
      exact clean_of_hits (fun g hG => (hKept g hG).1) group hGroup
    | false =>
      rw [marked, Safe]
      simp only [false_eq_true, if_false, true_imp_iff]
      cases hUri : uriAt rule
          (erase (marks groups (plain (chars t.str)))) with
      | some uri => simpa using clean_texts_iff (textsOf (payloadLeaves uri))
      | none =>
        simp only [mem_singleton, forall_eq, reduceCtorEq, false_imp_iff, implies_true, iff_true]
        exact fun group hGroup l hL => clean_marks hGroup hL _
  | unread shown barred => exact clean_texts_iff _

/-
  The texts the reader is shown of a redacted body, with their marks: every literal overlaps a mark
  exactly when nothing under a structural key has one and no string has become a data URI that
  carries one.
-/
theorem redactHookJson_clean_iff {cfg : Config} {body body' : Value} {groups : List Group}
    (hRedact : redactHookJson cfg body groups = some body') :
    textsOf (leaves (calls body' .root .direct)) =
        ((slots .root body).flatMap (marked groups)).map erase ∧
      ((∀ text ∈ (slots .root body).flatMap (marked groups), Clean groups text) ↔
        ∀ s ∈ slots .root body, Safe groups s) := by
  have hAll := walkedAll_redactHookJson hRedact
  rw [leaves_calls]
  generalize slots .root body = before at hAll ⊢
  generalize slots .root body' = after at hAll ⊢
  constructor
  · induction hAll with
    | nil => rfl
    | cons hHead _ ih =>
      rw [flatMap_cons, flatMap_cons, map_append, ← ih, ← texts_of_walkedAll hHead]
      exact filterMap_append
  · have hEach : ∀ s ∈ before, ∃ s', WalkedAll cfg groups s s' := by
      induction hAll with
      | nil => exact nofun
      | cons hHead _ ih =>
        exact forall_mem_cons.mpr ⟨⟨_, hHead⟩, ih⟩
    constructor
    · intro hClean s hS
      rcases hEach s hS with ⟨s', hWalked⟩
      exact (clean_iff_safe hWalked).mp (fun text hText =>
        hClean text (mem_flatMap.mpr ⟨s, hS, hText⟩))
    · intro hSafe text hText
      rcases mem_flatMap.mp hText with ⟨s, hS, hMarked⟩
      rcases hEach s hS with ⟨s', hWalked⟩
      exact (clean_iff_safe hWalked).mpr (hSafe s hS) text hMarked

def sampleConfig : Config where
  builds := fun _ => true
  inputBytes := some 64

def sampleGroup : Group :=
  [⟨"secret", by decide⟩]

/- A list under a structural key goes out as it came. -/
theorem name_list_forwarded :
    redactHookJson sampleConfig
        (.object [("name", .array [.string ⟨"secret", by decide⟩])])
        [sampleGroup] =
      some
        (.object [("name", .array [.string ⟨"secret", by decide⟩])]) ∧
      leaves (calls
        (.object [("name", .array [.string ⟨"secret", by decide⟩])])
        .root .direct) =
        [.text "name", .text "secret"] :=
  ⟨rfl, rfl⟩

/- A string at an ordinary place is marked. -/
theorem input_marked :
    redactHookJson sampleConfig
        (.object [("input", .string ⟨"secret", by decide⟩)])
        [sampleGroup] =
      some
        (.object [("input",
          .string ⟨"[REDACTED:custom]", by decide⟩)]) ∧
      ∀ text ∈
        (slots .root (.object
          [("input", .string ⟨"secret", by decide⟩)])).flatMap
          (marked [sampleGroup]),
        Clean [sampleGroup] text :=
  ⟨rfl, (redactHookJson_clean_iff (show redactHookJson sampleConfig _ _ = some _ from rfl)).2.mpr
    (forall_mem_cons.mpr ⟨trivial, forall_mem_cons.mpr
        ⟨fun _ uri hUri => absurd (show none = some uri from hUri) nofun, nofun⟩⟩)⟩

end HookRedact

end Tracelane.Guardrail
