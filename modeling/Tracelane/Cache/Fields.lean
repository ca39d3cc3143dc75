import Tracelane.Cache.RequestKey

/-
  The fields of a request's parameters, and how the stream that is hashed of them is taken apart.

  The oldest parameters have no tag and no length: absent ones stand for a default, and a model name
  or a system prompt can be made to run into the fields beside it.  A tagged field is told by how it
  begins and ends where its value ends.
-/

namespace Tracelane.Cache

open List Option
open Framing
open Guardrail

--
-- What Is Told Apart
--

def emptyText : Text := ⟨"", Text.fits_empty⟩

/- The parameters of a request, its defaults filled in. -/
structure Settings where
  model : Text
  maxTokens : UInt32
  temperature : F32
  tools : Option (List Tool)
  toolChoice : Option ToolChoice
  topP : Option F32
  seed : Option UInt64
  logprobs : Option Bool
  topLogprobs : Option UInt8
  stop : Option (List Text)
  responseFormat : Option Value
  reasoningEffort : Option Text
  maxCompletionTokens : Option UInt32
  presencePenalty : Option F32
  frequencyPenalty : Option F32
  parallelToolCalls : Option Bool
  extra : List (String × Value)
  system : Text

def ChatRequest.settings (r : ChatRequest) : Settings where
  model := r.model
  maxTokens := r.maxTokens.getD 0
  temperature := r.temperature.getD minusOne
  tools := r.tools
  toolChoice := r.toolChoice
  topP := r.topP
  seed := r.seed
  logprobs := r.logprobs
  topLogprobs := r.topLogprobs
  stop := r.stop.map sequences
  responseFormat := r.responseFormat
  reasoningEffort := r.reasoningEffort
  maxCompletionTokens := r.maxCompletionTokens
  presencePenalty := r.presencePenalty
  frequencyPenalty := r.frequencyPenalty
  parallelToolCalls := r.parallelToolCalls
  extra := r.extra
  system := r.system.getD emptyText

/- A message, where no value and an empty one are the same. -/
structure MessageIdentity where
  role : Role
  content : MessageContent
  toolCallId : Text
  toolCalls : List ToolCall

def messageIdentity (m : Message) : MessageIdentity where
  role := m.role
  content := m.content
  toolCallId := m.toolCallId.getD emptyText
  toolCalls := m.toolCalls.getD []

/-
  What the printers do for two requests: they print different values differently, a printed object
  or string ends where it ends, and no list of calls is printed as nothing.
-/
structure Prints (serde : Serde) (a b : ChatRequest) : Prop where
  tools : Delimits {t | t ∈ a.tools.getD [] ∨ t ∈ b.tools.getD []} (fun t => (serde.tool t).bytes)
  toolsOpen :
    ∀ t, t ∈ a.tools.getD [] ∨ t ∈ b.tools.getD [] → ∃ rest, (serde.tool t).bytes = 0x7b :: rest
  names :
    Delimits
      {name |
        a.toolChoice = some (.function name) ∨ b.toolChoice = some (.function name)}
      (fun name => (serde.str name).bytes)
  parts :
    Set.InjOn serde.parts
      {parts | ∃ m ∈ a.messages ++ b.messages,
        m.content = .parts parts}
  calls :
    Set.InjOn serde.toolCalls
      {calls | ∃ m ∈ a.messages ++ b.messages,
        m.toolCalls = some calls}
  callsSome : ∀ calls, calls ≠ [] → (serde.toolCalls calls).bytes ≠ []
  values :
    Set.InjOn serde.canonicalJson
      {v | a.responseFormat = some v ∨ b.responseFormat = some v ∨
        v = .object a.extra ∨ v = .object b.extra}

/- The lists whose lengths are hashed fit their counters. -/
structure Fits (r : ChatRequest) : Prop where
  tools : (r.tools.getD []).length < 256 ^ 4
  stop : ((r.stop.map sequences).getD []).length < 256 ^ 8

/- Equal as far as both go. -/
def agree (x y : Bytes) : Bool :=
  x.isPrefixOf y || y.isPrefixOf x

section RunsTogether

variable (serde : Serde) (blake3 : Bytes → ByteArr 32)

/- A model that goes on where the other's counts stand. -/
def modelRunsOn (a b : ChatRequest) : Bool :=
  (modelBytes a).isPrefixOf (modelBytes b) &&
    ((modelBytes a).length < (modelBytes b).length &&
      agree ((modelBytes b).drop (modelBytes a).length) (counts a))

/- A system prompt that looks like a field it is not. -/
def systemPosesAs (a b : ChatRequest) : Bool :=
  !(systemBytes b).isEmpty &&
    Field.all.any (fun f =>
      match field serde a f, field serde b f with
      | some u, none => agree u (systemBytes b)
      | _, _ => false)

/- A system prompt that ends with the other's history mark. -/
def systemMarks (a b : ChatRequest) : Bool :=
  !(historyBytes serde blake3 a).isEmpty &&
    systemBytes b == systemBytes a ++ historyBytes serde blake3 a

def runsOver (a b : ChatRequest) : Bool :=
  modelRunsOn a b || systemPosesAs serde a b || systemMarks serde blake3 a b

def runsTogether (a b : ChatRequest) : Bool :=
  runsOver serde blake3 a b || runsOver serde blake3 b a

end RunsTogether

--
-- Openings
--

/- How a field can begin; a list of tools is told otherwise. -/
def openings : Field → List Bytes
| .tools => []
| .toolChoice =>
    [utf8 "\"auto\"", utf8 "\"none\"", utf8 "\"required\"",
      utf8 "\x7b\"type\":"]
| f => [utf8 f.tag]

/- No tools, or the first of them after their number. -/
def opensTools (s : Bytes) : Prop :=
  s.take 4 = [0, 0, 0, 0] ∨ s[4]? = some 0x7b

def Opens (f : Field) (s : Bytes) : Prop :=
  (f = .tools ∧ opensTools s) ∨ ∃ o ∈ openings f, o <+: s

/- Tags differ, and none looks like a list of tools. -/
theorem openings_apart :
    ∀ f ∈ Field.all, ∀ g ∈ Field.all,
      ∀ o ∈ openings f, ∀ p ∈ openings g, (o <+: p ∨ p <+: o) → f = g := by
  decide

theorem openings_not_tools :
    ∀ f ∈ Field.all, ∀ o ∈ openings f,
      5 ≤ o.length ∧ o.take 4 ≠ [0, 0, 0, 0] ∧ o[4]? ≠ some 0x7b := by
  decide

theorem openings_not_history :
    ∀ f ∈ Field.all, ∀ o ∈ openings f, ¬ (o <+: utf8 historyTag) ∧ ¬ (utf8 historyTag <+: o) := by
  decide +kernel

variable (f : Field)

theorem Field.mem_all : f ∈ Field.all := by
  cases f <;> decide

theorem not_opensTools {f : Field} {o s : Bytes} (hO : o ∈ openings f) (hStart : o <+: s) :
    ¬ opensTools s := by
  rcases openings_not_tools f f.mem_all o hO with ⟨hLong, hZero, hBrace⟩
  rcases hStart with ⟨rest, rfl⟩
  rintro (hTake | hGet)
  · rw [take_append_of_le_length (by omega)] at hTake
    exact hZero hTake
  · rw [getElem?_append_left (by omega)] at hGet
    exact hBrace hGet

theorem opens_apart (f g : Field) (s : Bytes) (hF : Opens f s) (hG : Opens g s) :
    f = g := by
  rcases hF with ⟨rfl, hF⟩ | ⟨o, hO, hF⟩
  · rcases hG with ⟨rfl, _⟩ | ⟨p, hP, hG⟩
    · rfl
    · exact absurd hF (not_opensTools hP hG)
  · rcases hG with ⟨rfl, hG⟩ | ⟨p, hP, hG⟩
    · exact absurd hG (not_opensTools hO hF)
    · exact openings_apart f f.mem_all g g.mem_all o hO p hP (List.prefix_or_prefix_of_prefix hF hG)

theorem not_opens_nil :
    ¬ Opens f [] := by
  rintro (⟨_, hTake | hGet⟩ | ⟨o, hO, hStart⟩)
  · cases hTake
  · cases hGet
  · have hLong := (openings_not_tools f f.mem_all o hO).1
    rw [prefix_nil.mp hStart] at hLong
    exact absurd hLong (by decide)

theorem not_opens_history (digest : Bytes) :
    ¬ Opens f (utf8 historyTag ++ digest) := by
  rintro (⟨_, hTools⟩ | ⟨o, hO, hStart⟩)
  · have hTag :
        utf8 historyTag = [116, 111, 111, 108, 95, 104, 105, 115, 116, 111, 114, 121, 61] := by
      decide
    rw [hTag] at hTools
    rcases hTools with hTake | hGet
    · simp at hTake
    · simp at hGet
  · have hApart := openings_not_history f f.mem_all o hO
    rcases prefix_or_prefix_of_prefix hStart (prefix_append (utf8 historyTag) digest) with h | h
    · exact hApart.1 h
    · exact hApart.2 h

--
-- Field By Field
--

theorem delimits_u32Le :
    Delimits Set.univ u32Le := by
  apply delimits_of_length (n := 4)
  · intro n _
    exact length_leBytes 4 n.toNat
  · intro m _ n _ hEq
    exact UInt32.toNat_inj.mp (leBytes_injOn m.toNat_lt n.toNat_lt hEq)

theorem delimits_u64Le :
    Delimits Set.univ u64Le := by
  apply delimits_of_length (n := 8)
  · intro n _
    exact length_leBytes 8 n.toNat
  · intro m _ n _ hEq
    exact UInt64.toNat_inj.mp (leBytes_injOn m.toNat_lt n.toNat_lt hEq)

theorem delimits_boolByte :
    Delimits Set.univ boolByte := by
  apply delimits_of_length (n := 1)
  · intro b _
    rfl
  · intro b _ c _ hEq
    cases b <;> cases c <;> first | rfl | cases hEq

theorem delimits_byte :
    Delimits Set.univ (fun n : UInt8 => [n]) := by
  apply delimits_of_length (n := 1)
  · intro n _
    rfl
  · intro m _ n _ hEq
    exact singleton_inj.mp hEq

theorem delimits_hashField :
    Delimits Set.univ hashField :=
  delimits_framed.comp (fun t _ => t.length_bytes_lt) (fun _ _ _ _ => Text.bytes_injective)

section Fields

variable {serde : Serde} {blake3 : Bytes → ByteArr 32} {a b : ChatRequest}

theorem delimits_tools (hPrints : Prints serde a b) (hA : Fits a) (hB : Fits b) :
    Delimits (either a.tools b.tools) (counted 4 (fun tool => (serde.tool tool).bytes)) := by
  apply (delimits_counted 4 hPrints.tools).mono
  rintro tools (h | h)
  · have hFits := hA.tools
    rw [h] at hFits
    exact ⟨hFits, fun t hT => .inl (by simpa [h] using hT)⟩
  · have hFits := hB.tools
    rw [h] at hFits
    exact ⟨hFits, fun t hT => .inr (by simpa [h] using hT)⟩

theorem delimits_stop (hA : Fits a) (hB : Fits b) :
    Delimits (either (a.stop.map sequences) (b.stop.map sequences)) (counted 8 hashField) := by
  apply (delimits_counted 8 delimits_hashField).mono
  rintro texts (h | h)
  · have hFits := hA.stop
    rw [h] at hFits
    exact ⟨hFits, fun _ _ => trivial⟩
  · have hFits := hB.stop
    rw [h] at hFits
    exact ⟨hFits, fun _ _ => trivial⟩

/- Which of the openings a printed choice has. -/
def choiceForm : ToolChoice → Fin 4
| .auto => 0
| .none => 1
| .required => 2
| .function _ => 3

def choiceOpening (i : Fin 4) : Bytes :=
  (openings .toolChoice).get i

theorem choiceOpening_inj :
    ∀ i j, (choiceOpening i <+: choiceOpening j ∨ choiceOpening j <+: choiceOpening i) → i = j := by
  decide

theorem choiceOpening_start (choice : ToolChoice) :
    choiceOpening (choiceForm choice) <+: toolChoiceJson serde choice := by
  cases choice with
  | function name =>
    have hStart :
        choiceOpening 3 <+: utf8 "\x7b\"type\":\"function\",\"function\":\x7b\"name\":" := by
      decide
    exact hStart.trans (prefix_append _ _)
  | _ => exact prefix_rfl

/- The printed forms differ, and so do the names. -/
theorem delimits_toolChoice (hPrints : Prints serde a b) :
    Delimits (either a.toolChoice b.toolChoice) (toolChoiceJson serde) := by
  intro u hU v hV x y hEq
  have hStart :
      ∀ choice x, choiceOpening (choiceForm choice) <+: toolChoiceJson serde choice ++ x :=
    fun choice x => (choiceOpening_start choice).trans (prefix_append _ x)
  have hForm : choiceForm u = choiceForm v := by
    have hV := hStart v y
    rw [← hEq] at hV
    exact choiceOpening_inj _ _ (List.prefix_or_prefix_of_prefix (hStart u x) hV)
  cases u <;> cases v <;> try first | rfl | cases hForm
  rename_i m n
  simp only [toolChoiceJson, append_assoc, append_cancel_left_eq] at hEq
  rw [hPrints.names m hU n hV _ _ hEq]

theorem delimits_json (hPrints : Prints serde a b) {S : Set Value}
    (hKnown :
      S ⊆ {v | a.responseFormat = some v ∨
        b.responseFormat = some v ∨
        v = .object a.extra ∨ v = .object b.extra}) :
    Delimits S (fun v => hashField (serde.canonicalJson v)) :=
  delimits_hashField.comp (fun _ _ => trivial) (hPrints.values.mono hKnown)

/- The other parameters, where there are some. -/
def extraValue (r : ChatRequest) : Option Value :=
  if r.extra.isEmpty then none else some (.object r.extra)

theorem fieldValue_extra (r : ChatRequest) :
    fieldValue serde r .extra =
      (extraValue r).map (fun v => hashField (serde.canonicalJson v)) := by
  simp only [fieldValue, extraValue]
  split <;> rfl

theorem extraValue_inj (hEq : extraValue a = extraValue b) :
    a.extra = b.extra := by
  unfold extraValue at hEq
  split at hEq <;> split at hEq
  · rename_i hA hB
    rw [isEmpty_iff.mp hA, isEmpty_iff.mp hB]
  · cases hEq
  · cases hEq
  · exact Value.object.inj (some.inj hEq)

theorem extraValue_known (v : Value) (hV : v ∈ either (extraValue a) (extraValue b)) :
    v = .object a.extra ∨ v = .object b.extra := by
  have hOne : ∀ r, extraValue r = some v → v = .object r.extra := by
    intro r hR
    unfold extraValue at hR
    split at hR
    · cases hR
    · exact (some.inj hR).symm
  exact hV.imp (hOne a) (hOne b)

theorem delimits_extra (hPrints : Prints serde a b) :
    Delimits (either (extraValue a) (extraValue b)) (fun v => hashField (serde.canonicalJson v)) :=
  delimits_json hPrints (fun v hV => .inr (.inr (extraValue_known v hV)))

theorem delimits_responseFormat (hPrints : Prints serde a b) :
    Delimits (either a.responseFormat b.responseFormat)
      (fun v => hashField (serde.canonicalJson v)) :=
  delimits_json hPrints (fun _ hV => hV.imp id .inl)

/- A field ends where it ends. -/
theorem field_self (hPrints : Prints serde a b) (hA : Fits a) (hB : Fits b)
    (f : Field) (u v x y : Bytes) (hU : field serde a f = some u)
    (hV : field serde b f = some v) (hEq : u ++ x = v ++ y) :
    u = v := by
  rcases map_eq_some_iff.mp hU with ⟨u', hU', rfl⟩
  rcases map_eq_some_iff.mp hV with ⟨v', hV', rfl⟩
  rw [append_assoc, append_assoc, append_cancel_left_eq] at hEq
  congr 1
  cases f with
  | tools =>
    exact (delimits_tools hPrints hA hB).map_self hU' hV' hEq
  | toolChoice =>
    exact (delimits_toolChoice hPrints).map_self hU' hV' hEq
  | topP =>
    exact (delimits_u32Le.mono (Set.subset_univ _)).map_self hU' hV' hEq
  | seed =>
    exact (delimits_u64Le.mono (Set.subset_univ _)).map_self hU' hV' hEq
  | logprobs =>
    exact (delimits_boolByte.mono (Set.subset_univ _)).map_self hU' hV' hEq
  | topLogprobs =>
    exact (delimits_byte.mono (Set.subset_univ _)).map_self hU' hV' hEq
  | stop => exact (delimits_stop hA hB).map_self hU' hV' hEq
  | responseFormat =>
    exact (delimits_responseFormat hPrints).map_self hU' hV' hEq
  | reasoningEffort =>
    exact (delimits_hashField.mono (Set.subset_univ _)).map_self hU' hV' hEq
  | maxCompletionTokens | presencePenalty | frequencyPenalty =>
    exact (delimits_u32Le.mono (Set.subset_univ _)).map_self hU' hV' hEq
  | parallelToolCalls =>
    exact (delimits_boolByte.mono (Set.subset_univ _)).map_self hU' hV' hEq
  | extra =>
    rw [fieldValue_extra] at hU' hV'
    exact (delimits_extra hPrints).map_self hU' hV' hEq

theorem opensTools_counted {tools : List Tool}
    (hOpen : ∀ t ∈ tools, ∃ rest, (serde.tool t).bytes = 0x7b :: rest) (x : Bytes) :
    opensTools (counted 4 (fun tool => (serde.tool tool).bytes) tools ++ x) := by
  cases tools with
  | nil =>
    left
    simp [counted, leBytes]
  | cons t more =>
    right
    rcases hOpen t (by simp) with ⟨rest, hRest⟩
    simp [counted, leBytes, hRest]

/- A field is told by how it begins. -/
theorem field_opens (hOpen : ∀ t ∈ a.tools.getD [], ∃ rest, (serde.tool t).bytes = 0x7b :: rest)
    (f : Field) (u x : Bytes) (hU : field serde a f = some u) :
    Opens f (u ++ x) := by
  rcases map_eq_some_iff.mp hU with ⟨v, hV, rfl⟩
  cases f with
  | tools =>
    rcases map_eq_some_iff.mp hV with ⟨tools, hT, rfl⟩
    rw [hT] at hOpen
    exact .inl ⟨rfl, opensTools_counted hOpen x⟩
  | toolChoice =>
    rcases map_eq_some_iff.mp hV with ⟨choice, _, rfl⟩
    refine .inr ⟨choiceOpening (choiceForm choice), get_mem _ _, ?_⟩
    exact (choiceOpening_start choice).trans (prefix_append _ x)
  | _ =>
    refine .inr ⟨_, mem_singleton.mpr rfl, ?_⟩
    rw [append_assoc]
    exact prefix_append _ _

end Fields

end Tracelane.Cache
