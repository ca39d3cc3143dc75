import Tracelane.Guardrail.EgressCalls
import Tracelane.Guardrail.Requests

/-
  What request redaction rewrites, and what it leaves alone.

  A rewritten value has the shape of the old one: the same keys, the same items, the same opaque
  children, and strings that stand for the old strings.  A pass over a request is the run over its
  slots, the strings it may rewrite.
-/

namespace Tracelane.Guardrail

open InPlace List Option

variable {σ : Type}

--
-- Values
--

mutual

/- The same value but for the strings the walk rewrites. -/
def Restored (R : Text → Text → Prop) :
    Pos → Value → Value → Prop
| _, .string text, v =>
    ∃ text', R text text' ∧ v = .string text'
| pos, .array items, v =>
    ∃ items',
      RestoredItems R pos.elem items items' ∧ v = .array items'
| pos, .object entries, v =>
    ∃ entries',
      RestoredMembers R pos (Tag.of entries) entries entries' ∧ v = .object entries'
| _, .null, v => v = .null
| _, .bool b, v => v = .bool b
| _, .number token, v => v = .number token

def RestoredItems (R : Text → Text → Prop) (pos : Pos) :
    List Value → List Value → Prop
| [], vs => vs = []
| item :: items, vs =>
    ∃ item' items',
      Restored R pos item item' ∧
        RestoredItems R pos items items' ∧
        vs = item' :: items'

def RestoredMembers (R : Text → Text → Prop) (pos : Pos) (tag : Tag) :
    List (String × Value) → List (String × Value) → Prop
| [], ms => ms = []
| (key, child) :: rest, ms =>
    ∃ child' rest',
      (match handling pos tag key child with
        | .skip => child' = child
        | .media _ => child' = child
        | .uri _ _ _ => child' = child
        | .text text => ∃ text', R text text' ∧ child' = .string text'
        | .descend =>
            Restored R (pos.child tag key) child child') ∧
        RestoredMembers R pos tag rest rest' ∧
        ms = (key, child') :: rest'

end

section Walk

variable (visit : Rewriter σ)

/- One member after its key. -/
def redactChild (pos : Pos) (tag : Tag) (key : String) (child : Value) : Pass σ Value :=
  match handling pos tag key child with
  | .skip => keep child
  | .media _ => keep child
  | .uri _ _ _ => keep child
  | .text text => into .string (visit text)
  | .descend => redactWalk visit child (pos.child tag key)

theorem redactMembers_eq_andThen (pos : Pos) (tag : Tag) (key : String) (child : Value)
    (rest : List (String × Value)) :
    redactMembers visit pos tag ((key, child) :: rest) =
      andThen (redactChild visit pos tag key child)
        (fun child' =>
          into (fun rest' => (key, child') :: rest') (redactMembers visit pos tag rest)) := by
  funext s
  rw [redactMembers_cons]
  unfold andThen redactChild
  cases handling pos tag key child <;> rfl

mutual

theorem redactWalk_follows (v : Value) (pos : Pos) :
    Follows visit (redactWalk visit v pos) (values pos v) (fun R v' => Restored R pos v v') := by
  cases v with
  | string text =>
    exact (follows_visit visit text).into Value.string
  | array items =>
    exact (redactItems_follows items pos.elem).into Value.array
  | object entries =>
    exact (redactMembers_follows entries pos (Tag.of entries)).into Value.object
  | null | bool _ | number _ => exact follows_keep _ (fun _ => rfl)

theorem redactItems_follows (items : List Value) (pos : Pos) :
    Follows visit (redactItems visit items pos)
      (valuesItems pos items)
      (fun R items' => RestoredItems R pos items items') := by
  cases items with
  | nil => exact follows_keep [] (fun _ => rfl)
  | cons item items =>
    have hAll := (redactWalk_follows item pos).andThen
      (fun item' _ => (redactItems_follows items pos).into (fun items' => item' :: items'))
    apply hAll.mono
    rintro R _ ⟨item', hItem, items', hItems, rfl⟩
    exact ⟨item', items', hItem, hItems, rfl⟩

theorem redactMembers_follows (entries : List (String × Value)) (pos : Pos) (tag : Tag) :
    Follows visit (redactMembers visit pos tag entries)
      (valuesMembers pos tag entries)
      (fun R entries' => RestoredMembers R pos tag entries entries') := by
  cases entries with
  | nil => exact follows_keep [] (fun _ => rfl)
  | cons member rest =>
    rcases member with ⟨key, child⟩
    have hChild :
        Follows visit (redactChild visit pos tag key child)
          (match handling pos tag key child with
            | .skip => []
            | .media _ => []
            | .uri _ _ _ => []
            | .text text => [text]
            | .descend => values (pos.child tag key) child)
          (fun R child' =>
            match handling pos tag key child with
            | .skip => child' = child
            | .media _ => child' = child
            | .uri _ _ _ => child' = child
            | .text text => ∃ text', R text text' ∧ child' = .string text'
            | .descend =>
              Restored R (pos.child tag key) child child') := by
      unfold redactChild
      cases handling pos tag key child with
      | skip | media _ | uri _ _ _ => exact follows_keep child (fun _ => rfl)
      | text text =>
        exact (follows_visit visit text).into Value.string
      | descend =>
        exact redactWalk_follows child (pos.child tag key)
    rw [redactMembers_eq_andThen]
    have hAll := hChild.andThen
      (fun child' _ =>
        (redactMembers_follows rest pos tag).into (fun rest' => (key, child') :: rest'))
    apply hAll.mono
    rintro R _ ⟨child', hRel, rest', hRest, rfl⟩
    exact ⟨child', rest', hRel, hRest, rfl⟩

end

end Walk

--
-- Typed Requests
--

/- The same part but for its text, related by `Q`, and its arguments, related by `J`. -/
inductive ContentPart.Like (Q : Text → Text → Prop) (J : Value → Value → Prop) :
    ContentPart → ContentPart → Prop
| text {t t' cacheControl} :
    Q t t' → Like Q J (.text t cacheControl) (.text t' cacheControl)
| toolResult {id t t' cacheControl} :
    Q t t' →
      Like Q J (.toolResult id t cacheControl) (.toolResult id t' cacheControl)
| toolUse {id name v v'} :
    J v v' → Like Q J (.toolUse id name v) (.toolUse id name v')
| imageUrl {url detail} :
    Like Q J (.imageUrl url detail) (.imageUrl url detail)
| inputAudio {data format} :
    Like Q J (.inputAudio data format) (.inputAudio data format)
| file {fileData fileId filename} :
    Like Q J (.file fileData fileId filename) (.file fileData fileId filename)

inductive MessageContent.Like (Q : Text → Text → Prop) (J : Value → Value → Prop) :
    MessageContent → MessageContent → Prop
| text {t t'} : Q t t' → Like Q J (.text t) (.text t')
| parts {ps ps'} :
    Forall₂ (ContentPart.Like Q J) ps ps' → Like Q J (.parts ps) (.parts ps')

section Relations

variable (R : Text → Text → Prop)

def ToolCall.Restored (tc tc' : ToolCall) : Prop :=
  ∃ input,
    Guardrail.Restored R .free tc.input input ∧ tc' = { tc with input := input }

def Message.Restored (m m' : Message) : Prop :=
  ∃ content toolCalls,
    m.content.Like R (Guardrail.Restored R .free) content ∧
      Rel (Forall₂ (ToolCall.Restored R)) m.toolCalls toolCalls ∧
      m' = { m with content := content, toolCalls := toolCalls }

def Tool.Restored (t t' : Tool) : Prop :=
  ∃ description inputSchema,
    Rel R t.description description ∧
      Guardrail.Restored R .free t.inputSchema inputSchema ∧
      t' = { t with
        description := description
        inputSchema := inputSchema }

structure RequestMetadata.Restored (md md' : RequestMetadata) : Prop where
  traceParent : Rel R md.traceParent md'.traceParent
  userId : Rel R md.userId md'.userId
  sessionId : Rel R md.sessionId md'.sessionId

inductive Stop.Restored : Stop → Stop → Prop
| one {t t'} : R t t' → Restored (.one t) (.one t')
| many {ts ts'} :
    Forall₂ R ts ts' → Restored (.many ts) (.many ts')

/- The message after its text has been rewritten. -/
def Message.TextRestored (m m' : Message) : Prop :=
  ∃ content,
    m.content.Like R Eq content ∧ m' = { m with content := content }

/- The message after its calls have been rewritten. -/
def Message.CallsRestored (m m' : Message) : Prop :=
  ∃ toolCalls,
    Rel (Forall₂ (ToolCall.Restored R)) m.toolCalls toolCalls ∧
      ∃ content,
        m.content.Like Eq (Guardrail.Restored R .free) content ∧
          m' = { m with
            toolCalls := toolCalls
            content := content }

/- The request after all but message text is rewritten. -/
def ChatRequest.SideRestored (req req' : ChatRequest) : Prop :=
  ∃ tools, Rel (Forall₂ (Tool.Restored R)) req.tools tools ∧
  ∃ messages, Forall₂ (Message.CallsRestored R) req.messages messages ∧
  ∃ responseFormat, Rel (Guardrail.Restored R .free) req.responseFormat responseFormat ∧
  ∃ user, Rel R req.user user ∧
  ∃ metadata, Rel (RequestMetadata.Restored R) req.metadata metadata ∧
  ∃ stop, Rel (Stop.Restored R) req.stop stop ∧
  ∃ extra,
    Forall₂
      (fun m m' : String × Value => m.1 = m'.1 ∧ Guardrail.Restored R .free m.2 m'.2)
      req.extra extra ∧
    req' = { req with
      tools := tools
      messages := messages
      responseFormat := responseFormat
      user := user
      metadata := metadata
      stop := stop
      extra := extra }

/- Every field that is not named here is the same. -/
def ChatRequest.Restored (req req' : ChatRequest) : Prop :=
  ∃ system messages tools responseFormat user metadata stop extra,
    Rel R req.system system ∧
    Forall₂ (Message.Restored R) req.messages messages ∧
    Rel (Forall₂ (Tool.Restored R)) req.tools tools ∧
    Rel (Guardrail.Restored R .free) req.responseFormat responseFormat ∧
    Rel R req.user user ∧
    Rel (RequestMetadata.Restored R) req.metadata metadata ∧
    Rel (Stop.Restored R) req.stop stop ∧
    Forall₂
      (fun m m' : String × Value => m.1 = m'.1 ∧ Guardrail.Restored R .free m.2 m'.2)
      req.extra extra ∧
    req' = { req with
      system := system
      messages := messages
      tools := tools
      responseFormat := responseFormat
      user := user
      metadata := metadata
      stop := stop
      extra := extra }

end Relations

/- A string that may be rewritten; a gated one is read first. -/
structure Slot where
  gated : Bool
  text : Text

def visitSlot (field string : Rewriter σ) (slot : Slot) : Pass σ Text :=
  if slot.gated then string slot.text else field slot.text

def ContentPart.texts : ContentPart → List Text
| .text t _ => [t]
| .toolResult _ t _ => [t]
| _ => []

def MessageContent.texts : MessageContent → List Text
| .text t => [t]
| .parts ps => ps.flatMap ContentPart.texts

def ContentPart.inputs : ContentPart → List Text
| .toolUse _ _ input => values .free input
| _ => []

def MessageContent.inputs : MessageContent → List Text
| .text _ => []
| .parts ps => ps.flatMap ContentPart.inputs

def Message.inputs (m : Message) : List Text :=
  m.toolCalls.toList.flatMap (fun tcs => tcs.flatMap (fun tc => values .free tc.input)) ++
    m.content.inputs

def Tool.texts (t : Tool) : List Text :=
  t.description.toList ++ values .free t.inputSchema

def RequestMetadata.texts (md : RequestMetadata) : List Text :=
  md.traceParent.toList ++ (md.userId.toList ++ md.sessionId.toList)

def Stop.sequences : Stop → List Text
| .one t => [t]
| .many ts => ts

/- The strings of `redact_side_in_place`. -/
def ChatRequest.sideTexts (req : ChatRequest) : List Text :=
  req.tools.toList.flatMap (fun ts => ts.flatMap Tool.texts) ++
    (req.messages.flatMap Message.inputs ++
      (req.responseFormat.toList.flatMap (values .free) ++
        (req.user.toList ++
          (req.metadata.toList.flatMap RequestMetadata.texts ++
            (req.stop.toList.flatMap Stop.sequences ++
              req.extra.flatMap (fun m => values .free m.2))))))

/- The strings of a request in the order they are visited. -/
def ChatRequest.slots (req : ChatRequest) : List Slot :=
  req.system.toList.map (fun t => ⟨false, t⟩) ++
    ((req.messages.flatMap (fun m => m.content.texts)).map (fun t => ⟨false, t⟩) ++
      req.sideTexts.map (fun t => ⟨true, t⟩))

section Fields

variable (field : Rewriter σ)

theorem redactPart_follows (p : ContentPart) :
    Follows field (redactPart field p) p.texts (fun R p' => p.Like R Eq p') := by
  cases p with
  | text t cacheControl =>
    apply ((follows_visit field t).into (fun t' => ContentPart.text t' cacheControl)).mono
    rintro R _ ⟨t', hR, rfl⟩
    exact .text hR
  | toolResult id t cacheControl =>
    apply ((follows_visit field t).into (fun t' => ContentPart.toolResult id t' cacheControl)).mono
    rintro R _ ⟨t', hR, rfl⟩
    exact .toolResult hR
  | toolUse id name input => exact follows_keep _ (fun _ => .toolUse rfl)
  | imageUrl url detail => exact follows_keep _ (fun _ => .imageUrl)
  | inputAudio data format => exact follows_keep _ (fun _ => .inputAudio)
  | file fileData fileId filename => exact follows_keep _ (fun _ => .file)

theorem redactMessage_follows (m : Message) :
    Follows field (redactMessage field m) m.content.texts (fun R m' => m.TextRestored R m') := by
  have hContent :
      Follows field (redactContent field m.content)
        m.content.texts
        (fun R content => m.content.Like R Eq content) := by
    cases m.content with
    | text t =>
      apply ((follows_visit field t).into _).mono
      rintro R _ ⟨t', hR, rfl⟩
      exact .text hR
    | parts ps =>
      apply ((follows_inEach (redactPart_follows field) ps).into _).mono
      rintro R _ ⟨ps', hParts, rfl⟩
      exact .parts hParts
  exact hContent.into _

end Fields

--
-- Every Other Text
--

section Side

variable (string : Rewriter σ)

theorem redactJson_follows (v : Value) :
    Follows string (redactJsonInPlace string v) (values .free v)
      (fun R v' => Restored R .free v v') :=
  redactWalk_follows string v .free

/- An optional string. -/
theorem option_follows (o : Option Text) :
    Follows string (inOption string o) o.toList (fun R o' => Rel R o o') := by
  have hOption := follows_inOption (fun t => follows_visit string t) o
  rw [flatMap_singleton'] at hOption
  exact hOption

theorem redactTool_follows (t : Tool) :
    Follows string (redactTool string t) t.texts (fun R t' => t.Restored R t') := by
  have hAll := (option_follows string t.description).andThen
    (fun description _ =>
      (redactJson_follows string t.inputSchema).into
        (fun inputSchema =>
          { t with
            description := description
            inputSchema := inputSchema }))
  apply hAll.mono
  rintro R _ ⟨description, hDescription, schema, hSchema, rfl⟩
  exact ⟨description, schema, hDescription, hSchema, rfl⟩

theorem redactToolCall_follows (tc : ToolCall) :
    Follows string (redactToolCall string tc)
      (values .free tc.input)
      (fun R tc' => tc.Restored R tc') :=
  (redactJson_follows string tc.input).into _

theorem redactToolUse_follows (p : ContentPart) :
    Follows string (redactToolUse string p) p.inputs
      (fun R p' => p.Like Eq (Restored R .free) p') := by
  cases p with
  | toolUse id name input =>
    apply ((redactJson_follows string input).into
      (fun input => ContentPart.toolUse id name input)).mono
    rintro R _ ⟨input', hInput, rfl⟩
    exact .toolUse hInput
  | text t cacheControl => exact follows_keep _ (fun _ => .text rfl)
  | toolResult id t cacheControl => exact follows_keep _ (fun _ => .toolResult rfl)
  | imageUrl url detail => exact follows_keep _ (fun _ => .imageUrl)
  | inputAudio data format => exact follows_keep _ (fun _ => .inputAudio)
  | file fileData fileId filename => exact follows_keep _ (fun _ => .file)

theorem redactCalls_follows (m : Message) :
    Follows string (redactCalls string m) m.inputs (fun R m' => m.CallsRestored R m') := by
  have hCalls :=
    follows_inOption (fun tcs => follows_inEach (redactToolCall_follows string) tcs) m.toolCalls
  have hContent :
      Follows string (redactToolUses string m.content)
        m.content.inputs
        (fun R content => m.content.Like Eq (Restored R .free) content) := by
    cases m.content with
    | text t => exact follows_keep _ (fun _ => .text rfl)
    | parts ps =>
      apply ((follows_inEach (redactToolUse_follows string) ps).into _).mono
      rintro R _ ⟨ps', hParts, rfl⟩
      exact .parts hParts
  exact hCalls.andThen (fun toolCalls _ => hContent.into _)

theorem redactMetadata_follows (md : RequestMetadata) :
    Follows string (redactMetadata string md) md.texts (fun R md' => md.Restored R md') := by
  have hAll := (option_follows string md.traceParent).andThen
    (fun traceParent _ =>
      (option_follows string md.userId).andThen
        (fun userId _ =>
          (option_follows string md.sessionId).into
            (fun sessionId =>
              ({ traceParent := traceParent
                 userId := userId
                 sessionId := sessionId } : RequestMetadata))))
  apply hAll.mono
  rintro R _ ⟨traceParent, hTrace, userId, hUser, sessionId, hSession, rfl⟩
  exact ⟨hTrace, hUser, hSession⟩

theorem redactStop_follows (stop : Stop) :
    Follows string (redactStop string stop) stop.sequences
      (fun R stop' => stop.Restored R stop') := by
  cases stop with
  | one t =>
    apply ((follows_visit string t).into Stop.one).mono
    rintro R _ ⟨t', hR, rfl⟩
    exact .one hR
  | many ts =>
    have hEach := follows_inEach (fun t => follows_visit string t) ts
    rw [flatMap_singleton'] at hEach
    apply (hEach.into Stop.many).mono
    rintro R _ ⟨ts', hTs, rfl⟩
    exact .many hTs

theorem redactMember_follows (member : String × Value) :
    Follows string (redactMember string member)
      (values .free member.2)
      (fun R member' => member.1 = member'.1 ∧ Restored R .free member.2 member'.2) := by
  apply ((redactJson_follows string member.2).into (fun v => (member.1, v))).mono
  rintro R _ ⟨v, hV, rfl⟩
  exact ⟨rfl, hV⟩

/- The request after its other texts have been rewritten. -/
theorem redactSide_follows (req : ChatRequest) :
    Follows string (redactSideInPlace string req) req.sideTexts
      (fun R req' => req.SideRestored R req') :=
  (follows_inOption (fun ts => follows_inEach (redactTool_follows string) ts)
    req.tools).andThen (fun _ _ =>
  (follows_inEach (redactCalls_follows string) req.messages).andThen (fun _ _ =>
  (follows_inOption (redactJson_follows string) req.responseFormat).andThen (fun _ _ =>
  (option_follows string req.user).andThen (fun _ _ =>
  (follows_inOption (redactMetadata_follows string) req.metadata).andThen (fun _ _ =>
  (follows_inOption (redactStop_follows string) req.stop).andThen (fun _ _ =>
  (follows_inEach (redactMember_follows string) req.extra).into _))))))

end Side

--
-- Both
--

variable {Q : Text → Text → Prop} {J : Value → Value → Prop}

/- Message text first, arguments second. -/
theorem ContentPart.Like.both {p p' p'' : ContentPart}
    (hText : p.Like Q Eq p') (hInput : p'.Like Eq J p'') :
    p.Like Q J p'' := by
  cases hText with
  | text hQ =>
    cases hInput with
    | text hEq => exact .text (hEq ▸ hQ)
  | toolResult hQ =>
    cases hInput with
    | toolResult hEq => exact .toolResult (hEq ▸ hQ)
  | toolUse hEq =>
    cases hInput with
    | toolUse hJ => exact .toolUse (hEq ▸ hJ)
  | imageUrl =>
    cases hInput with
    | imageUrl => exact .imageUrl
  | inputAudio =>
    cases hInput with
    | inputAudio => exact .inputAudio
  | file =>
    cases hInput with
    | file => exact .file

theorem MessageContent.Like.both
    {c c' c'' : MessageContent} (hText : c.Like Q Eq c') (hInput : c'.Like Eq J c'') :
    c.Like Q J c'' := by
  cases hText with
  | text hQ =>
    cases hInput with
    | text hEq => exact .text (hEq ▸ hQ)
  | parts hParts =>
    cases hInput with
    | parts hParts' =>
      apply MessageContent.Like.parts
      exact forall₂_trans (fun _ _ _ hFirst hSecond => hFirst.both hSecond) hParts hParts'

/- Rewriting message text changes no arguments. -/
theorem inputs_of_like {c c' : MessageContent} (hText : c.Like Q Eq c') :
    c'.inputs = c.inputs := by
  cases hText with
  | text hQ => rfl
  | parts hParts =>
    apply flatMap_congr_of_forall₂ hParts
    intro p p' hPart
    cases hPart with
    | toolUse hEq => rw [hEq]
    | text _ | toolResult _ | imageUrl | inputAudio | file => rfl

variable {R : Text → Text → Prop}

theorem Message.restored_of_both {m m' m'' : Message}
    (hText : m.TextRestored R m') (hCalls : m'.CallsRestored R m'') :
    m.Restored R m'' := by
  rcases hText with ⟨content, hContent, rfl⟩
  rcases hCalls with ⟨toolCalls, hToolCalls, content', hUses, rfl⟩
  exact ⟨content', toolCalls, hContent.both hUses, hToolCalls, rfl⟩

theorem sideTexts_of_textRestored {req : ChatRequest}
    {messages : List Message} (hMessages : Forall₂ (Message.TextRestored R) req.messages messages)
    (system : Option Text) :
    ChatRequest.sideTexts { req with system := system, messages := messages } = req.sideTexts := by
  have hInputs : messages.flatMap Message.inputs = req.messages.flatMap Message.inputs := by
    apply flatMap_congr_of_forall₂ hMessages
    rintro m m' ⟨content, hContent, rfl⟩
    unfold Message.inputs
    simp only
    rw [inputs_of_like hContent]
  unfold ChatRequest.sideTexts
  simp only
  rw [hInputs]

/-
  Redacting a request is visiting its slots; whatever holds between the strings and what became of
  them, the request is restored by it.
-/
theorem redactRequest_follows (field string : Rewriter σ) (req : ChatRequest) :
    Follows (visitSlot field string)
      (redactRequestWith field string req) req.slots
      (fun R req' =>
        ∀ Q : Text → Text → Prop, (R = fun slot t => Q slot.text t) → req.Restored Q req') := by
  have hSystem :
      Follows (fun t => visitSlot field string ⟨false, t⟩)
        (inOption field req.system) req.system.toList
        (fun R o => Rel R req.system o) :=
    option_follows field req.system
  have hMessages :
      Follows (fun t => visitSlot field string ⟨false, t⟩)
        (inEach (redactMessage field) req.messages)
        (req.messages.flatMap (fun m => m.content.texts))
        (fun R ms => Forall₂ (Message.TextRestored R) req.messages ms) :=
    follows_inEach (redactMessage_follows field) req.messages
  have hSide :
      ∀ system messages,
        Forall₂ (Message.TextRestored (fun _ _ => True)) req.messages messages →
          Follows (fun t => visitSlot field string ⟨true, t⟩)
            (redactSideInPlace string { req with system := system, messages := messages })
            req.sideTexts
            (fun R req' =>
              ChatRequest.SideRestored R
                { req with
                  system := system
                  messages := messages } req') := by
    intro system messages hShape
    rw [← sideTexts_of_textRestored hShape system]
    exact redactSide_follows string _
  have hAll :=
    hSystem.among.andThen (fun system _ =>
      hMessages.among.andThen (fun messages hShape => (hSide system messages hShape).among))
  apply hAll.mono
  rintro _ req' hRel Q rfl
  rcases hRel with
    ⟨system, hSys, messages, hTexts, tools, hTools, messages',
      hCalls, responseFormat, hFormat, user, hUser, metadata,
      hMetadata, stop, hStop, extra, hExtra, rfl⟩
  refine ⟨system, messages', tools, responseFormat, user, metadata, stop, extra, hSys, ?_, hTools,
    hFormat, hUser, hMetadata, hStop, hExtra, rfl⟩
  have hBoth :
      ∀ m m' m'' : Message, m.TextRestored Q m' → m'.CallsRestored Q m'' → m.Restored Q m'' :=
    fun _ _ _ hText hCall => Message.restored_of_both hText hCall
  exact forall₂_trans hBoth hTexts hCalls

end Tracelane.Guardrail
