import Mathlib.Data.Rat.Init
import Tracelane.Guardrail.Egress
import Tracelane.Guardrail.Reversible
import Tracelane.Lib.InPlace

/-
  Request redaction: the strings of an outgoing request are rewritten in place, and one map collects
  the placeholders of them all.

  A typed request has its message text rewritten first and every other text that may be rewritten
  after it.  A relay body is rewritten by the egress walk and then read once more; what is left of a
  secret refuses it.
-/

namespace Tracelane.Guardrail

open InPlace

--
-- One String
--

/- The placeholders of a request so far. -/
abbrev RedactionMap :=
  List RedactionEntry

/- A text that an allocation can hold. -/
def textOf (cs : List Char) : Option Text :=
  if h : (ofChars cs).utf8ByteSize < 2 ^ 63 then
    some ⟨ofChars cs, h⟩
  else none

section Strings

variable (D : Detectors) (policy : Option PiiPolicy)

/- The closure `redact_field`. -/
def redactField : Rewriter RedactionMap :=
  fun text map =>
    let r := redactSelective D policy (chars text.str) map.length
    if r.entries.isEmpty then some (map, text)
    else
      (textOf r.redacted).map (fun text => (map ++ r.entries, text))

/- A text with nothing left to redact is not rewritten. -/
def redactString : Rewriter RedactionMap :=
  fun text map =>
    if residual D policy (chars text.str) then
      redactField D policy text map
    else some (map, text)

end Strings

--
-- Typed Requests
--

inductive Role where
| system
| user
| assistant
| tool
deriving DecidableEq

inductive ContentPart where
| text (text : Text) (cacheControl : Option Value)
| imageUrl (url : Text) (detail : Option Text)
| toolUse (id name : Text) (input : Value)
| toolResult (toolUseId content : Text) (cacheControl : Option Value)
| inputAudio (data format : Text)
| file (fileData fileId filename : Option Text)

inductive MessageContent where
| text (text : Text)
| parts (parts : List ContentPart)

structure ToolCall where
  id : Text
  name : Text
  input : Value

structure Message where
  role : Role
  content : MessageContent
  toolCallId : Option Text := none
  toolCalls : Option (List ToolCall) := none

structure Tool where
  name : Text
  description : Option Text
  inputSchema : Value

inductive ToolChoice where
| auto
| none
| required
| function (name : Text)

inductive Stop where
| one (sequence : Text)
| many (sequences : List Text)

structure RequestMetadata where
  traceParent : Option Text := none
  userId : Option Text := none
  sessionId : Option Text := none

/- The other fields of the request come in key order. -/
structure ChatRequest where
  model : Text
  messages : List Message
  tools : Option (List Tool) := none
  toolChoice : Option ToolChoice := none
  maxTokens : Option Nat := none
  temperature : Option ℚ := none
  topP : Option ℚ := none
  seed : Option Nat := none
  logprobs : Option Bool := none
  topLogprobs : Option Nat := none
  stream : Option Bool := none
  system : Option Text := none
  metadata : Option RequestMetadata := none
  stop : Option Stop := none
  responseFormat : Option Value := none
  reasoningEffort : Option Text := none
  maxCompletionTokens : Option Nat := none
  presencePenalty : Option ℚ := none
  frequencyPenalty : Option ℚ := none
  parallelToolCalls : Option Bool := none
  user : Option Text := none
  serviceTier : Option Text := none
  n : Option Nat := none
  extra : List (String × Value) := []

section Passes

variable {σ : Type}

-- The two rewrites of a string: the one of message text, and
-- the one of every other text.
variable (field string : Rewriter σ)

def redactPart : ContentPart → Pass σ ContentPart
| .text text cacheControl =>
    into (fun text => .text text cacheControl) (field text)
| .toolResult toolUseId content cacheControl =>
    into
      (fun content => .toolResult toolUseId content cacheControl)
      (field content)
| part => keep part

def redactContent : MessageContent → Pass σ MessageContent
| .text text => into .text (field text)
| .parts parts => into .parts (inEach (redactPart field) parts)

def redactMessage (m : Message) : Pass σ Message :=
  into (fun content => { m with content := content }) (redactContent field m.content)

/- A free-form value; nothing is opaque inside one. -/
def redactJsonInPlace (v : Value) : Pass σ Value :=
  redactWalk string v .free

def redactTool (t : Tool) : Pass σ Tool :=
  andThen (inOption string t.description) (fun description =>
    into
      (fun inputSchema =>
        { t with
          description := description
          inputSchema := inputSchema })
      (redactJsonInPlace string t.inputSchema))

def redactToolCall (tc : ToolCall) : Pass σ ToolCall :=
  into (fun input => { tc with input := input }) (redactJsonInPlace string tc.input)

def redactToolUse : ContentPart → Pass σ ContentPart
| .toolUse id name input =>
    into (fun input => .toolUse id name input) (redactJsonInPlace string input)
| part => keep part

def redactToolUses : MessageContent → Pass σ MessageContent
| .text text => keep (.text text)
| .parts parts =>
    into .parts (inEach (redactToolUse string) parts)

def redactCalls (m : Message) : Pass σ Message :=
  andThen (inOption (inEach (redactToolCall string)) m.toolCalls)
    (fun toolCalls =>
      into (fun content => { m with toolCalls := toolCalls, content := content })
        (redactToolUses string m.content))

def redactMetadata (md : RequestMetadata) :
    Pass σ RequestMetadata :=
  andThen (inOption string md.traceParent) (fun traceParent =>
    andThen (inOption string md.userId) (fun userId =>
      into
        (fun sessionId =>
          { traceParent := traceParent
            userId := userId
            sessionId := sessionId })
        (inOption string md.sessionId)))

def redactStop : Stop → Pass σ Stop
| .one sequence => into .one (string sequence)
| .many sequences => into .many (inEach string sequences)

def redactMember (member : String × Value) :
    Pass σ (String × Value) :=
  into (fun v => (member.1, v)) (redactJsonInPlace string member.2)

def redactSideInPlace (req : ChatRequest) : Pass σ ChatRequest :=
  andThen (inOption (inEach (redactTool string)) req.tools) (fun tools =>
  andThen (inEach (redactCalls string) req.messages) (fun messages =>
  andThen (inOption (redactJsonInPlace string) req.responseFormat) (fun responseFormat =>
  andThen (inOption string req.user) (fun user =>
  andThen (inOption (redactMetadata string) req.metadata) (fun metadata =>
  andThen (inOption (redactStop string) req.stop) (fun stop =>
  into
    (fun extra =>
      { req with
        tools := tools
        messages := messages
        responseFormat := responseFormat
        user := user
        metadata := metadata
        stop := stop
        extra := extra })
    (inEach (redactMember string) req.extra)))))))

def redactRequestWith (req : ChatRequest) : Pass σ ChatRequest :=
  andThen (inOption field req.system) (fun system =>
  andThen (inEach (redactMessage field) req.messages)
    (fun messages =>
      redactSideInPlace string { req with system := system, messages := messages }))

end Passes

variable (D : Detectors) (policy : Option PiiPolicy)

def redactRequestInPlace (req : ChatRequest) : Option (RedactionMap × ChatRequest) :=
  redactRequestWith (redactField D policy) (redactString D policy) req []

/- Something that would be redacted is still forwarded. -/
def residualInJson (v : Value) : Option Bool :=
  (egressLeaves
    (fun leaf (_ : Unit) =>
      match leaf.1 with
      | .text t => ((), residual D policy (chars t))
      | .unscannable => ((), true))
    v ()).map (fun r => r.2)

/- The walk over a relay body, from an empty map. -/
def redactBody (body : Value) : Option (RedactionMap × Value) :=
  redactWalk (redactString D policy) body .root []

inductive Relayed where
| forwarded (map : RedactionMap) (body : Value)
| unredactable

def redactRelayBody (body : Value) : Option Relayed :=
  (redactBody D policy body).bind (fun r =>
    (residualInJson D policy r.2).map (fun left =>
      if left then .unredactable else .forwarded r.1 r.2))

end Tracelane.Guardrail
