import Tracelane.Guardrail.Requests
import Tracelane.Lib.Framing

/-
  The cache identity of a chat request: two hashes, one over its parameters and one over these and
  its messages.

  The hash and the JSON printers are parameters.  A 32-bit float is the pattern of its bits.
-/

namespace Tracelane.Cache

open Framing
open Guardrail

--
-- Requests
--

/- The bits of an `f32`. -/
abbrev F32 := UInt32

def minusOne : F32 := 0xBF800000

/- The fields of a request that its key is made of. -/
structure ChatRequest where
  model : Text
  messages : List Message := []
  tools : Option (List Tool) := none
  toolChoice : Option ToolChoice := none
  maxTokens : Option UInt32 := none
  temperature : Option F32 := none
  topP : Option F32 := none
  seed : Option UInt64 := none
  logprobs : Option Bool := none
  topLogprobs : Option UInt8 := none
  system : Option Text := none
  stop : Option Stop := none
  responseFormat : Option Value := none
  reasoningEffort : Option Text := none
  maxCompletionTokens : Option UInt32 := none
  presencePenalty : Option F32 := none
  frequencyPenalty : Option F32 := none
  parallelToolCalls : Option Bool := none
  extra : List (String × Value) := []

/- How `serde_json` and `canonical_json` print. -/
structure Serde where
  str : Text → Text
  tool : Tool → Text
  parts : List ContentPart → Text
  toolCalls : List ToolCall → Text
  canonicalJson : Value → Text

def sequences : Stop → List Text
| .one sequence => [sequence]
| .many sequences => sequences

/- The name `Debug` prints. -/
def roleName : Role → String
| .system => "System"
| .user => "User"
| .assistant => "Assistant"
| .tool => "Tool"

structure RequestKey where
  canaryNamespace : Text
  bypass : Bool
  ttlHours : Option UInt32
  exactHash : String
  paramsHash : String
  embedText : String
deriving DecidableEq

--
-- Parameters
--

/- The parameters that are hashed only when present. -/
inductive Field where
| tools
| toolChoice
| topP
| seed
| logprobs
| topLogprobs
| stop
| responseFormat
| reasoningEffort
| maxCompletionTokens
| presencePenalty
| frequencyPenalty
| parallelToolCalls
| extra
deriving DecidableEq

namespace Field

/- In the order they are hashed. -/
def all : List Field :=
  [tools, toolChoice, topP, seed, logprobs, topLogprobs, stop,
    responseFormat, reasoningEffort, maxCompletionTokens,
    presencePenalty, frequencyPenalty, parallelToolCalls, extra]

/- The two oldest have none. -/
def tag : Field → String
| tools => ""
| toolChoice => ""
| topP => "top_p="
| seed => "seed="
| logprobs => "logprobs="
| topLogprobs => "top_logprobs="
| stop => "stop="
| responseFormat => "response_format="
| reasoningEffort => "reasoning_effort="
| maxCompletionTokens => "max_completion_tokens="
| presencePenalty => "presence_penalty="
| frequencyPenalty => "frequency_penalty="
| parallelToolCalls => "parallel_tool_calls="
| extra => "extra="

end Field

def u32Le (n : UInt32) : Bytes :=
  leBytes 4 n.toNat

def u64Le (n : UInt64) : Bytes :=
  leBytes 8 n.toNat

def boolByte (b : Bool) : Bytes :=
  [if b then 1 else 0]

def hashField (t : Text) : Bytes :=
  framed t.bytes

section Streams

variable (serde : Serde)

/- `Serialize for ToolChoice`. -/
def toolChoiceJson : ToolChoice → Bytes
| .auto => utf8 "\"auto\""
| .none => utf8 "\"none\""
| .required => utf8 "\"required\""
| .function name =>
    utf8 "\x7b\"type\":\"function\",\"function\":\x7b\"name\":" ++
      ((serde.str name).bytes ++ utf8 "\x7d\x7d")

/- What is hashed of a field, after its tag. -/
def fieldValue (r : ChatRequest) : Field → Option Bytes
| .tools =>
    r.tools.map (counted 4 (fun tool => (serde.tool tool).bytes))
| .toolChoice => r.toolChoice.map (toolChoiceJson serde)
| .topP => r.topP.map u32Le
| .seed => r.seed.map u64Le
| .logprobs => r.logprobs.map boolByte
| .topLogprobs => r.topLogprobs.map (fun n => [n])
| .stop =>
    (r.stop.map sequences).map (counted 8 hashField)
| .responseFormat =>
    r.responseFormat.map (fun v => hashField (serde.canonicalJson v))
| .reasoningEffort => r.reasoningEffort.map hashField
| .maxCompletionTokens => r.maxCompletionTokens.map u32Le
| .presencePenalty => r.presencePenalty.map u32Le
| .frequencyPenalty => r.frequencyPenalty.map u32Le
| .parallelToolCalls => r.parallelToolCalls.map boolByte
| .extra =>
    if r.extra.isEmpty then none
    else
      some (hashField (serde.canonicalJson (.object r.extra)))

def field (r : ChatRequest) (f : Field) : Option Bytes :=
  (fieldValue serde r f).map (utf8 f.tag ++ ·)

/- The two parameters that are always hashed. -/
def counts (r : ChatRequest) : Bytes :=
  u32Le (r.maxTokens.getD 0) ++ u32Le (r.temperature.getD minusOne)

def modelBytes (r : ChatRequest) : Bytes :=
  r.model.bytes

def systemBytes (r : ChatRequest) : Bytes :=
  (r.system.map Text.bytes).getD []

variable (blake3 : Bytes → ByteArr 32)

def hexDigest (stream : Bytes) : String :=
  hexEncode (blake3 stream).bytes

def callIdBytes (m : Message) : Bytes :=
  (m.toolCallId.map Text.bytes).getD []

def callsBytes (m : Message) : Bytes :=
  (m.toolCalls.map (fun calls => (serde.toolCalls calls).bytes)).getD []

def messageMark : Bytes :=
  1 :: utf8 "msg"

/- The tool calls of the conversation, if it has any. -/
def toolHistoryDigest (messages : List Message) :
    Option String :=
  if messages.any (fun m =>
      m.toolCallId.isSome || m.toolCalls.any (fun calls => !calls.isEmpty)) then
    some (hexDigest blake3
      (messages.flatMap (fun m =>
        messageMark ++ (framed (callIdBytes m) ++ framed (callsBytes serde m)))))
  else none

def historyTag : String := "tool_history="

/- The mark a conversation with tool calls leaves. -/
def historyBytes (r : ChatRequest) : Bytes :=
  ((toolHistoryDigest serde blake3 r.messages).map
    (fun digest => utf8 historyTag ++ utf8 digest)).getD []

def paramsStream (r : ChatRequest) : Bytes :=
  modelBytes r ++
    (counts r ++
      (joined Field.all (field serde r) ++ (systemBytes r ++ historyBytes serde blake3 r)))

def contentFields : MessageContent → List Bytes
| .text text => [utf8 "text", text.bytes]
| .parts parts => [utf8 "parts", (serde.parts parts).bytes]

/- The fields of a message, each hashed with its length. -/
def messageFields (m : Message) : List Bytes :=
  utf8 (roleName m.role) ::
    (contentFields serde m.content ++ [callIdBytes m, callsBytes serde m])

def exactStream (paramsHash : String) (r : ChatRequest) : Bytes :=
  utf8 "tracelane.semantic-cache.exact.v2\x00" ++
    (utf8 paramsHash ++
      (r.messages.map (messageFields serde)).flatMap
        (fun fields => messageMark ++ fields.flatMap framed))

def embedText (r : ChatRequest) : String :=
  r.messages.foldl
    (fun text m =>
      text ++ roleName m.role ++ ":" ++
        (match m.content with
        | .text t => t.str
        | .parts parts => (serde.parts parts).str) ++ "\n")
    ""

def requestKey (r : ChatRequest) : RequestKey where
  canaryNamespace := ⟨"", Text.fits_empty⟩
  bypass := false
  ttlHours := none
  exactHash :=
    hexDigest blake3 (exactStream serde (hexDigest blake3 (paramsStream serde blake3 r)) r)
  paramsHash := hexDigest blake3 (paramsStream serde blake3 r)
  embedText := embedText serde r

end Streams

--
-- Policies and Namespaces
--

section Rekey

variable (blake3 : Bytes → ByteArr 32)

/- Hash a hash with what is to tell its uses apart. -/
def rehash (more : Bytes) (hash : String) : String :=
  hexDigest blake3 (framed (utf8 hash) ++ more)

def RequestKey.rekey (more : Bytes) (key : RequestKey) : RequestKey :=
  { key with
    exactHash := rehash blake3 more key.exactHash
    paramsHash := rehash blake3 more key.paramsHash }

/- What of a policy its key depends on. -/
structure CachePolicy where
  bypass : Bool := false
  ttlHours : Option UInt32 := none
  /- The digest of the namespace and the epochs. -/
  fold : Option (ByteArr 32) := none
deriving DecidableEq

def CachePolicy.key (policy : CachePolicy) (key : RequestKey) : RequestKey :=
  let key :=
    { key with
      bypass := policy.bypass
      ttlHours := policy.ttlHours }
  let key :=
    match policy.ttlHours with
    | some ttl => key.rekey blake3 (framed (u32Le ttl))
    | none => key
  match policy.fold with
  | some fold => key.rekey blake3 (framed fold.bytes)
  | none => key

structure CanaryCacheContext where
  canaryNamespace : Text
  suspended : Bool

/- The context of the tenant, and the namespace of its route. -/
def bindKey (context : CanaryCacheContext) (routeNamespace : Option Text)
    (key : RequestKey) : RequestKey :=
  let key :=
    { key with
      canaryNamespace := context.canaryNamespace
      bypass := key.bypass || context.suspended }
  if key.canaryNamespace.str ≠ "" ∨ routeNamespace.isSome then
    key.rekey blake3 (hashField key.canaryNamespace ++ (routeNamespace.map hashField).getD [])
  else key

end Rekey

end Tracelane.Cache
