import Mathlib.Data.Rat.Init

/-
  What a provider adapter streams, and the accumulators both chat paths fold it into.

  The arguments of a whole tool call are its JSON text, as `Value::to_string` prints it.
-/

namespace Tracelane.Chat

--
-- Finish Reasons
--

inductive FinishReason where
| stop
| length
| toolCalls
| contentFilter
deriving DecidableEq

namespace FinishReason

/- The OpenAI spelling. -/
def asStr : FinishReason → String
| .stop => "stop"
| .length => "length"
| .toolCalls => "tool_calls"
| .contentFilter => "content_filter"

def fromOpenaiFinishReason (reason : String) :
    Option FinishReason :=
  if reason = "stop" then some .stop
  else if reason = "length" then some .length
  else if reason = "tool_calls" ∨ reason = "function_call" then
    some .toolCalls
  else if reason = "content_filter" then some .contentFilter
  else none

end FinishReason

/-
  A truncated or filtered answer says so first; then the
  presence of tool calls wins over the provider's own word.
-/
def deriveFinishReason (hasToolCalls : Bool) (provider : Option FinishReason) : String :=
  match provider with
  | some .length => FinishReason.length.asStr
  | some .contentFilter => FinishReason.contentFilter.asStr
  | other =>
      if hasToolCalls then FinishReason.toolCalls.asStr
      else (other.getD .stop).asStr

structure Usage where
  inputTokens : Nat
  outputTokens : Nat
  cacheReadInputTokens : Option Nat
  cacheCreationInputTokens : Option Nat
deriving DecidableEq

inductive MessageContent where
| text (t : String)
| parts
deriving DecidableEq

structure ToolCall where
  id : String
  name : String
  input : String
deriving DecidableEq

structure Choice where
  content : MessageContent
  toolCalls : Option (List ToolCall)
  finishReason : Option String
deriving DecidableEq

structure ChatResponse where
  id : String
  model : String
  choices : List Choice
  usage : Option Usage
deriving DecidableEq

inductive ProviderEvent where
| streamChunk (delta : String)
| toolCallDelta (index : Nat) (id name : Option String) (inputDelta : String)
| thinkingDelta (delta : String)
| usageUpdate (inputTokens outputTokens : Nat)
    (cacheRead cacheCreation : Option Nat)
    (costUsd : Option ℚ) (reasoning : Option Nat)
| finish (reason : FinishReason)
| logprobsDelta (logprobs : List ℚ)
| responseMeta (id model systemFingerprint : Option String)
| done (response : ChatResponse)
deriving DecidableEq

/- A read or idle limit of the upstream that ran out. -/
structure Timeout where
  phase : String
  limitMs : Nat
deriving DecidableEq

/- An error that ends the stream; whether it is a timeout. -/
structure StreamError where
  timeout : Option Timeout
deriving DecidableEq

abbrev ProviderItem := Except StreamError ProviderEvent

--
-- Accumulators
--

/- Counts only grow within a request: keep the larger. -/
def mergeUsageTokens (acc : Nat × Nat) (inputTokens outputTokens : Nat) : Nat × Nat :=
  (max acc.1 inputTokens, max acc.2 outputTokens)

/- The provider's identity claims; the first of each stays. -/
structure ServedMeta where
  id : Option String := none
  model : Option String := none
  systemFingerprint : Option String := none
deriving DecidableEq

def ServedMeta.absorb (s : ServedMeta) (id model systemFingerprint : Option String) :
    ServedMeta where
  id := s.id.or id
  model := s.model.or model
  systemFingerprint := s.systemFingerprint.or systemFingerprint

def maxLogprobTokens : Nat := 2048

structure LogprobAccumulator where
  sum : ℚ := 0
  min : Option ℚ := none
  count : Nat := 0
deriving DecidableEq

def LogprobAccumulator.absorb (acc : LogprobAccumulator) (logprobs : List ℚ) : LogprobAccumulator :=
  logprobs.foldl
    (fun acc lp =>
      if maxLogprobTokens ≤ acc.count then acc
      else
        { sum := acc.sum + lp
          min :=
            some (acc.min.elim lp (fun m => if m ≤ lp then m else lp))
          count := acc.count + 1 })
    acc

structure ToolCallSlot where
  index : Nat
  id : Option String
  name : Option String
  arguments : String
deriving DecidableEq

/- The calls in the order their indices first came. -/
abbrev ToolCallAccumulator := List ToolCallSlot

namespace ToolCallAccumulator

/- A later id or name replaces the one there is. -/
def extend (slot : ToolCallSlot) (id name : Option String) (delta : String) : ToolCallSlot where
  index := slot.index
  id := id.or slot.id
  name := name.or slot.name
  arguments := slot.arguments ++ delta

/- Extend the first slot of an index, or open one. -/
def push (slots : ToolCallAccumulator) (index : Nat) (id name : Option String)
    (delta : String) : ToolCallAccumulator :=
  match slots with
  | [] => [extend ⟨index, none, none, ""⟩ id name delta]
  | slot :: rest =>
      if slot.index = index then
        extend slot id name delta :: rest
      else slot :: push rest index id name delta

/- Push the calls of a list under their positions. -/
def pushCalls (slots : ToolCallAccumulator) (calls : List ToolCall) : ToolCallAccumulator :=
  calls.zipIdx.foldl
    (fun slots c => push slots c.2 (some c.1.id) (some c.1.name) c.1.input)
    slots

/- The calls of a whole response, unless deltas already brought some. -/
def absorbResponseCalls (slots : ToolCallAccumulator)
    (response : ChatResponse) : ToolCallAccumulator :=
  if slots.isEmpty then
    match response.choices.head?.bind Choice.toolCalls with
    | some calls => pushCalls slots calls
    | none => slots
  else slots

end ToolCallAccumulator

/- The finish reason a whole response reports. -/
def ChatResponse.reportedFinish (response : ChatResponse) : Option FinishReason :=
  (response.choices.head?.bind Choice.finishReason).bind FinishReason.fromOpenaiFinishReason

end Tracelane.Chat
