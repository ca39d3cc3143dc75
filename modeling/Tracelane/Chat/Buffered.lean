import Tracelane.Guardrail.ResponseSeam
import Tracelane.Audit.Rekor

/-
  The two ways a provider's events become an answer under one response guard: buffered into a single
  completion, or streamed as chunks that a client folds.
-/

namespace Tracelane.Chat

open Seam

--
-- Buffered
--

/- What the buffered loop folds the events into. -/
structure BufferedState where
  text : String := ""
  tally : Tally := {}
  served : ServedMeta := {}
  toolCalls : ToolCallAccumulator := []
  providerFinish : Option FinishReason := none
  logprobs : LogprobAccumulator := {}
  streamError : Option String := none
  timeout : Option Timeout := none
deriving DecidableEq

namespace BufferedState

/- The text of a whole response takes the place of the deltas'. -/
def absorbText (text : String) (response : ChatResponse) : String :=
  match response.choices.head?.map Choice.content with
  | some (.text t) => t
  | _ => text

def absorb (b : BufferedState) (ev : ProviderEvent) : BufferedState :=
  let b := { b with tally := b.tally.absorb ev }
  match ev with
  | .toolCallDelta index id name inputDelta =>
      { b with
        toolCalls :=
          ToolCallAccumulator.push b.toolCalls index id name inputDelta }
  | .finish reason => { b with providerFinish := some reason }
  | .streamChunk delta => { b with text := b.text ++ delta }
  | .logprobsDelta logprobs => { b with logprobs := b.logprobs.absorb logprobs }
  | .responseMeta id model systemFingerprint =>
      { b with served := b.served.absorb id model systemFingerprint }
  | .done response =>
      { b with
        served :=
          b.served.absorb (if response.id = "" then none else some response.id)
            (if response.model = "" then none
              else some response.model)
            none
        text := absorbText b.text response
        providerFinish := response.reportedFinish.or b.providerFinish
        toolCalls :=
          ToolCallAccumulator.absorbResponseCalls b.toolCalls response }
  | _ => b

/- Fold the items up to an error, which ends the loop. -/
def absorbAll (b : BufferedState) :
    List ProviderItem → BufferedState
| [] => b
| .ok ev :: rest => absorbAll (b.absorb ev) rest
| .error err :: _ =>
    match err.timeout with
    | some timeout =>
        { b with
          streamError := some "upstream_timeout"
          timeout := some timeout }
    | none => { b with streamError := some "provider_stream_error" }

def finishReason (b : BufferedState) : String :=
  deriveFinishReason (!b.toolCalls.isEmpty) b.providerFinish

end BufferedState

/- A tool call of a completion. -/
structure CompletionCall where
  id : String
  name : String
  arguments : String
deriving DecidableEq

/- No arguments become an empty object. -/
def defaultArguments (arguments : String) : String :=
  if (Verifier.trim arguments.toList).isEmpty then "\x7b\x7d"
  else arguments

/- A call without an id is given one from its index. -/
def ToolCallSlot.toOpenaiJson (slot : ToolCallSlot) : CompletionCall where
  id := slot.id.getD ("call_" ++ toString slot.index)
  name := slot.name.getD ""
  arguments := defaultArguments slot.arguments

/- The body of a buffered answer. -/
inductive BufferedBody where
| completion (content : String) (toolCalls : List CompletionCall)
    (finishReason : String) (usage : ChunkUsage)
| contentFilter (reasonCode : String) (usage : ChunkUsage)
| upstreamTimeout (timeout : Timeout)
deriving DecidableEq

section Paths

variable (rails : Rails)

def BufferedState.usage (b : BufferedState) : ChunkUsage where
  promptTokens := b.tally.inputTokens
  completionTokens := b.tally.outputTokens
  totalTokens := b.tally.inputTokens + b.tally.outputTokens
  cachedTokens := none

/- The whole text goes through the guard in one delta. -/
def guardBuffered (b : BufferedState) : Option BufferedBody := do
  let refused :=
    if b.toolCalls.isEmpty then (none, {})
    else ResponseGuard.refuseUnscannedOutput rails {}
  match refused with
  | (some reason, _) => return .contentFilter reason b.usage
  | (none, g) =>
      let (first, g) ← g.onDelta rails b.text b.tally.usage
      match first with
      | .block reason => return .contentFilter reason b.usage
      | .emit head =>
          let (second, _) ← g.onEnd rails b.tally.usage
          match second with
          | .block reason => return .contentFilter reason b.usage
          | .emit tail =>
              return .completion (head ++ tail)
                (b.toolCalls.map ToolCallSlot.toOpenaiJson)
                b.finishReason b.usage

def bufferProviderStream (items : List ProviderItem) : Option BufferedBody :=
  let b := BufferedState.absorbAll {} items
  match b.timeout with
  | some timeout => some (.upstreamTimeout timeout)
  | none => guardBuffered rails b

/- The usage a delta is judged with. -/
def Tally.deltaUsage (t : Tally) : Usage where
  inputTokens := t.inputTokens
  outputTokens := t.outputTokens
  cacheReadInputTokens := none
  cacheCreationInputTokens := none

/- What the generator yields when it is polled to its end, with this guard and these items. -/
def streamEvents (g : ResponseGuard) (fin : StreamFinalizer) :
    List ProviderItem → Option (List SseEvent)
| [] => do
    let (answer, _) ← g.onEnd rails none
    return (onEnd fin answer).2.1
| item :: rest =>
    match onEvent fin (some item) with
    | (_, .inr events) => some events
    | (fin, .inl .event) => streamEvents g fin rest
    | (fin, .inl (.delta text)) => do
        let (answer, g) ←
          g.onDelta rails text (some fin.tally.deltaUsage)
        let r := onDelta fin answer
        if r.2.2 then return r.2.1
        else return r.2.1 ++ (← streamEvents g r.1 rest)
    | (fin, .inl (.tool d)) => do
        let (refused, g) := g.refuseUnscannedOutput rails
        let r := onTool fin d refused
        if r.2.2 then return r.2.1
        else return r.2.1 ++ (← streamEvents g r.1 rest)
    | (fin, .inl .theDone) => do
        let (answer, _) ← g.onEnd rails (some fin.tally.usage)
        return (onDone fin answer).2.1
    | (fin, .inl .theEnd) => do
        let (answer, _) ← g.onEnd rails none
        return (onEnd fin answer).2.1

end Paths

/- What an OpenAI client folds the chunks into. -/
structure ClientAnswer where
  content : String := ""
  toolCalls : ToolCallAccumulator := []
  finishReason : Option String := none
deriving DecidableEq

/- Content is appended, tool calls are merged by index, and the last finish reason stays. -/
def ClientAnswer.absorb (a : ClientAnswer) :
    SseEvent → ClientAnswer
| .chunk c =>
    { content := a.content ++ c.content.getD ""
      toolCalls :=
        c.toolCalls.foldl
          (fun slots d => ToolCallAccumulator.push slots d.index d.id d.name d.arguments)
          a.toolCalls
      finishReason := c.finishReason.or a.finishReason }
| _ => a

def ClientAnswer.fold (a : ClientAnswer) (events : List SseEvent) : ClientAnswer :=
  events.foldl ClientAnswer.absorb a

end Tracelane.Chat
