import Tracelane.Chat.Spans

/-
  The streamed chat answer: a generator that turns provider events into SSE chunks, and the two drop
  guards that record the request.

  The generator is cut at its awaits and yields.  At each of them it may be dropped, because the
  client hung up; before its first poll the dispatch guard then records the request, and later the
  stream finalizer does.
-/

namespace Tracelane.Chat

--
-- Chunks
--

structure ToolCallDelta where
  index : Nat
  id : Option String
  name : Option String
  arguments : String
deriving DecidableEq

structure ChunkUsage where
  promptTokens : Nat
  completionTokens : Nat
  totalTokens : Nat
  cachedTokens : Option Nat
deriving DecidableEq

/- A `chat.completion.chunk`: its one choice and the rest. -/
structure Chunk where
  content : Option String := none
  toolCalls : List ToolCallDelta := []
  finishReason : Option String := none
  usage : Option ChunkUsage := none
  reasonCode : Option String := none
deriving DecidableEq

inductive SseEvent where
| chunk (c : Chunk)
| error (timeout : Timeout)
/- The `[DONE]` sentinel. -/
| done
deriving DecidableEq

inductive GuardStep where
| emit (text : String)
| block (reasonCode : String)
deriving DecidableEq

--
-- Finalizer
--

/- What the loop accumulates. -/
structure StreamFinalizer where
  tally : Tally := {}
  streamError : Option String := none
  guardBlocked : Bool := false
  sawToolCall : Bool := false
  providerFinish : Option FinishReason := none
  served : ServedMeta := {}
  toolCalls : ToolCallAccumulator := []
  logprobs : LogprobAccumulator := {}
  dispatchAttempts : List Timeout := []
deriving DecidableEq

inductive Recorder where
| dispatchGuard
| streamFinalizer
deriving DecidableEq

/- What was done about a request. -/
structure Log where
  recorders : List Recorder := []
  spans : List Span := []
  metered : List Nat := []
  spends : List (Subject × Nat) := []
  published : List Span := []
  droppedNoNats : Nat := 0
deriving DecidableEq

section Finalize

variable (ctx : RequestContext)

/- `bytes / 4`, and none for no bytes. -/
def estimateTokens (bytes : Nat) : Option Nat :=
  if bytes = 0 then none
  else some (min (max (bytes / 4) 1) (2 ^ 32 - 1))

/- A stream that reported no usage is given an estimate. -/
def estimateUsage (fin : StreamFinalizer) (span : Span) : Span :=
  if fin.tally.inputTokens = 0 ∧ fin.tally.outputTokens = 0 ∧
      0 < ctx.inputBytesForEstimate then
    { span with
      inputTokens := estimateTokens ctx.inputBytesForEstimate
      outputTokens := estimateTokens 0
      usageEstimated := true }
  else span

/- The span of a stream, before its size is stamped. -/
def finalSpan (fin : StreamFinalizer) : Span :=
  let span :=
    buildGatewaySpan ctx fin.tally fin.served
      fin.providerFinish true ctx.warnAftId fin.streamError
      ctx.apiKeyId
  estimateUsage ctx fin
    { span with
      intervention :=
        if fin.guardBlocked then some .block
        else span.intervention
      toolCalls := fin.toolCalls
      logprobs := fin.logprobs }

/- Without a span bus it returns before the spend is recorded. -/
def StreamFinalizer.run (fin : StreamFinalizer) (cancelled : Bool) (log : Log) : Log :=
  let stamped := stampAndMeterSpanBytes ctx (finalSpan ctx fin)
  let span := { stamped.1 with cancelled }
  let log :=
    { log with
      recorders := log.recorders ++ [Recorder.streamFinalizer]
      spans := log.spans ++ [span]
      metered := log.metered ++ stamped.2 }
  if ctx.nats then
    { log with
      spends := log.spends ++ recordKeySpend ctx.apiKeyId span
      published := log.published ++ [span] }
  else { log with droppedNoNats := log.droppedNoNats + 1 }

/- The funnel of the error spans. -/
def emitPostLedgerErrorSpan (reason : String) (log : Log) : Log :=
  let span := buildErrorSpan ctx reason
  let log := { log with spans := log.spans ++ [span] }
  if ctx.nats then
    { log with published := log.published ++ [span] }
  else { log with droppedNoNats := log.droppedNoNats + 1 }

/- A dispatch guard that is dropped armed. -/
def dropDispatchGuard (log : Log) : Log :=
  emitPostLedgerErrorSpan ctx "client_cancelled"
    { log with recorders := log.recorders ++ [Recorder.dispatchGuard] }

end Finalize

--
-- The Loop
--

/- What the loop awaits next, with the event it is about. -/
inductive Await where
| event
| delta (text : String)
| tool (d : ToolCallDelta)
| theEnd
| theDone
deriving DecidableEq

def contentChunk (text : String) : SseEvent :=
  .chunk { content := some text }

/- A guard block ends the stream with these two. -/
def blockEvents (reasonCode : String) : List SseEvent :=
  [.chunk
      { finishReason := some "content_filter"
        reasonCode := some reasonCode },
    .done]

/-
  What the loop does with an item: what it accumulates, and
  what it awaits next or else yields before it stops.
-/
def onEvent (fin : StreamFinalizer) :
    Option ProviderItem → StreamFinalizer × (Await ⊕ List SseEvent)
| none => (fin, .inl .theEnd)
| some (.error err) =>
    match err.timeout with
    | some timeout =>
        ({ fin with
            streamError := some "upstream_timeout"
            dispatchAttempts := fin.dispatchAttempts ++ [timeout] },
          .inr [.error timeout, .done])
    | none =>
        ({ fin with
            streamError := some "provider_stream_error" },
          .inr [.done])
| some (.ok ev) =>
    let fin := { fin with tally := fin.tally.absorb ev }
    match ev with
    | .streamChunk text => (fin, .inl (.delta text))
    | .toolCallDelta index id name inputDelta => (fin, .inl (.tool ⟨index, id, name, inputDelta⟩))
    | .finish reason =>
        ({ fin with providerFinish := some reason },
          .inl .event)
    | .responseMeta id model systemFingerprint =>
        ({ fin with
            served :=
              fin.served.absorb id model systemFingerprint },
          .inl .event)
    | .logprobsDelta logprobs =>
        ({ fin with logprobs := fin.logprobs.absorb logprobs },
          .inl .event)
    | .done response =>
        ({ fin with
            providerFinish := response.reportedFinish.or fin.providerFinish
            sawToolCall :=
              fin.sawToolCall ||
                (response.choices.head?.bind Choice.toolCalls).any (fun calls => !calls.isEmpty)
            toolCalls :=
              ToolCallAccumulator.absorbResponseCalls fin.toolCalls response },
          .inl .theDone)
    | _ => (fin, .inl .event)

/- The guard's answer to a text delta. -/
def onDelta (fin : StreamFinalizer) :
    GuardStep → StreamFinalizer × List SseEvent × Bool
| .emit text =>
    if text = "" then (fin, [], false)
    else (fin, [contentChunk text], false)
| .block reasonCode =>
    ({ fin with guardBlocked := true },
      blockEvents reasonCode, true)

/- The guard's answer to output it cannot scan. -/
def onTool (fin : StreamFinalizer) (d : ToolCallDelta) :
    Option String → StreamFinalizer × List SseEvent × Bool
| some reasonCode =>
    ({ fin with guardBlocked := true },
      blockEvents reasonCode, true)
| none =>
    ({ fin with
        sawToolCall := true
        toolCalls :=
          ToolCallAccumulator.push fin.toolCalls d.index d.id d.name d.arguments },
      [.chunk { toolCalls := [d] }], false)

/-
  The tail of a stream without a `Done`: a terminal chunk only
  where there is text or a reason other than the default.
-/
def onEnd (fin : StreamFinalizer) :
    GuardStep → StreamFinalizer × List SseEvent × Bool
| .emit text =>
    let finishReason := deriveFinishReason fin.sawToolCall fin.providerFinish
    let terminal :=
      if text ≠ "" ∨ finishReason ≠ "stop" then
        [.chunk
          { content := if text = "" then none else some text
            finishReason := some finishReason }]
      else []
    (fin, terminal ++ [.done], true)
| .block reasonCode =>
    ({ fin with guardBlocked := true },
      blockEvents reasonCode, true)

/- The tail of a `Done`, the stop chunk, and the sentinel. -/
def onDone (fin : StreamFinalizer) :
    GuardStep → StreamFinalizer × List SseEvent × Bool
| .emit text =>
    let stop : Chunk :=
      { finishReason :=
          some (deriveFinishReason fin.sawToolCall fin.providerFinish)
        usage := some
          { promptTokens := fin.tally.inputTokens
            completionTokens := fin.tally.outputTokens
            totalTokens := fin.tally.inputTokens + fin.tally.outputTokens
            cachedTokens := fin.tally.cacheRead } }
    (fin,
      (if text = "" then [] else [contentChunk text]) ++ [.chunk stop, .done],
      true)
| .block reasonCode =>
    ({ fin with guardBlocked := true },
      blockEvents reasonCode, true)

--
-- The Generator
--

/- Where the generator is suspended. -/
inductive Point where
| unpolled
| awaiting (what : Await)
/- After a yield: what is left to yield, and whether to stop. -/
| yielded (rest : List SseEvent) (stop : Bool)
| over
deriving DecidableEq

structure Generator where
  point : Point := .unpolled
  fin : StreamFinalizer := {}
  /- Whether the dispatch guard it was handed is armed. -/
  armed : Bool := true
  sent : List SseEvent := []
  log : Log := {}

inductive Input where
/- The consumer asks for the next chunk. -/
| poll
/- The provider stream is ready. -/
| event (item : Option ProviderItem)
/- The guard has judged the text. -/
| guard (answer : GuardStep)
/- The guard has judged output outside the text. -/
| refuse (reasonCode : Option String)
/- The client hangs up. -/
| drop
deriving DecidableEq

section Generator

variable (ctx : RequestContext)

/- The loop has stopped: finalize by value. -/
def finish (g : Generator) : Generator :=
  { g with point := .over, log := g.fin.run ctx false g.log }

/- Run on to the next yield or await. -/
def resume (g : Generator) (events : List SseEvent) (stop : Bool) : Generator :=
  match events with
  | e :: rest =>
      { g with
        point := .yielded rest stop
        sent := g.sent ++ [e] }
  | [] =>
      if stop then finish ctx g
      else { g with point := .awaiting .event }

/- Run on with what an answer of the guard led to. -/
def resumeWith (g : Generator) (r : StreamFinalizer × List SseEvent × Bool) : Generator :=
  resume ctx { g with fin := r.1 } r.2.1 r.2.2

/- Run on with what a provider item led to. -/
def resumeEvent (g : Generator) (r : StreamFinalizer × (Await ⊕ List SseEvent)) :
    Generator :=
  match r.2 with
  | .inl what => { g with fin := r.1, point := .awaiting what }
  | .inr events => resume ctx { g with fin := r.1 } events true

/- Drop what the suspended generator owns. -/
def dropGenerator (g : Generator) : Generator :=
  match g.point with
  | .over => g
  | .unpolled =>
      { g with
        point := .over
        log :=
          if g.armed then dropDispatchGuard ctx g.log
          else g.log }
  | _ => { g with point := .over, log := g.fin.run ctx true g.log }

def step (g : Generator) : Input → Option Generator
| .drop => some (dropGenerator ctx g)
| .poll =>
    match g.point with
    | .unpolled =>
        -- The finalizer exists: the guard's job is done.
        some
          { g with
            point := .awaiting .event
            armed := false }
    | .yielded rest stop => some (resume ctx g rest stop)
    | _ => none
| .event item =>
    match g.point with
    | .awaiting .event => some (resumeEvent ctx g (onEvent g.fin item))
    | _ => none
| .guard answer =>
    match g.point with
    | .awaiting (.delta _) => some (resumeWith ctx g (onDelta g.fin answer))
    | .awaiting .theEnd => some (resumeWith ctx g (onEnd g.fin answer))
    | .awaiting .theDone => some (resumeWith ctx g (onDone g.fin answer))
    | _ => none
| .refuse reasonCode =>
    match g.point with
    | .awaiting (.tool d) => some (resumeWith ctx g (onTool g.fin d reasonCode))
    | _ => none

end Generator

end Tracelane.Chat
