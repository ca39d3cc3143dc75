import Mathlib.Algebra.Order.Ring.Rat
import Mathlib.Data.Rat.Floor
import Tracelane.Chat.Events

/-
  The span of a chat request, its size, and what is charged for it.

  The sizes of serialized attributes and the price tables are parameters: nothing is assumed of
  either.
-/

namespace Tracelane.Chat

--
-- Usage And Price
--

/- The usage a request has shown so far. -/
structure Tally where
  inputTokens : Nat := 0
  outputTokens : Nat := 0
  cacheRead : Option Nat := none
  cacheCreation : Option Nat := none
  costUsd : Option ℚ := none
  reasoningOutputTokens : Option Nat := none
deriving DecidableEq

/- The last value that came of a field that may be absent. -/
def Tally.absorb (t : Tally) : ProviderEvent → Tally
| .usageUpdate inputTokens outputTokens cacheRead cacheCreation
    costUsd reasoning =>
    let merged :=
      mergeUsageTokens (t.inputTokens, t.outputTokens) inputTokens outputTokens
    { inputTokens := merged.1
      outputTokens := merged.2
      cacheRead := cacheRead.or t.cacheRead
      cacheCreation := cacheCreation.or t.cacheCreation
      costUsd := costUsd.or t.costUsd
      reasoningOutputTokens :=
        reasoning.or t.reasoningOutputTokens }
| .done response =>
    match response.usage with
    | some usage =>
        let merged :=
          mergeUsageTokens (t.inputTokens, t.outputTokens) usage.inputTokens usage.outputTokens
        { t with
          inputTokens := merged.1
          outputTokens := merged.2
          cacheRead := usage.cacheReadInputTokens.or t.cacheRead
          cacheCreation :=
            usage.cacheCreationInputTokens.or t.cacheCreation }
    | none => t
| _ => t

def Tally.usage (t : Tally) : Usage where
  inputTokens := t.inputTokens
  outputTokens := t.outputTokens
  cacheReadInputTokens := t.cacheRead
  cacheCreationInputTokens := t.cacheCreation

structure LongContext where
  thresholdTokens : Nat
  inputMult : ℚ
  outputMult : ℚ
deriving DecidableEq

structure PriceCard where
  inputPerMtok : ℚ
  outputPerMtok : ℚ
  cacheReadPerMtok : ℚ
  cacheWritePerMtok : ℚ
  longContext : Option LongContext
deriving DecidableEq

/- The multipliers of a prompt past the card's threshold. -/
def PriceCard.multipliers (card : PriceCard) (promptTokens : Nat) : ℚ × ℚ :=
  match card.longContext with
  | some lc =>
      if lc.thresholdTokens < promptTokens then
        (lc.inputMult, lc.outputMult)
      else (1, 1)
  | none => (1, 1)

def costFromCard (card : PriceCard) (usage : Usage) : ℚ :=
  let cacheRead := usage.cacheReadInputTokens.getD 0
  let cacheWrite := usage.cacheCreationInputTokens.getD 0
  let mult := card.multipliers (usage.inputTokens + cacheRead + cacheWrite)
  ((usage.inputTokens * card.inputPerMtok +
        cacheRead * card.cacheReadPerMtok +
        cacheWrite * card.cacheWritePerMtok) * mult.1 +
      usage.outputTokens * card.outputPerMtok * mult.2) /
    1000000

--
-- Spans
--

inductive Intervention where
| block
| warn
deriving DecidableEq

structure Span where
  name : String
  tenantId : String
  requestModel : String
  served : ServedMeta
  inputTokens : Option Nat
  outputTokens : Option Nat
  cacheRead : Option Nat
  cacheCreation : Option Nat
  reasoningOutputTokens : Option Nat
  cost : Option ℚ
  costOrigin : Option String
  finishReason : Option FinishReason
  stream : Bool
  intervention : Option Intervention
  apiKeyId : Option String
  statusMessage : Option String
  toolCalls : ToolCallAccumulator := []
  logprobs : LogprobAccumulator := {}
  usageEstimated : Bool := false
  spanBytes : Option Nat := none
  cancelled : Bool := false
deriving DecidableEq

/- What a request is recorded with. -/
structure RequestContext where
  model : String
  tenantId : String
  apiKeyId : Option String
  warnAftId : Option String
  /- The price of the routed model, if it has one. -/
  card : Option PriceCard
  /- Whether a span bus is configured. -/
  nats : Bool
  /- Whether a meter sink is configured. -/
  meters : Bool
  inputBytesForEstimate : Nat
  /- The length of the span's attributes in JSON. -/
  attrsLen : Span → Nat

section Spans

variable (ctx : RequestContext)

def computedCost (tally : Tally) : Option ℚ :=
  if tally.costUsd.isNone then
    ctx.card.map (fun card => costFromCard card tally.usage)
  else none

/- The provider's cost, or else the card's. -/
def spanCost (tally : Tally) : Option ℚ :=
  tally.costUsd.or (computedCost ctx tally)

def buildGatewaySpan (tally : Tally) (served : ServedMeta)
    (finishReason : Option FinishReason) (stream : Bool) (aftId : Option String)
    (errorReason : Option String) (apiKeyId : Option String) : Span where
  name := "gen_ai.chat"
  tenantId := ctx.tenantId
  requestModel := ctx.model
  served := served
  inputTokens := some tally.inputTokens
  outputTokens := some tally.outputTokens
  cacheRead := tally.cacheRead
  cacheCreation := tally.cacheCreation
  reasoningOutputTokens := tally.reasoningOutputTokens
  cost := spanCost ctx tally
  costOrigin :=
    if tally.costUsd.isSome then some "provider_reported"
    else (computedCost ctx tally).map (fun _ => "computed")
  finishReason := finishReason
  stream := stream
  intervention :=
    if errorReason = some "guardrail_block" then some .block
    else aftId.map (fun _ => .warn)
  apiKeyId := apiKeyId
  statusMessage := errorReason

/- An error span has no usage and names no key. -/
def buildErrorSpan (reason : String) : Span :=
  buildGatewaySpan ctx {} {} none false none (some reason) none

def spanSize (span : Span) : Nat :=
  ctx.attrsLen span + span.name.utf8ByteSize + (span.statusMessage.getD "").utf8ByteSize + 96

/- The stamped span, and what the meter sink is given. -/
def stampAndMeterSpanBytes (span : Span) : Span × List Nat :=
  let size := spanSize ctx span
  ({ span with spanBytes := some size },
    if ctx.meters then [size] else [])

inductive Subject where
| workspace (tenantId : String)
| key (id : String)
deriving DecidableEq

/- Micro-dollars, rounded half up. -/
def toMicro (usd : ℚ) : Nat :=
  if usd ≤ 0 then 0 else ⌊usd * 1000000 + 1 / 2⌋.toNat

/- What the spend tracker adds; nothing without a price. -/
def trackerRecord (who : Subject) (cost : Option ℚ) : List (Subject × Nat) :=
  match cost with
  | some usd => if 0 < usd then [(who, toMicro usd)] else []
  | none => []

/- The cost on the span, to its workspace and to its key. -/
def recordKeySpend (apiKeyId : Option String) (span : Span) : List (Subject × Nat) :=
  trackerRecord (.workspace span.tenantId) span.cost ++
    match apiKeyId with
    | some id => trackerRecord (.key id) span.cost
    | none => []

end Spans

end Tracelane.Chat
