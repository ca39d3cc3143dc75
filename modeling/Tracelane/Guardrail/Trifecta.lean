import Mathlib.Data.List.Basic
import Tracelane.Lib.Bytes

/-
  The lethal-trifecta rail: a request is blocked when untrusted content, a read of private data, and
  a tool that can send data outward meet in one conversation.

  A tool result is read under the capabilities of the last call that carries its id; a result no
  call carries the id of is read as the registry's posture has it.
-/

namespace Tracelane.Guardrail

open List

namespace Trifecta

--
-- Capabilities
--

/- The flags of `CapabilitySet`. -/
structure CapabilitySet where
  readsPrivateData : Bool
  seesUntrustedContent : Bool
  canExfiltrate : Bool
deriving DecidableEq

namespace CapabilitySet

def empty : CapabilitySet := ⟨false, false, false⟩

def all : CapabilitySet := ⟨true, true, true⟩

end CapabilitySet

inductive RegistryPosture
| permissive
| enforcing
deriving DecidableEq

def RegistryPosture.asStr : RegistryPosture → String
| permissive => "permissive"
| enforcing => "enforcing"

inductive ToolCapability
| known (caps : CapabilitySet)
| unknownPermissive
| unknownEnforced
deriving DecidableEq

namespace ToolCapability

def effective : ToolCapability → CapabilitySet
| known caps => caps
| unknownPermissive => .empty
| unknownEnforced => .all

def isEnforcedUnknown : ToolCapability → Bool
| unknownEnforced => true
| _ => false

end ToolCapability

structure ToolDef where
  name : String
  capability : ToolCapability
deriving DecidableEq

inductive Provenance
| trusted
| untrusted
deriving DecidableEq

def Provenance.isUntrusted : Provenance → Bool
| untrusted => true
| trusted => false

structure RetrievedChunk where
  provenance : Provenance
  source : Option String
deriving DecidableEq

structure ProposedToolCall where
  id : String
  name : String
deriving DecidableEq

structure IncomingToolResult where
  toolCallId : Option String
deriving DecidableEq

structure TaintState where
  tainted : Bool
  privateDataRead : Bool
deriving DecidableEq

/- What the rail reads of the request. -/
structure GuardrailContext where
  toolDefs : List ToolDef
  registryPosture : RegistryPosture
  toolCalls : List ProposedToolCall
  toolResults : List IncomingToolResult
  ragContext : List RetrievedChunk
  taint : TaintState
deriving DecidableEq

--
-- The Rail
--

inductive Outcome
| allow
| block
| notApplicable
deriving DecidableEq

/- The details a block carries: tool names and sources. -/
structure Details where
  untrusted : List String
  privateRead : Option String
  exfil : String
  strictness : String
  unknownToolInvolved : Bool
  registryPosture : String
deriving DecidableEq

structure RailOutcome where
  outcome : Outcome
  reasonCode : Option String
  details : Option Details
deriving DecidableEq

/- The capabilities of a tool nobody has declared. -/
def undeclared :
    RegistryPosture → CapabilitySet × Bool
| .enforcing => (.all, true)
| .permissive => (.empty, false)

def lookup (ctx : GuardrailContext) (name : String) : CapabilitySet × Bool :=
  match ctx.toolDefs.find? (fun td => td.name = name) with
  | some td => (td.capability.effective, td.capability.isEnforcedUnknown)
  | none => undeclared ctx.registryPosture

/- `id_to_name.get(id)`: a later call overwrites an earlier. -/
def idToName (toolCalls : List ProposedToolCall) (id : String) : Option String :=
  toolCalls.foldl
    (fun name tc => if tc.id = id then some tc.name else name)
    none

/- `BTreeSet::insert`. -/
def insertSource (source : String) : List String → List String
| [] => [source]
| s :: sources =>
    if source = s then s :: sources
    else if source < s then source :: s :: sources
    else s :: insertSource source sources

/- The locals of the first two legs. -/
structure Legs where
  tainted : Bool
  unknownLeg : Bool
  untrustedSources : List String
  privateRead : Bool
  privateTool : Option String

def Legs.start (taint : TaintState) : Legs where
  tainted := taint.tainted
  unknownLeg := false
  untrustedSources := []
  privateRead := taint.privateDataRead
  privateTool := none

/- Leg 1, for one retrieved chunk. -/
def chunkLeg (legs : Legs) (chunk : RetrievedChunk) : Legs :=
  if chunk.provenance.isUntrusted then
    { legs with
      tainted := true
      untrustedSources :=
        insertSource ("rag:" ++ chunk.source.getD "?") legs.untrustedSources }
  else legs

/- The tool a result comes from, if a call carries its id. -/
def originatingTool (ctx : GuardrailContext) (result : IncomingToolResult) : Option String :=
  result.toolCallId.bind (idToName ctx.toolCalls)

def resultCaps (ctx : GuardrailContext) (result : IncomingToolResult) : CapabilitySet × Bool :=
  match originatingTool ctx result with
  | some name => lookup ctx name
  | none => undeclared ctx.registryPosture

/- Leg 2, for one tool result. -/
def resultLeg (ctx : GuardrailContext) (legs : Legs) (result : IncomingToolResult) : Legs :=
  let (caps, unknown) := resultCaps ctx result
  let label := (originatingTool ctx result).getD "tool_result"
  let legs :=
    if caps.seesUntrustedContent then
      { legs with
        tainted := true
        untrustedSources := insertSource ("tool:" ++ label) legs.untrustedSources
        unknownLeg := legs.unknownLeg || unknown }
    else legs
  if caps.readsPrivateData then
    { legs with
      privateRead := true
      privateTool := some (legs.privateTool.getD label)
      unknownLeg := legs.unknownLeg || unknown }
  else legs

def legsOf (ctx : GuardrailContext) : Legs :=
  ctx.toolResults.foldl (resultLeg ctx) (ctx.ragContext.foldl chunkLeg (Legs.start ctx.taint))

/- Leg 3: the first call that can send data outward. -/
def exfilTool (ctx : GuardrailContext) : Option (String × Bool) :=
  (ctx.toolCalls.find? (fun call => (lookup ctx call.name).1.canExfiltrate)).map
    (fun call => (call.name, (lookup ctx call.name).2))

/-
  `evaluate_sync`, in the one configuration a build outside of tests has: block on all three legs.
-/
def evaluateSync (ctx : GuardrailContext) : RailOutcome :=
  if ctx.toolCalls.isEmpty && ctx.toolResults.isEmpty &&
      ctx.ragContext.isEmpty then
    ⟨.notApplicable, none, none⟩
  else
    let legs := legsOf ctx
    match exfilTool ctx with
    | none => ⟨.allow, none, none⟩
    | some (exfil, exfilUnknown) =>
        if !(legs.tainted && legs.privateRead) then
          ⟨.allow, none, none⟩
        else
          let unknownInvolved := legs.unknownLeg || exfilUnknown
          let reason :=
            if unknownInvolved then "TRIFECTA_UNKNOWN_TOOL_CAPS"
            else "TRIFECTA_EXFIL_IN_TAINTED_SESSION"
          ⟨.block, some reason, some
            { untrusted := legs.untrustedSources
              privateRead := legs.privateTool
              exfil := exfil
              strictness := "two_of_three"
              unknownToolInvolved := unknownInvolved
              registryPosture := ctx.registryPosture.asStr }⟩

def Blocks (ctx : GuardrailContext) : Prop :=
  (evaluateSync ctx).outcome = .block

instance (ctx : GuardrailContext) : Decidable (Blocks ctx) :=
  inferInstanceAs (Decidable (_ = _))

--
-- What Blocks
--

/- Untrusted content is in the conversation. -/
def Tainted (ctx : GuardrailContext) : Prop :=
  ctx.taint.tainted = true ∨
    (∃ chunk ∈ ctx.ragContext, chunk.provenance.isUntrusted = true) ∨
    ∃ result ∈ ctx.toolResults, (resultCaps ctx result).1.seesUntrustedContent = true

/- Private data has been read in the conversation. -/
def PrivateRead (ctx : GuardrailContext) : Prop :=
  ctx.taint.privateDataRead = true ∨
    ∃ result ∈ ctx.toolResults, (resultCaps ctx result).1.readsPrivateData = true

/- A tool that can send data outward is called. -/
def Exfil (ctx : GuardrailContext) : Prop :=
  ∃ call ∈ ctx.toolCalls, (lookup ctx call.name).1.canExfiltrate = true

/- A flag that a loop only ever raises. -/
theorem foldl_raised {σ τ : Type} {f : σ → τ → σ} {flag : σ → Bool} {p : τ → Bool}
    (hStep : ∀ s x, flag (f s x) = (flag s || p x)) (xs : List τ) (s : σ) :
    flag (xs.foldl f s) = (flag s || xs.any p) := by
  induction xs generalizing s with
  | nil => simp
  | cons x xs ih =>
    rw [foldl_cons, ih, hStep, any_cons, Bool.or_assoc]

theorem chunkLeg_tainted (legs : Legs) (chunk : RetrievedChunk) :
    (chunkLeg legs chunk).tainted = (legs.tainted || chunk.provenance.isUntrusted) := by
  unfold chunkLeg
  split <;> simp_all

theorem chunkLeg_privateRead (legs : Legs) (chunk : RetrievedChunk) :
    (chunkLeg legs chunk).privateRead = (legs.privateRead || false) := by
  unfold chunkLeg
  split <;> simp

variable (ctx : GuardrailContext)

theorem resultLeg_tainted (legs : Legs) (result : IncomingToolResult) :
    (resultLeg ctx legs result).tainted =
      (legs.tainted || (resultCaps ctx result).1.seesUntrustedContent) := by
  unfold resultLeg
  split
  split <;> split <;> simp_all

theorem resultLeg_privateRead (legs : Legs) (result : IncomingToolResult) :
    (resultLeg ctx legs result).privateRead =
      (legs.privateRead || (resultCaps ctx result).1.readsPrivateData) := by
  unfold resultLeg
  split
  split <;> split <;> simp_all

theorem tainted_iff :
    (legsOf ctx).tainted = true ↔ Tainted ctx := by
  unfold legsOf Tainted
  rw [foldl_raised (resultLeg_tainted ctx), foldl_raised chunkLeg_tainted]
  simp [Legs.start, or_assoc]

theorem privateRead_iff :
    (legsOf ctx).privateRead = true ↔ PrivateRead ctx := by
  unfold legsOf PrivateRead
  rw [foldl_raised (resultLeg_privateRead ctx), foldl_raised chunkLeg_privateRead]
  simp [Legs.start]

theorem exfil_iff :
    (exfilTool ctx).isSome = true ↔ Exfil ctx := by
  simp [exfilTool, Exfil]

/- The rail blocks exactly where the three legs meet. -/
theorem blocks_iff :
    Blocks ctx ↔ Tainted ctx ∧ PrivateRead ctx ∧ Exfil ctx := by
  rw [← tainted_iff, ← privateRead_iff, ← exfil_iff]
  unfold Blocks evaluateSync
  split_ifs with hNothing
  · have hCalls : ctx.toolCalls = [] := by
      simp_all
    simp [exfilTool, hCalls]
  · cases exfilTool ctx with
    | none => simp
    | some exfil =>
      cases hTainted : (legsOf ctx).tainted <;> cases hPrivate : (legsOf ctx).privateRead <;> simp
        [hTainted, hPrivate]

--
-- Growing Conversations
--

/- The second list is the first with elements put in. -/
inductive Extends {τ : Type} (added : τ → Prop) :
    List τ → List τ → Prop
| nil : Extends added [] []
| keep
    {xs ys : List τ}
    (x : τ)
    (hRest : Extends added xs ys) :
    Extends added (x :: xs) (x :: ys)
| add
    {xs ys : List τ}
    {y : τ}
    (hAdded : added y)
    (hRest : Extends added xs ys) :
    Extends added xs (y :: ys)

theorem Extends.subset {τ : Type} {added : τ → Prop} {xs ys : List τ}
    (hExtends : Extends added xs ys) :
    xs ⊆ ys := by
  induction hExtends with
  | nil => exact Subset.refl _
  | keep x _ ih => exact cons_subset_cons x ih
  | add _ _ ih => exact subset_cons_of_subset _ ih

/-
  A call that may be added: it does not take the id of a call already made, nor, where results
  without a call count as everything, the id of a result already returned.
-/
structure Fresh (ctx : GuardrailContext) (call : ProposedToolCall) : Prop where
  calls : ∀ c ∈ ctx.toolCalls, c.id ≠ call.id
  results : ctx.registryPosture = .enforcing → ∀ r ∈ ctx.toolResults, r.toolCallId ≠ some call.id

/- The same request with more in it. -/
structure Grown (ctx ctx' : GuardrailContext) : Prop where
  toolDefs : ctx'.toolDefs = ctx.toolDefs
  posture : ctx'.registryPosture = ctx.registryPosture
  calls : Extends (Fresh ctx) ctx.toolCalls ctx'.toolCalls
  results : Extends (fun _ => True) ctx.toolResults ctx'.toolResults
  chunks : Extends (fun _ => True) ctx.ragContext ctx'.ragContext
  taint :
    (ctx.taint.tainted = true → ctx'.taint.tainted = true) ∧
      (ctx.taint.privateDataRead = true → ctx'.taint.privateDataRead = true)

/- An id none of the added calls carries keeps its name. -/
theorem Extends.idToName_eq {added : ProposedToolCall → Prop}
    {calls calls' : List ProposedToolCall} {id : String} (hExtends : Extends added calls calls')
    (hOther : ∀ call, added call → call.id ≠ id) :
    idToName calls' id = idToName calls id := by
  unfold idToName
  generalize (none : Option String) = start
  induction hExtends generalizing start with
  | nil => rfl
  | keep x _ ih => exact ih _
  | add hAdded _ ih =>
    rw [foldl_cons, if_neg (hOther _ hAdded), ih]

theorem idToName_append (before after : List ProposedToolCall) (id : String) :
    idToName (before ++ after) id = (idToName after id).or (idToName before id) := by
  unfold idToName
  rw [foldl_append]
  generalize before.foldl _ _ = start
  induction after using reverseRecOn with
  | nil => simp
  | append_singleton after call ih =>
    rw [foldl_append, foldl_append]
    simp only [foldl_cons, foldl_nil, ih]
    split <;> simp

theorem idToName_eq_none {calls : List ProposedToolCall} {id : String}
    (hOther : ∀ call ∈ calls, call.id ≠ id) :
    idToName calls id = none := by
  unfold idToName
  induction calls with
  | nil => rfl
  | cons call calls ih =>
    rw [foldl_cons, if_neg (hOther call mem_cons_self)]
    exact ih (fun c hc => hOther c (mem_cons_of_mem _ hc))

/- The map holds the name of the last call with the id. -/
theorem idToName_last {before after : List ProposedToolCall} {call : ProposedToolCall}
    (hLast : ∀ later ∈ after, later.id ≠ call.id) :
    idToName (before ++ call :: after) call.id = some call.name := by
  rw [idToName_append, ← singleton_append, idToName_append, idToName_eq_none hLast]
  simp [idToName]

variable {result : IncomingToolResult} {ctx : GuardrailContext}

theorem resultCaps_of_unnamed
    (hUnnamed : ∀ call ∈ ctx.toolCalls, result.toolCallId ≠ some call.id) :
    resultCaps ctx result = undeclared ctx.registryPosture := by
  have hTool : originatingTool ctx result = none := by
    unfold originatingTool
    cases hId : result.toolCallId with
    | none => rfl
    | some id =>
      apply idToName_eq_none
      intro call hCall hSame
      exact hUnnamed call hCall (by rw [hId, hSame])
  simp [resultCaps, hTool]

section Growth

variable {ctx ctx' : GuardrailContext}

section

variable (hGrown : Grown ctx ctx')
include hGrown

theorem Grown.lookup_eq (name : String) :
    lookup ctx' name = lookup ctx name := by
  unfold lookup
  rw [hGrown.toolDefs, hGrown.posture]

/-
  A result keeps its capabilities, or had none: its id named a call and still names that call, or it
  named no call, and a fresh call can take the id only where that granted nothing.
-/
theorem Grown.resultCaps_eq {result : IncomingToolResult} (hResult : result ∈ ctx.toolResults) :
    resultCaps ctx' result = resultCaps ctx result ∨ (resultCaps ctx result).1 = .empty := by
  have hKept :
      (∀ id, result.toolCallId = some id → ∀ call, Fresh ctx call → call.id ≠ id) →
      resultCaps ctx' result = resultCaps ctx result := by
    intro hOther
    have hTool : originatingTool ctx' result = originatingTool ctx result := by
      unfold originatingTool
      cases hId : result.toolCallId with
      | none => rfl
      | some id =>
        exact hGrown.calls.idToName_eq (hOther id hId)
    unfold resultCaps
    rw [hTool, hGrown.posture]
    cases originatingTool ctx result with
    | none => rfl
    | some name => exact hGrown.lookup_eq name
  cases hId : result.toolCallId with
  | none =>
    refine .inl (hKept ?_)
    intro id hSome
    rw [hId] at hSome
    cases hSome
  | some id =>
    by_cases hCalled : ∃ call ∈ ctx.toolCalls, call.id = id
    · rcases hCalled with ⟨call, hCall, hSame⟩
      refine .inl (hKept ?_)
      intro id' hSome added hFresh hTaken
      rw [hId] at hSome
      cases hSome
      exact hFresh.calls call hCall (hSame.trans hTaken.symm)
    · cases hPosture : ctx.registryPosture with
      | enforcing =>
        refine .inl (hKept ?_)
        intro id' hSome added hFresh hTaken
        apply hFresh.results hPosture result hResult
        rw [hSome, hTaken]
      | permissive =>
        right
        rw [resultCaps_of_unnamed, hPosture]
        · rfl
        · intro call hCall hSame
          rw [hId] at hSame
          exact hCalled ⟨call, hCall, (Option.some.inj hSame).symm⟩

theorem Grown.tainted (hTainted : Tainted ctx) :
    Tainted ctx' := by
  rcases hTainted with hTaint | ⟨chunk, hChunk, hUntrusted⟩ | ⟨result, hResult, hSees⟩
  · exact .inl (hGrown.taint.1 hTaint)
  · exact .inr (.inl ⟨chunk, hGrown.chunks.subset hChunk, hUntrusted⟩)
  · refine .inr (.inr ⟨result, hGrown.results.subset hResult, ?_⟩)
    rcases hGrown.resultCaps_eq hResult with hSame | hEmpty
    · rw [hSame, hSees]
    · rw [hEmpty] at hSees
      cases hSees

theorem Grown.privateRead (hPrivate : PrivateRead ctx) :
    PrivateRead ctx' := by
  rcases hPrivate with hTaint | ⟨result, hResult, hReads⟩
  · exact .inl (hGrown.taint.2 hTaint)
  · refine .inr ⟨result, hGrown.results.subset hResult, ?_⟩
    rcases hGrown.resultCaps_eq hResult with hSame | hEmpty
    · rw [hSame, hReads]
    · rw [hEmpty] at hReads
      cases hReads

theorem Grown.exfil (hExfil : Exfil ctx) :
    Exfil ctx' := by
  rcases hExfil with ⟨call, hCall, hSends⟩
  refine ⟨call, hGrown.calls.subset hCall, ?_⟩
  rw [hGrown.lookup_eq, hSends]

end

end Growth

--
-- The Rail as a Whole
--

/- The id of the result names a call to the tool, and no later call carries the same id. -/
def Names (ctx : GuardrailContext) (result : IncomingToolResult) (tool : String) : Prop :=
  ∃ before call after,
    ctx.toolCalls = before ++ call :: after ∧
      result.toolCallId = some call.id ∧ call.name = tool ∧
      ∀ later ∈ after, later.id ≠ call.id

theorem resultCaps_of_names {tool : String} (hNames : Names ctx result tool) :
    resultCaps ctx result = lookup ctx tool := by
  rcases hNames with ⟨before, call, after, hCalls, hId, rfl, hLast⟩
  have hTool : originatingTool ctx result = some call.name := by
    simp [originatingTool, hId, hCalls, idToName_last hLast]
  simp [resultCaps, hTool]

/-
  An untrusted source: the session, a chunk, the result of a tool that brings in untrusted content,
  or, in an enforcing registry, a result no call is named for.
-/
def UntrustedSource (ctx : GuardrailContext) : Prop :=
  ctx.taint.tainted = true ∨
    (∃ chunk ∈ ctx.ragContext, chunk.provenance.isUntrusted = true) ∨
    (∃ result ∈ ctx.toolResults, ∃ tool,
      Names ctx result tool ∧ (lookup ctx tool).1.seesUntrustedContent = true) ∨
    (ctx.registryPosture = .enforcing ∧
      ∃ result ∈ ctx.toolResults, ∀ call ∈ ctx.toolCalls, result.toolCallId ≠ some call.id)

/- A blocked request stays blocked as it grows, and the three legs block. -/
theorem trifecta_monotone :
    (∀ ctx ctx', Grown ctx ctx' → Blocks ctx → Blocks ctx') ∧
      ∀ ctx,
        (∃ call ∈ ctx.toolCalls, (lookup ctx call.name).1.canExfiltrate = true) →
        UntrustedSource ctx →
        (∃ result ∈ ctx.toolResults, ∃ tool,
          Names ctx result tool ∧ (lookup ctx tool).1.readsPrivateData = true) →
        Blocks ctx := by
  refine ⟨?_, ?_⟩
  · intro ctx ctx' hGrown hBlocks
    rcases (blocks_iff ctx).mp hBlocks with ⟨hTainted, hPrivate, hExfil⟩
    exact (blocks_iff ctx').mpr
      ⟨hGrown.tainted hTainted, hGrown.privateRead hPrivate, hGrown.exfil hExfil⟩
  · intro ctx hExfil hSource hPrivate
    refine (blocks_iff ctx).mpr ⟨?_, ?_, hExfil⟩
    · rcases hSource with
        hTaint | hChunk |
        ⟨result, hResult, tool, hNames, hSees⟩ |
        ⟨hPosture, result, hResult, hUnnamed⟩
      · exact .inl hTaint
      · exact .inr (.inl hChunk)
      · refine .inr (.inr ⟨result, hResult, ?_⟩)
        rw [resultCaps_of_names hNames, hSees]
      · refine .inr (.inr ⟨result, hResult, ?_⟩)
        rw [resultCaps_of_unnamed hUnnamed, hPosture]
        rfl
    · rcases hPrivate with ⟨result, hResult, tool, hNames, hReads⟩
      refine .inr ⟨result, hResult, ?_⟩
      rw [resultCaps_of_names hNames, hReads]

/- A message is sent after a result that no call is named for. -/
def unnamedResult : GuardrailContext where
  toolDefs := [⟨"send_email", .known ⟨false, false, true⟩⟩, ⟨"calculator", .known .empty⟩]
  registryPosture := .enforcing
  toolCalls := [⟨"c1", "send_email"⟩]
  toolResults := [⟨some "c2"⟩]
  ragContext := []
  taint := ⟨false, false⟩

/- A message is sent after the inbox was read. -/
def inboxRead : GuardrailContext :=
  { unnamedResult with
    toolDefs := [⟨"send_email", .known ⟨false, false, true⟩⟩, ⟨"inbox", .known ⟨true, true, false⟩⟩]
    toolCalls := [⟨"c2", "inbox"⟩, ⟨"c3", "send_email"⟩] }

/- One more message in a blocked conversation, and one after its three legs. -/
theorem second_email_blocked :
    Blocks unnamedResult ∧
      Blocks
        { unnamedResult with
          toolCalls := [⟨"c1", "send_email"⟩, ⟨"c3", "send_email"⟩] } ∧
      Blocks inboxRead := by
  have hBlocks : Blocks unnamedResult := by decide
  have hFresh : Fresh unnamedResult ⟨"c3", "send_email"⟩ := ⟨by decide, fun _ => by decide⟩
  have hNames : Names inboxRead ⟨some "c2"⟩ "inbox" := ⟨[], _, _, rfl, rfl, rfl, by decide⟩
  refine ⟨hBlocks, trifecta_monotone.1 unnamedResult _ ?_ hBlocks,
    trifecta_monotone.2 inboxRead ?_ (.inr (.inr (.inl ?_))) ?_⟩
  · exact
      { toolDefs := rfl
        posture := rfl
        calls := .keep _ (.add hFresh .nil)
        results := .keep _ .nil
        chunks := .nil
        taint := ⟨id, id⟩ }
  · exact ⟨⟨"c3", "send_email"⟩, by simp [inboxRead], by decide⟩
  · exact ⟨⟨some "c2"⟩, by simp [inboxRead, unnamedResult], "inbox", hNames, by decide⟩
  · exact ⟨⟨some "c2"⟩, by simp [inboxRead, unnamedResult], "inbox", hNames, by decide⟩

/-
  Naming a harmless call for the result takes away what the
  result counted for, and the message is let through.
-/
theorem named_result_allowed :
    Blocks unnamedResult ∧
      ¬Blocks
        { unnamedResult with
          toolCalls :=
            [⟨"c1", "send_email"⟩, ⟨"c2", "calculator"⟩] } := by
  decide

end Trifecta

end Tracelane.Guardrail
