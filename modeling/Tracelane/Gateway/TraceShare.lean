import Tracelane.Json.Value

/- Public trace shares: what of a trace's spans is served to the holder of a link. -/

namespace Tracelane.Gateway.TraceShare

open List

/- A `serde_json::Map`, by its lookups. -/
abbrev Map := String → Option Value

/- The object a text is, if it is one, and the text of one. -/
structure SerdeJson where
  fromStr : String → Option Map
  toText : Map → String
  toText_empty : toText (fun _ => none) = "\x7b\x7d"

def denylistKeys : List String :=
  ["tracelane_metadata", "tracelane_tags", "tracelane_events", "exception_message", "input_value",
    "output_value", "gen_ai_tool_call_arguments", "gen_ai_tool_call_result",
    "tracelane_retrieval_query", "tracelane_retrieval_documents", "gen_ai_input_messages",
    "gen_ai_output_messages", "gen_ai_system_instructions", "request_json", "response_json",
    "user_prompt", "tool_input", "tool.output", "response.model_output", "system_prompt_preview",
    "user_system_prompt", "new_context", "full_command", "file_path"]

def denylistSuffixes : List String := ["_messages", "_json", ".body"]

def isContentKey (key : String) : Bool :=
  denylistKeys.contains key || denylistSuffixes.any (fun suf => key.endsWith suf)

def shareTextKeys : List String :=
  ["gen_ai_agent_name", "gen_ai_operation_name", "gen_ai_output_type", "gen_ai_provider_name",
    "gen_ai_request_model", "gen_ai_response_finish_reasons", "gen_ai_response_model",
    "gen_ai_system", "gen_ai_tool_name", "gen_ai_tool_type", "tracelane_client_name",
    "tracelane_model_substitution", "tracelane_request_tool_choice_function",
    "tracelane_request_tool_choice_mode", "tracelane_request_tool_names",
    "tracelane_response_tool_names"]

def metadataKeys : List String :=
  ["gen_ai.tool.name", "gen_ai.tool.type", "gen_ai.agent.id", "gen_ai.agent.parent_id",
    "gen_ai.prompt.name", "gen_ai.prompt.version", "gen_ai.workflow.name", "gen_ai.output.type",
    "gen_ai.data_source.id", "mcp.method.name", "mcp.session.id", "mcp.protocol.version",
    "llm.model_name", "llm.request.model_name", "llm.response.model_name", "llm.provider",
    "llm.system", "input.mime_type", "output.mime_type", "openai.response.system_fingerprint"]

def allowlisted (key : String) : Bool :=
  (!key.contains '.' && shareTextKeys.contains key) || metadataKeys.contains key

def isScalar : Value → Bool
| .number _ | .bool _ => true
| _ => false

def isNumeric : Value → Bool
| .array items => items.all isScalar
| v => isScalar v

def isPublic (key : String) (v : Value) : Bool :=
  !isContentKey key && (allowlisted key || isNumeric v)

structure SpanRow where
  spanId : String
  parentSpanId : Option String
  name : String
  startTime : String
  endTime : String
  startTimeUs : Int
  durationUs : Int
  statusCode : Nat
  statusMessage : String
  attributes : String
  aftIds : List String
  intervention : Nat

structure TraceChainStatus where
  chained : Bool := false
  seq : Option Nat := none
  anchored : Bool := false

structure SharePayload where
  traceId : String
  rootName : String
  sharedAt : String
  expiresAt : String
  spanCount : Nat
  spans : List SpanRow
  chain : TraceChainStatus
  workspaceName : String

section

variable (S : SerdeJson)

def stripContent (attributes : String) : String :=
  match S.fromStr attributes with
  | some map => S.toText (fun key => (map key).filter (isPublic key))
  | none => "\x7b\x7d"

/- What only the server compares. -/
def fingerprintKeys : List String :=
  ["gen_ai_tool_call_arg_fp", "tracelane_response_tool_arg_fps"]

def publicAttributes (raw : String) : String :=
  match S.fromStr raw with
  | some map => S.toText (fun key => if key ∈ fingerprintKeys then none else map key)
  | none => "\x7b\x7d"

/- `min_by_key`: the first that starts earliest. -/
def earliest (spans : List SpanRow) : Option SpanRow :=
  spans.find? (fun s => spans.all (fun t => s.startTimeUs ≤ t.startTimeUs))

def rootSpanName (spans : List SpanRow) : String :=
  ((earliest (spans.filter (·.parentSpanId.isNone))).or (earliest spans)).elim "" (·.name)

def SpanRow.written (s : SpanRow) : SpanRow :=
  { s with attributes := publicAttributes S (stripContent S s.attributes) }

/- The payload as it is written out. -/
def sharePayload (traceId sharedAt expiresAt workspaceName : String)
    (chain : Option TraceChainStatus) (spans : List SpanRow) : SharePayload where
  traceId
  rootName := rootSpanName spans
  sharedAt
  expiresAt
  spanCount := spans.length
  spans := spans.map (·.written S)
  chain := chain.getD {}
  workspaceName

--
-- Two Traces
--

/- A span without its free text. -/
def SpanRow.hide (s : SpanRow) : SpanRow :=
  { s with statusMessage := "", attributes := "" }

def SerdeJson.get (s : SpanRow) (key : String) : Option Value :=
  (S.fromStr s.attributes).bind (· key)

structure Agree (s t : SpanRow) : Prop where
  hide : s.hide = t.hide
  numeric :
    ∀ key, isContentKey key = false →
      (S.get s key).filter isNumeric = (S.get t key).filter isNumeric
  text : ∀ key, allowlisted key → S.get s key = S.get t key

variable {S} {s t : SpanRow} {spans spans' : List SpanRow}

theorem stripContent_eq (s : SpanRow) :
    stripContent S s.attributes = S.toText (fun key => (S.get s key).filter (isPublic key)) := by
  unfold stripContent SerdeJson.get
  cases S.fromStr s.attributes <;> simp [S.toText_empty]

theorem Agree.stripContent (hAgree : Agree S s t) :
    stripContent S s.attributes = stripContent S t.attributes := by
  rw [stripContent_eq, stripContent_eq]
  congr with key : 2
  unfold isPublic
  cases hContent : isContentKey key with
  | true => simp
  | false =>
    cases hAllowed : allowlisted key with
    | true => rw [hAgree.text key hAllowed]
    | false => simp [hAgree.numeric key hContent]

theorem Agree.written_eq_iff (hAgree : Agree S s t) :
    s.written S = t.written S ↔ s.statusMessage = t.statusMessage := by
  have hHide := hAgree.hide
  simp only [SpanRow.hide, SpanRow.mk.injEq] at hHide
  simp [SpanRow.written, hAgree.stripContent, hHide]

theorem earliest_hide :
    earliest (spans.map SpanRow.hide) = (earliest spans).map SpanRow.hide := by
  unfold earliest
  simp only [find?_map, all_map]
  rfl

theorem rootSpanName_hide :
    rootSpanName (spans.map SpanRow.hide) = rootSpanName spans := by
  unfold rootSpanName
  rw [filter_map, earliest_hide, earliest_hide, ← Option.map_or]
  exact Option.elim_map ..

theorem sharePayload_eq_iff {traceId sharedAt expiresAt workspaceName : String}
    {chain : Option TraceChainStatus} (hAgree : Forall₂ (Agree S) spans spans') :
    let payload := sharePayload S traceId sharedAt expiresAt workspaceName chain
    payload spans = payload spans' ∧
        (payload spans).spans.map SpanRow.spanId = spans.map SpanRow.spanId ↔
      spans.map SpanRow.statusMessage = spans'.map SpanRow.statusMessage := by
  have hBoth :
      spans.map SpanRow.hide = spans'.map SpanRow.hide ∧
        (spans.map (·.written S) = spans'.map (·.written S) ↔
          spans.map SpanRow.statusMessage = spans'.map SpanRow.statusMessage) := by
    induction hAgree with
    | nil => simp
    | cons hHead _ ih => simp [hHead.hide, hHead.written_eq_iff, ih]
  have hRoot : rootSpanName spans = rootSpanName spans' := by
    rw [← rootSpanName_hide, hBoth.1, rootSpanName_hide]
  have hIds : (spans.map (·.written S)).map SpanRow.spanId = spans.map SpanRow.spanId := by
    rw [map_map]
    rfl
  simp [sharePayload, hRoot, hAgree.length_eq, hIds, hBoth.2]

end

/- Some attribute texts and the entries they read as. -/
def attributeTexts : List (String × Option Text × Option Text) :=
  [("\x7b\x7d", none, none),
    ("\x7b\"user_prompt\":\"hi\"\x7d", none, some ⟨"hi", by decide⟩),
    ("\x7b\"gen_ai_tool_name\":\"grep\"\x7d", some ⟨"grep", by decide⟩, none),
    ("\x7b\"gen_ai_tool_name\":\"grep\",\"user_prompt\":\"hi\"\x7d",
      some ⟨"grep", by decide⟩, some ⟨"hi", by decide⟩)]

/- The string an object has at a key. -/
def stringAt (map : Map) (key : String) : Option Text :=
  match map key with
  | some (.string text) => some text
  | _ => none

/- The reader and writer of these texts; it refuses others. -/
def tableJson : SerdeJson where
  fromStr text :=
    (attributeTexts.lookup text).map (fun entries key =>
      if key = "gen_ai_tool_name" then entries.1.map .string
      else if key = "user_prompt" then entries.2.map .string
      else none)
  toText map :=
    let entries := (stringAt map "gen_ai_tool_name", stringAt map "user_prompt")
    ((attributeTexts.find? (fun e => e.2 = entries)).map Prod.fst).getD "\x7b\x7d"
  toText_empty := by decide

/- A trace of one failed span. -/
def failed (statusMessage attributes : String) : List SpanRow :=
  [⟨"a", none, "chat", "", "", 0, 1, 2, statusMessage, attributes, [], 0⟩]

/- The status message alone tells two payloads apart. -/
theorem statusMessage_served :
    Forall₂ (Agree tableJson) (failed "timeout" "\x7b\x7d") (failed "no such user" "\x7b\x7d") ∧
      sharePayload tableJson "" "" "" "" none (failed "timeout" "\x7b\x7d") ≠
        sharePayload tableJson "" "" "" "" none (failed "no such user" "\x7b\x7d") := by
  constructor
  · exact .cons ⟨rfl, fun _ _ => rfl, fun _ _ => rfl⟩ .nil
  · simp [sharePayload, failed, SpanRow.written]

/- A prompt beside a tool's name leaves no trace. -/
theorem prompt_not_served :
    let tool := "\x7b\"gen_ai_tool_name\":\"grep\"\x7d"
    let both := "\x7b\"gen_ai_tool_name\":\"grep\",\"user_prompt\":\"hi\"\x7d"
    sharePayload tableJson "" "" "" "" none (failed "timeout" tool) =
      sharePayload tableJson "" "" "" "" none (failed "timeout" both) := by
  intro tool both
  have hAgree : Forall₂ (Agree tableJson) (failed "timeout" tool) (failed "timeout" both) := by
    have hSame :
        ∀ key, key ≠ "user_prompt" →
          tableJson.get ⟨"a", none, "chat", "", "", 0, 1, 2, "timeout", tool, [], 0⟩ key =
            tableJson.get ⟨"a", none, "chat", "", "", 0, 1, 2, "timeout", both, [], 0⟩ key := by
      intro key hNe
      simp [SerdeJson.get, tableJson, attributeTexts, tool, both, hNe, lookup_cons]
    refine .cons ⟨rfl, fun key hKey => ?_, fun key hKey => ?_⟩ .nil
    · rw [hSame key]
      rintro rfl
      simp [isContentKey, denylistKeys] at hKey
    · refine hSame key ?_
      rintro rfl
      simp [allowlisted, shareTextKeys, metadataKeys] at hKey
  exact ((sharePayload_eq_iff hAgree).mpr rfl).1

end Tracelane.Gateway.TraceShare
