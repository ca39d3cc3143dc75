import Tracelane.Json.Value
import Tracelane.Native.Shown
import Tracelane.Native.Sse

/-
  The three native wires: how a frame is read, and the frames the gateway builds itself.

  Reading and printing JSON is a parameter.
-/

namespace Tracelane.Native

open Chat Reader List

/- `serde_json::from_str` and the display of a value. -/
structure Codec where
  parse : Bytes → Option Value
  print : Value → Bytes

--
-- Values
--

/- A string as a value holds it. -/
def text (s : String) : Text :=
  if h : s.utf8ByteSize < 2 ^ 63 then ⟨s, h⟩ else ⟨"", Text.fits_empty⟩

theorem text_str {s : String} (hFits : s.utf8ByteSize < 2 ^ 63) :
    (text s).str = s := by
  rw [text, dif_pos hFits]

def textOfBytes (b : Bytes) : Text :=
  text (ofChars (decodeUtf8 b))

theorem textOfBytes_utf8 {s : String} (hFits : (utf8 s).length < 2 ^ 63) :
    (textOfBytes (utf8 s)).str = s := by
  have hChars : ofChars (decodeUtf8 (utf8 s)) = s := by
    rw [ofChars_eq_ofList]
    change String.ofList (chars s) = s
    rw [chars_eq_toList, String.ofList_toList]
  unfold textOfBytes
  rw [hChars]
  exact text_str (by rw [← length_utf8]; exact hFits)

def str (s : String) : Value :=
  .string (text s)

def num (n : Nat) : Value :=
  .number (toString n)

/- `str_field`. -/
def strField (v : Value) (key : String) : Option String :=
  ((v.get key).bind Value.asStr).map Text.str

/- `Value::as_u64` of a number as it prints. -/
def asU64 : Value → Option Nat
| .number token =>
    if (chars token).all Char.isDigit then
      (some (Nat.ofDigitChars 10 (chars token) 0)).filter (· < 2 ^ 64)
    else none
| _ => none

def u64Field (v : Value) (key : String) : Nat :=
  ((v.get key).bind asU64).getD 0

def asArray : Value → Option (List Value)
| .array items => some items
| _ => none

/- `v[key] = value` on an object; another value has no keys. -/
def setEntry (key : String) (value : Value) :
    List (String × Value) → List (String × Value)
| [] => [(key, value)]
| entry :: rest =>
    if entry.1 = key then (key, value) :: rest
    else entry :: setEntry key value rest

def setField (v : Value) (key : String) (value : Value) : Value :=
  match v with
  | .object entries => .object (setEntry key value entries)
  | other => other

/- Change what stands under a key. -/
def modifyField (v : Value) (key : String) (change : Value → Value) : Value :=
  match v.get key with
  | some old => setField v key (change old)
  | none => v

/- The text of a `content_block_delta` with a `text_delta`. -/
def anthropicText (v : Value) : Option String :=
  if strField v "type" = some "content_block_delta" ∧
      ((v.pointer ["delta", "type"]).bind Value.asStr).map Text.str =
        some "text_delta" then
    some ((((v.pointer ["delta", "text"]).bind Value.asStr).map Text.str).getD "")
  else none

/- The step `0` of a pointer. -/
def stepZero : Value → Option Value
| .array items => items.head?
| .object entries => entries.lookup "0"
| _ => none

def firstCandidateParts (v : Value) : Option (List Value) :=
  ((((v.get "candidates").bind stepZero).bind
    (Value.get "content")).bind (Value.get "parts")).bind asArray

def isThought (p : Value) : Bool :=
  match p.get "thought" with
  | some (.bool true) => true
  | _ => false

/- Every text part of the first candidate but the thoughts. -/
def responseText (v : Value) : String :=
  match firstCandidateParts v with
  | none => ""
  | some parts =>
      ((parts.filter (fun p => !isThought p)).filterMap (strField · "text")).foldl (· ++ ·) ""

def geminiText (v : Value) : Option String :=
  if responseText v = "" then none else some (responseText v)

/- The text of a `response.output_text.delta`. -/
def responsesText (v : Value) : Option String :=
  if strField v "type" = some "response.output_text.delta" then
    some ((strField v "delta").getD "")
  else none

--
-- Frames As They Come
--

section Codec

variable (codec : Codec)

def frameValue (raw : Bytes) : Option Value :=
  (frameData raw).bind codec.parse

/- On the Anthropic wire. -/
def classifyFrame (raw : Bytes) : Frame :=
  match frameValue codec raw with
  | none => { raw, text := none }
  | some v =>
      { raw
        text := anthropicText v
        index := u64Field v "index" }

/- On the Gemini wire. -/
def classifyGeminiFrame (raw : Bytes) : Frame where
  raw
  text := (frameValue codec raw).bind geminiText

def nativeKind (v : Value) : FrameKind :=
  let ty := (strField v "type").getD ""
  if ty = "response.output_text.delta" then
    .text ((strField v "delta").getD "")
      { itemId := (strField v "item_id").getD ""
        outputIndex := u64Field v "output_index"
        contentIndex := u64Field v "content_index" }
  else if ty = "response.output_text.done" ∨
      ty = "response.content_part.done" then
    .aggregate
  else if ty = "response.output_item.done" then
    if (v.get "item").bind (strField · "type") =
        some "message" then
      .aggregate
    else .other
  else if ty = "response.completed" ∨
      ty = "response.incomplete" ∨ ty = "response.failed" then
    .aggregate
  else .other

/- On the Responses wire. -/
def classifyNativeFrame (raw : Bytes) : NativeFrame where
  raw
  kind := ((frameValue codec raw).map nativeKind).getD .other

/- Whether a frame reports the provider's own failure. -/
def anthropicFails (raw : Bytes) : Bool :=
  (frameValue codec raw).bind (strField · "type") = some "error"

def geminiFails (raw : Bytes) : Bool :=
  ((frameValue codec raw).bind (Value.get "error")).isSome

def responsesFails (raw : Bytes) : Bool :=
  (frameValue codec raw).bind (strField · "type") = some "response.failed" ||
    (frameValue codec raw).bind (strField · "type") = some "error"

/- The highest sequence number so far. -/
def nextSeq (lastSeq : Nat) (raw : Bytes) : Nat :=
  match ((frameValue codec raw).bind
      (Value.get "sequence_number")).bind asU64 with
  | some seq => max lastSeq seq
  | none => lastSeq

/- The id a `response.created` claims. -/
def servedId (raw : Bytes) : Option String :=
  match frameValue codec raw with
  | none => none
  | some v =>
      if strField v "type" = some "response.created" ∨
          strField v "type" = some "response.in_progress" then
        (v.get "response").bind (strField · "id")
      else none

--
-- Frames Of Our Own
--

/- `event: {name}\ndata: {payload}\n\n`. -/
def eventFrame (name : String) (payload : Value) : Bytes :=
  (utf8 "event: " ++ utf8 name ++ [10]) ++
    ((dataName ++ (32 :: codec.print payload) ++ [10]) ++ [10])

def dataFrame (payload : Value) (blank : Bytes) : Bytes :=
  (dataName ++ (32 :: codec.print payload)) ++ blank

def lfBlank : Bytes := [10, 10]
def crlfBlank : Bytes := [13, 10, 13, 10]

def sseEvent (payload : Value) : Bytes :=
  eventFrame codec ((strField payload "type").getD "") payload

def textDelta (index : Nat) (t : Text) : Value :=
  .object
    [("type", str "content_block_delta"),
      ("index", num index),
      ("delta", .object [("type", str "text_delta"), ("text", .string t)])]

def synthTextDelta (index : Nat) (t : Bytes) : Bytes :=
  eventFrame codec "content_block_delta" (textDelta index (textOfBytes t))

def textPart (t : Text) : Value :=
  .object
    [("candidates",
      .array
        [.object
          [("content",
            .object [("role", str "model"), ("parts", .array [.object [("text", .string t)]])]),
            ("index", num 0)]])]

def synthTextFrame (t : Bytes) : Bytes :=
  dataFrame codec (textPart (textOfBytes t)) crlfBlank

def outputTextDelta (place : Place) (t : Text) (lastSeq : Nat) : Value :=
  .object
    [("type", str "response.output_text.delta"),
      ("item_id", str place.itemId),
      ("output_index", num place.outputIndex),
      ("content_index", num place.contentIndex),
      ("delta", .string t),
      ("logprobs", .array []),
      ("sequence_number", num lastSeq)]

def blockMessage : String :=
  "response blocked by Tracelane inline guardrail"

def blockError (reason correlation : String) : Value :=
  .object
    [("type", str "error"),
      ("error",
        .object
          [("type", str "permission_error"),
            ("message", str blockMessage),
            ("code", str "guardrail_block"),
            ("reason_code", str reason),
            ("correlation_id", str correlation)])]

def synthBlockError (reason correlation : String) : Bytes :=
  eventFrame codec "error" (blockError reason correlation)

def blockStatus (reason correlation : String) : Value :=
  .object
    [("error",
      .object
        [("code", num 403),
          ("message", str blockMessage),
          ("status", str "PERMISSION_DENIED"),
          ("tracelane_code", str "guardrail_block"),
          ("reason_code", str reason),
          ("correlation_id", str correlation)])]

def synthBlockFrame (reason correlation : String) : Bytes :=
  dataFrame codec (blockStatus reason correlation) crlfBlank

/- A failed response with this error. -/
def failedResponse (id : String) (seq : Nat) (error : Value) : Value :=
  .object
    [("type", str "response.failed"),
      ("sequence_number", num seq),
      ("response",
        .object
          [("id", str id),
            ("object", str "response"),
            ("status", str "failed"),
            ("output", .array []),
            ("incomplete_details", .null),
            ("error", error)])]

def blockFailure (reason correlation : String) : Value :=
  .object
    [("code", str "guardrail_block"),
      ("message",
        str
          (blockMessage ++ " (reason: " ++ reason ++
            ", correlation_id: " ++ correlation ++ ")"))]

def blockFailedFrame (id reason correlation : String) (seq : Nat) : Bytes :=
  sseEvent codec (failedResponse id seq (blockFailure reason correlation))

def timeoutError (timeout : Timeout) : Value :=
  .object
    [("type", str "upstream_timeout"),
      ("code", str "upstream_timeout"),
      ("message", str "the upstream deadline elapsed"),
      ("phase", str timeout.phase),
      ("limit_ms", num timeout.limitMs)]

def timeoutEvent (timeout : Timeout) : Value :=
  .object [("type", str "error"), ("error", timeoutError timeout)]

def anthropicTimeout (timeout : Timeout) : Bytes :=
  eventFrame codec "error" (timeoutEvent timeout)

def timeoutStatus (timeout : Timeout) : Value :=
  .object
    [("error",
      .object
        [("code", num 504),
          ("status", str "DEADLINE_EXCEEDED"),
          ("message", str "the upstream deadline elapsed"),
          ("details", .array [timeoutError timeout])])]

def geminiTimeout (timeout : Timeout) : Bytes :=
  dataFrame codec (timeoutStatus timeout) lfBlank

def responsesTimeout (id : String) (seq : Nat) (timeout : Timeout) : Bytes :=
  sseEvent codec (failedResponse id seq (timeoutError timeout))

def textFor (emitted : Emitted) (id : String) : Value :=
  .string (textOfBytes ((emitted.lookup id).getD []))

/- The first text part carries the text, later ones none. -/
def rewriteParts (first : Value) : List Value → List Value
| [] => []
| p :: rest =>
    if strField p "type" = some "output_text" then
      setField p "text" first :: rewriteParts (str "") rest
    else p :: rewriteParts first rest

def rewriteItem (emitted : Emitted) (item : Value) : Value :=
  if strField item "type" = some "message" then
    modifyField item "content" (fun content =>
      match content with
      | .array parts => .array (rewriteParts (textFor emitted ((strField item "id").getD "")) parts)
      | other => other)
  else item

def rewriteValue (emitted : Emitted) (v : Value) : Value :=
  let ty := (strField v "type").getD ""
  let own := textFor emitted ((strField v "item_id").getD "")
  if ty = "response.output_text.done" then
    setField v "text" own
  else if ty = "response.content_part.done" then
    modifyField v "part" (fun part =>
      if strField part "type" = some "output_text" then
        setField part "text" own
      else part)
  else if ty = "response.output_item.done" then
    modifyField v "item" (rewriteItem emitted)
  else
    modifyField v "response" (fun r =>
      modifyField r "output" (fun output =>
        match output with
        | .array items => .array (items.map (rewriteItem emitted))
        | other => other))

/- Without a readable payload the frame is dropped. -/
def rewriteAggregate (raw : Bytes) (emitted : Emitted) : Option Bytes :=
  (frameValue codec raw).map (fun v => sseEvent codec (rewriteValue emitted v))

/- The values the gateway prints, on each of the wires. -/
inductive MessagesPrints : Value → Prop
| delta (index : Nat) (t : Text) :
    MessagesPrints (textDelta index t)
| block (reason correlation : String) :
    MessagesPrints (blockError reason correlation)
| timeout (timeout : Timeout) :
    MessagesPrints (timeoutEvent timeout)

inductive GeminiPrints : Value → Prop
| delta (t : Text) :
    GeminiPrints (textPart t)
| block (reason correlation : String) :
    GeminiPrints (blockStatus reason correlation)
| timeout (timeout : Timeout) :
    GeminiPrints (timeoutStatus timeout)

inductive ResponsesPrints : Value → Prop
| delta (place : Place) (t : Text) (lastSeq : Nat) :
    ResponsesPrints (outputTextDelta place t lastSeq)
| block (id reason correlation : String) (seq : Nat) :
    ResponsesPrints (failedResponse id seq (blockFailure reason correlation))
| timeout (id : String) (seq : Nat) (timeout : Timeout) :
    ResponsesPrints (failedResponse id seq (timeoutError timeout))
| aggregate {raw : Bytes} {v : Value} (emitted : Emitted)
    (hValue : frameValue codec raw = some v)
    (hKind : nativeKind v = .aggregate) :
    ResponsesPrints (rewriteValue emitted v)

end Codec

--
-- Reading Back
--

/- The text a client reads from the data of some events. -/
def eventTexts (codec : Codec) (wireText : Value → Option String) (events : List Bytes) : Bytes :=
  events.flatMap (fun data => (((codec.parse data).bind wireText).map utf8).getD [])

/- A client that is between events reads this text from the frame, and is between events again. -/
def Told (codec : Codec) (wireText : Value → Option String) (frame text : Bytes) : Prop :=
  ∃ events, Reader.read {} frame = ({}, events) ∧ eventTexts codec wireText events = text

/- What is printed stands on one line and carries the text that was put in. -/
structure Codec.Lawful (codec : Codec) (wireText : Value → Option String)
    (printed : Value → Prop) : Prop where
  unbroken : ∀ v, printed v → Reader.unbroken (codec.print v) = true
  reads : ∀ v, printed v → (codec.parse (codec.print v)).bind wireText = wireText v

section Told

variable {codec : Codec} {wireText : Value → Option String} {printed : Value → Prop}

theorem told_nil :
    Told codec wireText [] [] :=
  ⟨[], rfl, rfl⟩

theorem told_append {frame later text more : Bytes} (hFrame : Told codec wireText frame text)
    (hLater : Told codec wireText later more) :
    Told codec wireText (frame ++ later) (text ++ more) := by
  rcases hFrame with ⟨events, hRead, hText⟩
  rcases hLater with ⟨next, hNext, hMore⟩
  refine ⟨events ++ next, ?_, ?_⟩
  · rw [read_append, hRead, hNext]
  · rw [eventTexts, flatMap_append, ← hText, ← hMore]
    rfl

/- A frame that the client reads as the gateway does. -/
theorem told_tidy {raw : Bytes} (hTidy : tidy raw = true) :
    Told codec wireText raw ((((frameValue codec raw).bind wireText).map utf8).getD []) := by
  refine ⟨_, eq_of_beq hTidy, ?_⟩
  unfold frameValue
  cases frameData raw with
  | none => rfl
  | some data => simp [eventTexts]

section

variable (hLawful : codec.Lawful wireText printed) {payload : Value} (hPrinted : printed payload)
include hLawful hPrinted

theorem eventTexts_print :
    eventTexts codec wireText [codec.print payload] = ((wireText payload).map utf8).getD [] := by
  rw [eventTexts, flatMap_singleton, hLawful.reads payload hPrinted]

theorem told_eventFrame (name : String) (hName : Reader.unbroken (utf8 name) = true) :
    Told codec wireText (eventFrame codec name payload)
      (((wireText payload).map utf8).getD []) := by
  have hLine : utf8 "event: " ++ utf8 name = 101 :: ([118, 101, 110, 116, 58, 32] ++ utf8 name) :=
    rfl
  refine ⟨_, read_event _ _ ?_ ?_ ?_ (hLawful.unbroken payload hPrinted),
    eventTexts_print hLawful hPrinted⟩
  · simp only [unbroken] at hName
    rw [hLine]
    simp [unbroken, hName]
  · simp [hLine]
  · simp [hLine, fieldData, dataName, dataValue]

theorem told_dataFrame {blank : Bytes} (hBlank : blank = lfBlank ∨ blank = crlfBlank) :
    Told codec wireText (dataFrame codec payload blank)
      (((wireText payload).map utf8).getD []) := by
  refine ⟨_, ?_, eventTexts_print hLawful hPrinted⟩
  rcases hBlank with rfl | rfl
  · exact read_dataLf _ (hLawful.unbroken payload hPrinted)
  · exact read_data _ (hLawful.unbroken payload hPrinted)

end

/- A frame of our own that says nothing in this wire. -/
theorem told_silent {frame : Bytes} {payload : Value} (hSilent : wireText payload = none)
    (hTold : Told codec wireText frame (((wireText payload).map utf8).getD [])) :
    Told codec wireText frame [] := by
  rw [hSilent] at hTold
  exact hTold

/- A frame of our own that says this text. -/
theorem told_text {frame text : Bytes} {payload : Value}
    (hText : ∃ str, text = utf8 str) (hFits : text.length < 2 ^ 63)
    (hSays : ((wireText payload).map utf8).getD [] = utf8 (textOfBytes text).str)
    (hTold : Told codec wireText frame (((wireText payload).map utf8).getD [])) :
    Told codec wireText frame text := by
  rcases hText with ⟨str, rfl⟩
  rw [hSays, textOfBytes_utf8 hFits] at hTold
  exact hTold

end Told

--
-- Rewritten Aggregates
--

variable {key other : String}

theorem lookup_setEntry (hOther : other ≠ key) (value : Value) (entries : List (String × Value)) :
    (setEntry key value entries).lookup other = entries.lookup other := by
  induction entries with
  | nil => simp [setEntry, hOther]
  | cons entry rest ih =>
    rcases entry with ⟨name, old⟩
    by_cases hName : name = key
    · have hNot : (other == name) = false := by
        rw [hName]
        exact beq_false_of_ne hOther
      rw [hName] at hNot ⊢
      simp [setEntry, lookup_cons, hNot]
    · simp [setEntry, hName, lookup_cons, ih]

theorem strField_setField (hOther : other ≠ key) (v value : Value) :
    strField (setField v key value) other = strField v other := by
  cases v with
  | object entries =>
    simp [setField, strField, Value.get, lookup_setEntry hOther]
  | _ => rfl

theorem strField_modifyField (hOther : other ≠ key) (v : Value) (change : Value → Value) :
    strField (modifyField v key change) other = strField v other := by
  unfold modifyField
  split
  · exact strField_setField hOther v _
  · rfl

/- Rewriting leaves the type of a frame alone. -/
theorem strField_rewriteValue (emitted : Emitted) (v : Value) :
    strField (rewriteValue emitted v) "type" = strField v "type" := by
  simp only [rewriteValue]
  split
  · exact strField_setField (by decide) v _
  · split
    · exact strField_modifyField (by decide) v _
    · split
      · exact strField_modifyField (by decide) v _
      · exact strField_modifyField (by decide) v _

def aggregateTypes : List String :=
  ["response.output_text.done", "response.content_part.done",
    "response.output_item.done", "response.completed",
    "response.incomplete", "response.failed"]

theorem aggregate_type {v : Value} (hKind : nativeKind v = .aggregate) :
    ∃ ty ∈ aggregateTypes, strField v "type" = some ty := by
  cases hType : strField v "type" with
  | none => simp [nativeKind, hType] at hKind
  | some ty =>
    refine ⟨ty, ?_, rfl⟩
    simp only [nativeKind, hType, Option.getD_some] at hKind
    simp only [aggregateTypes, mem_cons, not_mem_nil, or_false]
    split at hKind
    · cases hKind
    · split at hKind
      · tauto
      · split at hKind
        · tauto
        · split at hKind
          · tauto
          · cases hKind

section

variable {v : Value} (hKind : nativeKind v = .aggregate) (emitted : Emitted)
include hKind

theorem rewritten_type :
    ∃ ty, strField (rewriteValue emitted v) "type" = some ty ∧ unbroken (utf8 ty) = true ∧
      ty ≠ "response.output_text.delta" := by
  rcases aggregate_type hKind with ⟨ty, hMem, hType⟩
  have hPlain :
      ∀ ty ∈ aggregateTypes, unbroken (utf8 ty) = true ∧ ty ≠ "response.output_text.delta" := by
    decide
  exact ⟨ty, (strField_rewriteValue emitted v).trans hType, hPlain ty hMem⟩

/- No rewritten aggregate is a text delta. -/
theorem responsesText_rewritten :
    responsesText (rewriteValue emitted v) = none := by
  rcases rewritten_type hKind emitted with ⟨ty, hType, _, hOther⟩
  simp [responsesText, hType, hOther]

end

theorem told_rewritten {codec : Codec}
    (hLawful : codec.Lawful responsesText (ResponsesPrints codec))
    {f : NativeFrame} {raw b : Bytes} {emitted : Emitted}
    (hFrame : f = classifyNativeFrame codec raw) (hKind : f.kind = .aggregate)
    (hRewrite : rewriteAggregate codec f.raw emitted = some b) :
    Told codec responsesText b [] := by
  subst hFrame
  rcases Option.map_eq_some_iff.mp hRewrite with ⟨v, hValue, rfl⟩
  have hAggregate : nativeKind v = .aggregate := by
    change frameValue codec raw = some v at hValue
    simpa [classifyNativeFrame, hValue] using hKind
  rcases rewritten_type hAggregate emitted with ⟨ty, hType, hUnbroken, _⟩
  have hName : unbroken (utf8 ((strField (rewriteValue emitted v) "type").getD "")) = true := by
    rw [hType]
    exact hUnbroken
  exact told_silent (responsesText_rewritten hAggregate emitted)
    (told_eventFrame hLawful (.aggregate emitted hValue hAggregate) _ hName)

end Tracelane.Native
