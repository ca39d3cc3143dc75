import Tracelane.Json.RoundTrip
import Tracelane.Native.Guarded

/-
  The Anthropic, the Gemini and the Responses stream.

  Two slips: the Anthropic and the Gemini stream drop a block at the unterminated last frame, which
  the Responses stream acts upon; and a frame is read by its first data line only, so a client that
  joins the lines reads text that was never scanned.
-/

open Transition List

namespace Tracelane.Native

open Chat

--
-- The Wires
--

section Wires

variable (codec : Codec) (correlation : String)

def renderAnthropic : Sent → Bytes
| .frame f => f.raw
| .synth index t => synthTextDelta codec index t

def messagesWire (unscanned : Relay → Frame → Bool) :
    Wire Relay Frame Sent where
  machine := relayMachine
  new := {}
  classify := classifyFrame codec
  raw := Frame.raw
  wireText := anthropicText
  unscanned
  fails := anthropicFails codec
  nextSeq := fun lastSeq _ => lastSeq
  servedId := fun _ => none
  render := renderAnthropic codec
  blockEvent := fun _ reason _ => synthBlockError codec reason correlation
  timeoutEvent := fun _ timeout _ => anthropicTimeout codec timeout
  hearsTrailing := false

def renderGemini : Sent → Bytes
| .frame f => f.raw
| .synth _ t => synthTextFrame codec t

def geminiWire (unscanned : Relay → Frame → Bool) :
    Wire Relay Frame Sent where
  machine := relayMachine
  new := {}
  classify := classifyGeminiFrame codec
  raw := Frame.raw
  wireText := geminiText
  unscanned
  fails := geminiFails codec
  nextSeq := fun lastSeq _ => lastSeq
  servedId := fun _ => none
  render := renderGemini codec
  blockEvent := fun _ reason _ => synthBlockFrame codec reason correlation
  timeoutEvent := fun _ timeout _ => geminiTimeout codec timeout
  hearsTrailing := false

def renderResponses : NativeSent → Bytes
| .frame f => f.raw
| .synth place t lastSeq =>
    sseEvent codec (outputTextDelta place (textOfBytes t) lastSeq)
| .rewritten _ b => b

def responsesWire (unscanned : NativeRelay → NativeFrame → Bool) :
    Wire NativeRelay NativeFrame NativeSent where
  machine := nativeMachine (rewriteAggregate codec)
  new := {}
  classify := classifyNativeFrame codec
  raw := NativeFrame.raw
  wireText := responsesText
  unscanned
  fails := responsesFails codec
  nextSeq := nextSeq codec
  servedId := servedId codec
  render := renderResponses codec
  blockEvent := fun id reason lastSeq =>
    blockFailedFrame codec (id.getD "") reason correlation ((lastSeq + 1) % 2 ^ 64)
  timeoutEvent := fun id timeout lastSeq =>
    responsesTimeout codec (id.getD "") (min (lastSeq + 1) (2 ^ 64 - 1)) timeout
  hearsTrailing := true

end Wires

--
-- They Are Lawful
--

section Lawful

variable {codec : Codec} {correlation : String}

theorem classifyFrame_raw (raw : Bytes) :
    (classifyFrame codec raw).raw = raw := by
  unfold classifyFrame
  split
  · rfl
  · rfl

theorem classifyFrame_text (raw : Bytes) :
    (classifyFrame codec raw).text = (frameValue codec raw).bind anthropicText := by
  unfold classifyFrame
  cases frameValue codec raw with
  | none => rfl
  | some v => rfl

variable (unscanned : Relay → Frame → Bool)

theorem messagesWire_lawful :
    (messagesWire codec correlation unscanned).Lawful where
  clears := relay_clears
  fresh := clean_new rfl rfl rfl rfl rfl
  raw := classifyFrame_raw
  verbatim := fun _ => rfl

theorem geminiWire_lawful :
    (geminiWire codec correlation unscanned).Lawful where
  clears := relay_clears
  fresh := clean_new rfl rfl rfl rfl rfl
  raw := fun _ => rfl
  verbatim := fun _ => rfl

theorem responsesWire_lawful (unscanned : NativeRelay → NativeFrame → Bool) :
    (responsesWire codec correlation unscanned).Lawful where
  clears := native_clears
  fresh := clean_new rfl rfl rfl rfl rfl
  raw := fun _ => rfl
  verbatim := fun _ => rfl

--
-- They Tell What They Send
--

theorem aligned_new :
    Aligned [] [] [] 0 0 false [] where
  begun := rfl
  within := Nat.le_refl 0
  ahead := fun _ => ⟨rfl, Nat.le_refl 0, rfl⟩
  safe := ⟨"", rfl⟩
  text := ⟨"", rfl⟩

theorem frame_text (f : Frame) :
    f.piece.text? = (f.text.map utf8).getD [] := by
  unfold Frame.piece
  cases f.text with
  | none => rfl
  | some text => rfl

variable {raw : Bytes}

/- A frame that comes in, on the Anthropic wire. -/
theorem told_classifyFrame (hTidy : tidy raw = true) :
    Told codec anthropicText (classifyFrame codec raw).raw
      (classifyFrame codec raw).piece.text? := by
  rw [frame_text, classifyFrame_text, classifyFrame_raw]
  exact told_tidy hTidy

theorem told_classifyGeminiFrame (hTidy : tidy raw = true) :
    Told codec geminiText (classifyGeminiFrame codec raw).raw
      (classifyGeminiFrame codec raw).piece.text? := by
  rw [frame_text]
  exact told_tidy hTidy

theorem responsesText_nativeKind (v : Value) (raw : Bytes) :
    (NativeFrame.piece ⟨raw, nativeKind v⟩).text? = ((responsesText v).map utf8).getD [] := by
  by_cases hDelta : strField v "type" = some "response.output_text.delta"
  · simp [NativeFrame.piece, nativeKind, responsesText, hDelta, Piece.text?]
  · have hOther : (strField v "type").getD "" ≠ "response.output_text.delta" := by
      cases hType : strField v "type" with
      | none => decide
      | some ty =>
        rw [hType] at hDelta
        simpa using hDelta
    have hNone : responsesText v = none := by rw [responsesText, if_neg hDelta]
    rw [hNone]
    cases hKind : nativeKind v with
    | text text place =>
      simp only [nativeKind, hOther, if_false] at hKind
      split_ifs at hKind
    | aggregate => rfl
    | other => rfl

theorem told_classifyNativeFrame (hTidy : tidy raw = true) :
    Told codec responsesText (classifyNativeFrame codec raw).raw
      (classifyNativeFrame codec raw).piece.text? := by
  have hTold : Told codec responsesText raw _ := told_tidy hTidy
  cases hValue : frameValue codec raw with
  | none =>
    rw [hValue] at hTold
    simpa [classifyNativeFrame, hValue, NativeFrame.piece, Piece.text?] using hTold
  | some v =>
    rw [hValue, Option.bind_some, ← responsesText_nativeKind v raw] at hTold
    simpa [classifyNativeFrame, hValue] using hTold

section

variable (hLawful : codec.Lawful anthropicText MessagesPrints)
include hLawful

theorem told_synthTextDelta
    {size : Nat} {t : Bytes} (hOwn : ownText size t) (hSize : size < 2 ^ 63) (index : Nat) :
    Told codec anthropicText (synthTextDelta codec index t) t := by
  refine told_text hOwn.1 (hOwn.2.trans_lt hSize) ?_
    (told_eventFrame hLawful (.delta index (textOfBytes t)) "content_block_delta" (by decide))
  rfl

theorem told_synthBlockError (reason : String) :
    Told codec anthropicText (synthBlockError codec reason correlation) [] := by
  refine told_silent ?_ (told_eventFrame hLawful (.block reason correlation) "error" (by decide))
  rfl

theorem told_anthropicTimeout (timeout : Timeout) :
    Told codec anthropicText (anthropicTimeout codec timeout) [] := by
  refine told_silent ?_ (told_eventFrame hLawful (.timeout timeout) "error" (by decide))
  rfl

end

theorem responseText_textPart (t : Text) :
    responseText (textPart t) = t.str := by
  simp [responseText, textPart, firstCandidateParts, Value.get, stepZero, asArray, isThought,
    strField, Value.asStr, lookup_cons]

section

variable (hLawful : codec.Lawful geminiText GeminiPrints)
include hLawful

theorem told_synthTextFrame
    {size : Nat} {t : Bytes} (hOwn : ownText size t) (hSize : size < 2 ^ 63) :
    Told codec geminiText (synthTextFrame codec t) t := by
  refine told_text hOwn.1 (hOwn.2.trans_lt hSize) ?_
    (told_dataFrame hLawful (.delta (textOfBytes t)) (.inr rfl))
  rw [geminiText, responseText_textPart]
  split_ifs with hEmpty
  · rw [hEmpty]
    rfl
  · rfl

theorem told_synthBlockFrame (reason : String) :
    Told codec geminiText (synthBlockFrame codec reason correlation) [] := by
  refine told_silent ?_ (told_dataFrame hLawful (.block reason correlation) (.inr rfl))
  rfl

theorem told_geminiTimeout (timeout : Timeout) :
    Told codec geminiText (geminiTimeout codec timeout) [] := by
  refine told_silent ?_ (told_dataFrame hLawful (.timeout timeout) (.inl rfl))
  rfl

end

section

variable (hLawful : codec.Lawful responsesText (ResponsesPrints codec))
include hLawful

theorem told_outputTextDelta
    {size : Nat} {t : Bytes} (hOwn : ownText size t) (hSize : size < 2 ^ 63)
    (place : Place) (lastSeq : Nat) :
    Told codec responsesText
      (sseEvent codec (outputTextDelta place (textOfBytes t) lastSeq))
      t := by
  refine told_text hOwn.1 (hOwn.2.trans_lt hSize) ?_
    (told_eventFrame hLawful (.delta place (textOfBytes t) lastSeq) "response.output_text.delta"
      (by decide))
  rfl

theorem told_failedResponse {id : String} {seq : Nat} {error : Value}
    (hPrinted : ResponsesPrints codec (failedResponse id seq error)) :
    Told codec responsesText (sseEvent codec (failedResponse id seq error)) [] := by
  refine told_silent ?_ (told_eventFrame hLawful hPrinted "response.failed" (by decide))
  rfl

end

theorem messagesWire_tells (hLawful : codec.Lawful anthropicText MessagesPrints)
    (unscanned : Relay → Frame → Bool) :
    (messagesWire codec correlation unscanned).Tells codec ownSent where
  truthful := relay_truthful
  fresh := aligned_new
  waiting := rfl
  relayed := by
    intro a size hOwn hSize
    cases a with
    | frame f =>
      rcases hOwn with ⟨raw, rfl, hTidy⟩
      exact told_classifyFrame hTidy
    | synth index t =>
      exact told_synthTextDelta hLawful hOwn hSize index
  block := fun _ reason _ => told_synthBlockError hLawful reason
  timeout := fun _ timeout _ =>
    told_anthropicTimeout hLawful timeout

theorem geminiWire_tells (hLawful : codec.Lawful geminiText GeminiPrints)
    (unscanned : Relay → Frame → Bool) :
    (geminiWire codec correlation unscanned).Tells codec ownSent where
  truthful := relay_truthful
  fresh := aligned_new
  waiting := rfl
  relayed := by
    intro a size hOwn hSize
    cases a with
    | frame f =>
      rcases hOwn with ⟨raw, rfl, hTidy⟩
      exact told_classifyGeminiFrame hTidy
    | synth index t =>
      exact told_synthTextFrame hLawful hOwn hSize
  block := fun _ reason _ => told_synthBlockFrame hLawful reason
  timeout := fun _ timeout _ => told_geminiTimeout hLawful timeout

theorem responsesWire_tells (hLawful : codec.Lawful responsesText (ResponsesPrints codec))
    (unscanned : NativeRelay → NativeFrame → Bool) :
    (responsesWire codec correlation unscanned).Tells codec
      (ownNativeSent (rewriteAggregate codec)) where
  truthful := native_truthful _
  fresh := aligned_new
  waiting := rfl
  relayed := by
    intro a size hOwn hSize
    cases a with
    | frame f =>
      rcases hOwn with ⟨raw, rfl, hTidy⟩
      exact told_classifyNativeFrame hTidy
    | synth place t lastSeq =>
      exact told_outputTextDelta hLawful hOwn hSize place lastSeq
    | rewritten f b =>
      rcases hOwn with ⟨⟨raw, hFrame, _⟩, hKind, emitted, hRewrite⟩
      have hNone :
          ((nativeMachine (rewriteAggregate codec)).sentPiece (.rewritten f b)).text? = [] := by
        simp [nativeMachine, NativeSent.piece, NativeFrame.piece, hKind, Piece.text?]
      have hTold : Told codec responsesText b [] := told_rewritten hLawful hFrame hKind hRewrite
      rw [← hNone] at hTold
      exact hTold
  block := fun _ _ _ => told_failedResponse hLawful (.block _ _ _ _)
  timeout := fun _ _ _ => told_failedResponse hLawful (.timeout _ _ _)

end Lawful

/- JSON, as the canonical text of a value. -/
def jsonCodec : Codec where
  parse := fun b => Json.parse (decodeUtf8 b)
  print := fun v => utf8 (if v.ok then v.canonical else "null")

def jsonMessages : Wire Relay Frame Sent :=
  messagesWire jsonCodec "01J" (fun _ _ => false)

def deltaHead : String :=
  "data: \x7b\"type\":\"content_block_delta\",\"index\":0,"

def deltaTail : String :=
  "\"delta\":\x7b\"type\":\"text_delta\",\"text\":\"secret\"\x7d\x7d"

/- The upstream ends within a frame, which the guard blocks. -/
def cutStream : List Event :=
  [.chunk (utf8 (deltaHead ++ deltaTail)), .theEnd,
    .trailing { step := .block "pii" }, .finish (.emit "")]

/- One event, in two data lines. -/
def splitStream : List Event :=
  [.chunk (utf8 (deltaHead ++ "\ndata: " ++ deltaTail ++ "\n\n")), .frame {}]

open Value Json

def printable (c : Char) : Bool :=
  0x20 ≤ c.toNat

theorem printable_escapeChar (c : Char) :
    (escapeChar c).all printable = true := by
  have hHex : ∀ n < 0x20, (hex4 n).all printable = true := by decide
  unfold escapeChar
  split_ifs with hQuote hSlash hLf hCr hTab hBs hFf hControl
  · decide
  · decide
  · decide
  · decide
  · decide
  · decide
  · decide
  · simp only [all_cons, hHex _ hControl, Bool.and_true]
    decide
  · simpa [printable] using hControl

theorem printable_quote (s : String) :
    (quote s).all printable = true := by
  have hQuote : printable '"' = true := by decide
  simp [quote, all_flatMap, printable_escapeChar, hQuote]

theorem printable_intercalate (xs : List (List Char)) (hEach : ∀ x ∈ xs, x.all printable = true) :
    ([','].intercalate xs).all printable = true := by
  induction xs with
  | nil => rfl
  | cons x xs ih =>
    rw [forall_mem_cons] at hEach
    cases xs with
    | nil => simpa using hEach.1
    | cons y ys =>
      rw [intercalate_cons, all_append, all_cons, hEach.1, ih hEach.2]
      decide

/- No character of a canonical text ends a line. -/
theorem printable_canonChars (v : Value) (hOk : ok v = true) :
    (canonChars v).all printable = true := by
  induction v using induction with
  | hNull => decide
  | hBool b =>
    cases b with
    | true | false => decide
  | hNumber token =>
    have hDigits : token.toList.all isNumberChar = true := by
      rw [ok, isNumber] at hOk
      simp_all
    rw [canonChars, chars_eq_toList, all_eq_true]
    intro c hC
    have hNumber := all_eq_true.mp hDigits c hC
    by_contra hControl
    have hNone : ∀ n < 0x20, isNumberChar (Char.ofNat n) = false := by decide
    have hFalse := hNone c.toNat (by simpa [printable] using hControl)
    rw [Char.ofNat_toNat, hNumber] at hFalse
    cases hFalse
  | hString t => exact printable_quote t.str
  | hArray items ih =>
    have hItems := printable_intercalate (items.map canonChars) (by
      rw [forall_mem_map]
      exact fun x hX => ih x hX (ok_item hOk hX))
    rw [canonChars, canonItems_eq, all_append, all_cons, hItems]
    decide
  | hObject entries ih =>
    have hMembers := printable_intercalate ((byKey entries).map (printEntry canonChars)) (by
      rw [forall_mem_map]
      intro e hE
      have hMem := mem_byKey.mp hE
      have hColon : printable ':' = true := by decide
      simp [printEntry, printable_quote, hColon, ih e hMem ((ok_entries hOk).2 e hMem)])
    rw [canonChars_object, all_cons, all_append, hMembers]
    decide

theorem unbroken_utf8 {cs : List Char} (hPrintable : cs.all printable = true) :
    Reader.unbroken (utf8 (String.ofList cs)) = true := by
  rw [utf8_ofList, Reader.unbroken, all_flatMap, all_eq_true]
  intro c hC
  rw [all_eq_true]
  intro b hB
  have hLarge : 0x20 ≤ c.toNat := by
    simpa [printable] using all_eq_true.mp hPrintable c hC
  have hOther : ∀ e : UInt8, e < 0x20 → b ≠ e := by
    rintro e hE rfl
    have hSmall : b.toNat < 0x20 := hE
    have hEq := toNat_eq_of_mem_utf8EncodeChar (show b.toNat < 128 by omega) hB
    omega
  simp [hOther 10 (by decide), hOther 13 (by decide)]

theorem jsonCodec_reads {v : Value} (hOk : ok v = true) :
    jsonCodec.parse (jsonCodec.print v) = some (inOrder v) := by
  simp only [jsonCodec, if_pos hOk]
  exact parse_canonical hOk

/- A value that says nothing may also be one that JSON cannot write. -/
theorem jsonCodec_lawful {wireText : Value → Option String} {printed : Value → Prop}
    (hNull : wireText .null = none)
    (hKept : ∀ v, printed v → ok v = true → wireText (inOrder v) = wireText v)
    (hSilent : ∀ v, printed v → ok v = false → wireText v = none) :
    jsonCodec.Lawful wireText printed where
  unbroken := by
    intro v _
    simp only [jsonCodec]
    split_ifs with hOk
    · exact unbroken_utf8 (printable_canonChars v hOk)
    · decide
  reads := by
    intro v hPrinted
    cases hOk : ok v with
    | true =>
      rw [jsonCodec_reads hOk]
      exact hKept v hPrinted hOk
    | false =>
      have hPrint : jsonCodec.print v = jsonCodec.print .null := by
        simp only [jsonCodec, hOk, ok, Bool.false_eq_true, if_false, if_true]
        rfl
      rw [hPrint, jsonCodec_reads rfl, hSilent v hPrinted hOk]
      exact hNull

theorem get_inOrder {v : Value} (hOk : ok v = true) (key : String) :
    (inOrder v).get key = (v.get key).map inOrder := by
  cases v with
  | object entries =>
    rw [inOrder_object]
    exact lookup_inOrder (ok_entries hOk).1 key
  | null | bool _ | number _ | string _ | array _ => simp [inOrder, Value.get]

theorem strField_inOrder {v : Value} (hOk : ok v = true) (key : String) :
    strField (inOrder v) key = strField v key := by
  unfold strField
  rw [get_inOrder hOk]
  cases v.get key with
  | none => rfl
  | some w => cases w <;> simp [inOrder, asStr]

open Nat in
theorem head_toDigits (n : Nat) (hPos : 0 < n) :
    (toDigits 10 n).head? ≠ some '0' := by
  induction n using Nat.strong_induction_on with
  | h n ih =>
    by_cases hSmall : n < 10
    · rw [toDigits_of_lt_base hSmall]
      simpa using hPos.ne'
    · rw [toDigits_of_base_le (by decide) (Nat.le_of_not_lt hSmall),
        head?_append_of_ne_nil _ toDigits_ne_nil]
      exact ih (n / 10) (by omega) (by omega)

theorem isNumber_toDigits (n : Nat) :
    isNumber (Nat.toDigits 10 n) = true := by
  have hDigits : ∀ c ∈ Nat.toDigits 10 n, c.isDigit = true := fun _ hC =>
    Nat.isDigit_of_mem_toDigits (by decide) (by decide) hC
  have hTake := takeWhile_eq_self_iff.mpr hDigits
  have hDrop := dropWhile_eq_nil_iff.mpr hDigits
  have hSign : (Nat.toDigits 10 n).head? ≠ some '-' := by
    intro hHead
    have := hDigits '-' (mem_of_mem_head? hHead)
    cases this
  have hZero : (Nat.toDigits 10 n).length = 1 ∨ (Nat.toDigits 10 n).head? ≠ some '0' := by
    cases n with
    | zero => exact .inl rfl
    | succ n => exact .inr (head_toDigits _ n.succ_pos)
  have hChars : (Nat.toDigits 10 n).all isNumberChar = true := by
    rw [all_eq_true]
    intro c hC
    simp [isNumberChar, hDigits c hC]
  unfold isNumber
  simp only [if_neg hSign, hTake, hDrop, hChars, isFraction, isExponent]
  simpa using hZero

theorem jsonCodec_messages :
    jsonCodec.Lawful anthropicText MessagesPrints := by
  refine jsonCodec_lawful rfl ?_ ?_
  · intro v hPrinted _
    cases hPrinted with
    | delta | block | timeout =>
      simp [anthropicText, textDelta, blockError, timeoutEvent, inOrder, inOrderEntries, byKey,
        strField, Value.get, lookup_cons, pointer, str, asStr]
  · intro v hPrinted hOk
    cases hPrinted with
    | delta index t => simp [textDelta, ok, okEntries, num, str, isNumber_toDigits] at hOk
    | block | timeout => rfl

theorem jsonCodec_gemini :
    jsonCodec.Lawful geminiText GeminiPrints := by
  refine jsonCodec_lawful rfl ?_ ?_
  · intro v hPrinted _
    cases hPrinted with
    | delta | block | timeout =>
      simp [geminiText, responseText, firstCandidateParts, textPart, blockStatus, timeoutStatus,
        inOrder, inOrderEntries, inOrderItems, byKey, strField, Value.get, lookup_cons, str, asStr,
        stepZero, asArray, isThought]
  · intro v hPrinted hOk
    cases hPrinted with
    | delta t => cases hOk
    | block | timeout => rfl

theorem jsonCodec_responses :
    jsonCodec.Lawful responsesText (ResponsesPrints jsonCodec) := by
  refine jsonCodec_lawful rfl ?_ ?_
  · intro v _ hOk
    simp only [responsesText, strField_inOrder hOk]
  · intro v hPrinted hOk
    cases hPrinted with
    | delta place t lastSeq =>
      simp [outputTextDelta, ok, okItems, okEntries, num, str, isNumber_toDigits] at hOk
    | block | timeout => rfl
    | aggregate emitted hValue hKind => exact responsesText_rewritten hKind emitted

/- A text delta, and what the guard answers to it. -/
def answered (step : GuardStep) : List Event :=
  [.chunk (utf8 (deltaHead ++ deltaTail ++ "\n\n")), .frame { step }]

end Tracelane.Native
