import Tracelane.Chat.Stream
import Tracelane.Lib.Bytes

/-
  The two relays that hold a provider's frames until the response guard has cleared the text they
  carry.

  Frames go out as they came while what the guard emits is what the provider sent.  Once it is not,
  raw text is dropped for good and the guard's text is sent in frames of our own. Texts are compared
  and cut as bytes.
-/

namespace Tracelane.Native

open Chat

/- The bytes from one offset up to another. -/
def between (b : Bytes) (first last : Nat) : Bytes :=
  (b.take last).drop first

/- What a relay wants its caller to do next. -/
inductive Release (α : Type) where
| bytes (out : List α)
| blocked (reason : String)
deriving DecidableEq

/- What the guard answers while a frame is pushed. -/
structure Answers where
  /- To output outside the text. -/
  refuse : Option String := none
  /- To a text delta. -/
  step : GuardStep := .emit ""
deriving DecidableEq

/- The guard is asked about output it cannot scan only. -/
def Answers.refused (answers : Answers) (unscanned : Bool) : Option String :=
  if unscanned then answers.refuse else none

--
-- Anthropic and Gemini
--

structure Frame where
  raw : Bytes
  /- The model text, where the frame carries some. -/
  text : Option String
  index : Nat := 0
deriving DecidableEq

/- What is sent: a frame as it came, or one of our own. -/
inductive Sent where
| frame (f : Frame)
| synth (index : Nat) (text : Bytes)
deriving DecidableEq

structure Relay where
  pending : List Frame := []
  rawText : Bytes := []
  safeText : Bytes := []
  /- Bytes of the raw text that released frames cover. -/
  released : Nat := 0
  /- Bytes of the safe text that were sent in our frames. -/
  synthesised : Nat := 0
  rewriting : Bool := false
  lastIndex : Nat := 0
deriving DecidableEq

namespace Relay

/- Release every frame at the head of the queue that is safe. -/
def drainLoop (s : Relay) :
    List Frame → Relay × List Sent
| [] => ({ s with pending := [] }, [])
| f :: rest =>
    match f.text with
    | none =>
        let r := drainLoop s rest
        (r.1, .frame f :: r.2)
    | some text =>
        if s.rewriting then drainLoop s rest
        else
          let last := s.released + (utf8 text).length
          if s.safeText.length < last then
            -- Still inside the guard's hold-back.
            ({ s with pending := f :: rest }, [])
          else if
              between s.safeText s.released last =
                between s.rawText s.released last then
            let r := drainLoop { s with released := last } rest
            (r.1, .frame f :: r.2)
          else
            -- A rail rewrote what is now due.
            drainLoop
              { s with
                rewriting := true
                synthesised := s.released }
              rest

def drain (s : Relay) : Relay × List Sent :=
  let r := drainLoop s s.pending
  if r.1.rewriting ∧ r.1.synthesised < r.1.safeText.length then
    ({ r.1 with synthesised := r.1.safeText.length },
      r.2 ++ [.synth r.1.lastIndex (r.1.safeText.drop r.1.synthesised)])
  else r

def releaseDrained (s : Relay) : Relay × Release Sent :=
  (s.drain.1, .bytes s.drain.2)

def blockedBy (s : Relay) (reason : String) :
    Relay × Release Sent :=
  ({ s with pending := [] }, .blocked reason)

def push (s : Relay) (unscanned : Bool) (frame : Frame)
    (answers : Answers) : Relay × Release Sent :=
  match answers.refused unscanned with
  | some reason => s.blockedBy reason
  | none =>
      match frame.text with
      | none => releaseDrained { s with pending := s.pending ++ [frame] }
      | some text =>
          let s :=
            { s with
              lastIndex := frame.index
              rawText := s.rawText ++ utf8 text
              pending := s.pending ++ [frame] }
          match answers.step with
          | .emit safe => releaseDrained { s with safeText := s.safeText ++ utf8 safe }
          | .block reason => s.blockedBy reason

/- The provider's stream ended. -/
def finish (s : Relay) (step : GuardStep) : Relay × Release Sent :=
  match step with
  | .emit safe => releaseDrained { s with safeText := s.safeText ++ utf8 safe }
  | .block reason => s.blockedBy reason

end Relay

--
-- Responses
--

/- The item, output and content a text belongs to. -/
structure Place where
  itemId : String := ""
  outputIndex : Nat := 0
  contentIndex : Nat := 0
deriving DecidableEq

inductive FrameKind where
| text (text : String) (place : Place)
/- A frame that repeats model text. -/
| aggregate
| other
deriving DecidableEq

structure NativeFrame where
  raw : Bytes
  kind : FrameKind
deriving DecidableEq

/- The text emitted so far, by message item. -/
abbrev Emitted := List (String × Bytes)

def Emitted.push (emitted : Emitted) (itemId : String) (text : Bytes) : Emitted :=
  match emitted with
  | [] => [(itemId, text)]
  | (key, old) :: rest =>
      if key = itemId then (key, old ++ text) :: rest
      else (key, old) :: Emitted.push rest itemId text

/- What is sent: also an aggregate with its text replaced. -/
inductive NativeSent where
| frame (f : NativeFrame)
| synth (place : Place) (text : Bytes) (lastSeq : Nat)
| rewritten (f : NativeFrame) (b : Bytes)
deriving DecidableEq

structure NativeRelay where
  pending : List NativeFrame := []
  rawText : Bytes := []
  safeText : Bytes := []
  released : Nat := 0
  synthesised : Nat := 0
  rewriting : Bool := false
  finished : Bool := false
  lastText : Place := {}
  emitted : Emitted := []
deriving DecidableEq

namespace NativeRelay

section Drain

-- `rewrite_aggregate`: none drops the frame.
variable (rewriteAggregate : Bytes → Emitted → Option Bytes) (lastSeq : Nat)

/- Send the safe text that is not yet sent. -/
def flushSynth (s : NativeRelay) :
    NativeRelay × List NativeSent :=
  if s.rewriting ∧ s.synthesised < s.safeText.length then
    let chunk := s.safeText.drop s.synthesised
    ({ s with
        synthesised := s.safeText.length
        emitted := s.emitted.push s.lastText.itemId chunk },
      [.synth s.lastText chunk lastSeq])
  else (s, [])

def drainLoop (s : NativeRelay) :
    List NativeFrame → NativeRelay × List NativeSent
| [] => ({ s with pending := [] }, [])
| f :: rest =>
    match f.kind with
    | .other =>
        let flushed := s.flushSynth lastSeq
        let r := drainLoop flushed.1 rest
        (r.1, flushed.2 ++ .frame f :: r.2)
    | .aggregate =>
        if !s.rewriting then
          let r := drainLoop s rest
          (r.1, .frame f :: r.2)
        else if !s.finished then
          -- Its text is not final until the guard is.
          ({ s with pending := f :: rest }, [])
        else
          let flushed := s.flushSynth lastSeq
          let r := drainLoop flushed.1 rest
          (r.1,
            flushed.2 ++
              ((rewriteAggregate f.raw
                flushed.1.emitted).map
                (.rewritten f)).toList ++ r.2)
    | .text text place =>
        if s.rewriting then drainLoop s rest
        else
          let last := s.released + (utf8 text).length
          if s.safeText.length < last then
            ({ s with pending := f :: rest }, [])
          else if
              between s.safeText s.released last =
                between s.rawText s.released last then
            let r :=
              drainLoop
                { s with
                  released := last
                  emitted :=
                    s.emitted.push place.itemId (utf8 text) }
                rest
            (r.1, .frame f :: r.2)
          else
            drainLoop
              { s with
                rewriting := true
                synthesised := s.released }
              rest

def drain (s : NativeRelay) : NativeRelay × List NativeSent :=
  let r := s.drainLoop rewriteAggregate lastSeq s.pending
  let flushed := r.1.flushSynth lastSeq
  (flushed.1, r.2 ++ flushed.2)

def releaseDrained (s : NativeRelay) :
    NativeRelay × Release NativeSent :=
  let r := s.drain rewriteAggregate lastSeq
  (r.1, .bytes r.2)

def blockedBy (s : NativeRelay) (reason : String) :
    NativeRelay × Release NativeSent :=
  ({ s with pending := [] }, .blocked reason)

def push (s : NativeRelay) (unscanned : Bool) (frame : NativeFrame)
    (answers : Answers) : NativeRelay × Release NativeSent :=
  match answers.refused unscanned with
  | some reason => s.blockedBy reason
  | none =>
      match frame.kind with
      | .text text place =>
          let s :=
            { s with
              lastText := place
              rawText := s.rawText ++ utf8 text
              pending := s.pending ++ [frame] }
          match answers.step with
          | .emit safe =>
              releaseDrained rewriteAggregate lastSeq { s with safeText := s.safeText ++ utf8 safe }
          | .block reason => s.blockedBy reason
      | _ =>
          releaseDrained rewriteAggregate lastSeq
            { s with pending := s.pending ++ [frame] }

def finish (s : NativeRelay) (step : GuardStep) : NativeRelay × Release NativeSent :=
  match step with
  | .emit safe =>
      releaseDrained rewriteAggregate lastSeq
        { s with
          safeText := s.safeText ++ utf8 safe
          finished := true }
  | .block reason => s.blockedBy reason

end Drain

end NativeRelay

end Tracelane.Native
