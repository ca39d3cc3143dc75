import Tracelane.Lib.Clearance
import Tracelane.Lib.Run
import Tracelane.Native.Relay

/-
  What a relay delivers when the guard rewrites nothing: every frame, as it came and where it stood.

  A guard that rewrites may emit less text than the provider sent.  Then a text frame can wait for
  text that never comes, and everything behind it waits with it.
-/

open Transition

namespace Tracelane.Native

open List
open Chat
open Clearance

--
-- Delivery
--

/- A frame as far as delivery goes. -/
inductive Piece where
| text (t : Bytes)
| other (raw : Bytes)
deriving DecidableEq

def Piece.text? : Piece → Bytes
| .text t => t
| .other _ => []

def Piece.other? : Piece → Option Bytes
| .text _ => none
| .other raw => some raw

def texts (pieces : List Piece) : Bytes :=
  pieces.flatMap Piece.text?

def others (pieces : List Piece) : List Bytes :=
  pieces.filterMap Piece.other?

/- A piece of text with the frames on both sides of it. -/
def standsIn (pieces before after : List Piece) : Prop :=
  ∃ before' t after',
    pieces = before' ++ Piece.text t :: after' ∧
      others before' = others before ∧
      others after' = others after

/-
  The text that was sent is all the guard emitted; the other frames were sent once each and in
  order; no text waits; and each piece of text stands between the frames it stood between upstream.
-/
structure Delivered (upstream sent pending : List Piece) (safeText : Bytes) : Prop where
  text : texts sent = safeText
  others : others sent = others upstream
  drained : ∀ p ∈ pending, ∃ raw, p = .other raw
  placed : ∀ before t after, sent = before ++ Piece.text t :: after → standsIn upstream before after

theorem delivered_verbatim (pieces : List Piece) :
    Delivered pieces pieces [] (texts pieces) where
  text := rfl
  others := rfl
  drained := by simp
  placed := fun before t after hEq =>
    ⟨before, t, after, hEq, rfl, rfl⟩

--
-- A Relay Driven To Its End
--

/- What is seen of either relay. -/
structure Machine (ρ φ α : Type) where
  push : ρ → Bool → φ → Answers → Nat → ρ × Release α
  finish : ρ → GuardStep → Nat → ρ × Release α
  drain : Nat → ρ → ρ × List α
  pending : ρ → List φ
  rawText : ρ → Bytes
  safeText : ρ → Bytes
  released : ρ → Nat
  /- Bytes of the safe text that were sent in any frame. -/
  shown : ρ → Nat
  rewriting : ρ → Bool
  piece : φ → Piece
  verbatim : φ → α
  sentPiece : α → Piece

structure Driven (ρ φ α : Type) where
  relay : ρ
  frames : List φ := []
  sent : List α := []
  closed : Bool := false
deriving DecidableEq

inductive Input (φ : Type) where
| push (unscanned : Bool) (frame : φ) (answers : Answers) (lastSeq : Nat)
| finish (answer : GuardStep) (lastSeq : Nat)
deriving DecidableEq

section Machine

variable {ρ φ α : Type} (M : Machine ρ φ α)

/- A step that the guard does not block. -/
def step (s : Driven ρ φ α) : Input φ → Option (Driven ρ φ α)
| .push unscanned frame answers lastSeq =>
    if s.closed then none
    else
      match M.push s.relay unscanned frame answers lastSeq with
      | (relay, .bytes out) =>
          some
            { relay
              frames := s.frames ++ [frame]
              sent := s.sent ++ out }
      | (_, .blocked _) => none
| .finish answer lastSeq =>
    if s.closed then none
    else
      match M.finish s.relay answer lastSeq with
      | (relay, .bytes out) =>
          some
            { s with
              relay
              sent := s.sent ++ out
              closed := true }
      | (_, .blocked _) => none

section Step

variable {M} {s : Driven ρ φ α} {relay : ρ} {out : List α}
variable {unscanned : Bool} {f : φ} {answers : Answers} {answer : GuardStep} {lastSeq : Nat}

theorem step_push (hClosed : s.closed = false)
    (hPush : M.push s.relay unscanned f answers lastSeq = (relay, .bytes out)) :
    step M s (.push unscanned f answers lastSeq) =
      some
        { relay
          frames := s.frames ++ [f]
          sent := s.sent ++ out } := by
  simp [step, hClosed, hPush]

theorem step_finish (hClosed : s.closed = false)
    (hFinish : M.finish s.relay answer lastSeq = (relay, .bytes out)) :
    step M s (.finish answer lastSeq) =
      some
        { s with
          relay
          sent := s.sent ++ out
          closed := true } := by
  simp [step, hClosed, hFinish]

end Step

/- What the guard's answers add to the safe text. -/
def emits (f : φ) (answers : Answers) : Bytes :=
  match M.piece f, answers.step with
  | .text _, .emit safe => utf8 safe
  | _, _ => []

def emitsAtEnd : GuardStep → Bytes
| .emit safe => utf8 safe
| .block _ => []

/-
  The guard has rewritten nothing: what it has emitted is how
  the text begins, and at the end all of it.
-/
def keepsText (s : Driven ρ φ α) : Input φ → Bool
| .push _ frame answers _ =>
    (M.safeText s.relay ++ emits M frame answers).isPrefixOf
      (M.rawText s.relay ++ (M.piece frame).text?)
| .finish answer _ =>
    M.safeText s.relay ++ emitsAtEnd answer == M.rawText s.relay

def upstream (s : Driven ρ φ α) : List Piece :=
  s.frames.map M.piece

def sentPieces (s : Driven ρ φ α) : List Piece :=
  s.sent.map M.sentPiece

def queued (s : Driven ρ φ α) : List Piece :=
  (M.pending s.relay).map M.piece

def size (f : φ) : Nat :=
  (M.piece f).text?.length

/- The frames of a queue that go out: those whose text is cleared. -/
def cleared (t : ρ) : List φ × List φ :=
  release (size M) (M.safeText t).length (M.released t) (M.pending t)

/- The state after they went out, and what was sent. -/
structure Cleared (t : ρ) (r : ρ × List α) : Prop where
  pending : M.pending r.1 = (cleared M t).2
  released : M.released r.1 = M.released t + total (size M) (cleared M t).1
  rawText : M.rawText r.1 = M.rawText t
  safeText : M.safeText r.1 = M.safeText t
  rewriting : M.rewriting r.1 = false
  out : r.2 = (cleared M t).1.map M.verbatim

/- Whether the guard blocks while this frame is pushed. -/
def blocks (unscanned : Bool) (f : φ) (answers : Answers) : Bool :=
  (answers.refused unscanned).isSome ||
    match M.piece f, answers.step with
    | .text _, .block _ => true
    | _, _ => false

/- What came in is queued, with the text the guard emitted, and nothing has gone out. -/
structure Joined (s t : ρ) (more : List φ) (safe : Bytes) : Prop where
  pending : M.pending t = M.pending s ++ more
  rawText : M.rawText t = M.rawText s ++ texts (more.map M.piece)
  safeText : M.safeText t = M.safeText s ++ safe
  released : M.released t = M.released s
  shown : M.shown t = M.shown s
  rewriting : M.rewriting t = M.rewriting s

/- Either the queue is drained, or the guard blocks. -/
def Leads (lastSeq : Nat) (s : ρ) (more : List φ) (safe : Bytes) (blocked : Prop) :
    ρ × Release α → Prop
| (s', .bytes out) =>
    ∃ t, Joined M s t more safe ∧ M.drain lastSeq t = (s', out)
| (s', .blocked _) => M.safeText s' = M.safeText s ∧ blocked

structure Drains : Prop where
  push :
    ∀ s unscanned f answers lastSeq,
      Leads M lastSeq s [f] (emits M f answers) (blocks M unscanned f answers = true)
        (M.push s unscanned f answers lastSeq)
  finish :
    ∀ s answer lastSeq,
      Leads M lastSeq s [] (emitsAtEnd answer) True (M.finish s answer lastSeq)

/-
  How a relay works while the guard rewrites nothing: frames
  go out as they came, as far as their text is cleared.
-/
structure Clears : Prop where
  drains : Drains M
  verbatim : ∀ f, M.sentPiece (M.verbatim f) = M.piece f
  cleared :
    ∀ lastSeq t,
      M.rewriting t = false →
      M.safeText t <+: M.rawText t →
      M.released t ≤ (M.safeText t).length →
      Cleared M t (M.drain lastSeq t)

/- Nothing rewritten so far. -/
structure Clean (s : Driven ρ φ α) : Prop where
  rewriting : M.rewriting s.relay = false
  agrees : M.safeText s.relay <+: M.rawText s.relay
  raw : M.rawText s.relay = texts (upstream M s)
  inOrder :
    ∃ gone, s.sent = gone.map M.verbatim ∧
      s.frames = gone ++ M.pending s.relay ∧
      M.released s.relay = total (size M) gone
  within : M.released s.relay ≤ (M.safeText s.relay).length
  whole : s.closed = true → M.safeText s.relay = M.rawText s.relay ∧ M.pending s.relay = []

variable {M} {s s' : Driven ρ φ α}

theorem length_texts (items : List φ) :
    (texts (items.map M.piece)).length = total (size M) items := by
  induction items with
  | nil => rfl
  | cons f rest ih =>
    rw [map_cons, texts, flatMap_cons, length_append, total_cons]
    exact congrArg (size M f + ·) ih

theorem Drains.pushed (hDrains : Drains M) {s : ρ} {unscanned : Bool} {f : φ} {answers : Answers}
    {lastSeq : Nat} {r : ρ × Release α} (hPush : M.push s unscanned f answers lastSeq = r) :
    Leads M lastSeq s [f] (emits M f answers) (blocks M unscanned f answers = true) r :=
  hPush ▸ hDrains.push s unscanned f answers lastSeq

theorem Drains.finished (hDrains : Drains M) {s : ρ} {answer : GuardStep} {lastSeq : Nat}
    {r : ρ × Release α} (hFinish : M.finish s answer lastSeq = r) :
    Leads M lastSeq s [] (emitsAtEnd answer) True r :=
  hFinish ▸ hDrains.finish s answer lastSeq

/- What came in is queued, and what is cleared goes out: nothing is rewritten still. -/
theorem clean_after (hClears : Clears M) (hClean : Clean M s) {t relay : ρ} {more : List φ}
    {safe : Bytes} {out : List α} {lastSeq : Nat} {closed : Bool}
    (hJoined : Joined M s.relay t more safe) (hDrain : M.drain lastSeq t = (relay, out))
    (hAgrees : M.safeText t <+: M.rawText t)
    (hWhole : closed = true → M.safeText t = M.rawText t) :
    Clean M
      { relay
        frames := s.frames ++ more
        sent := s.sent ++ out
        closed } := by
  rcases hClean.inOrder with ⟨gone, hSent, hFrames, hReleased⟩
  have hWithin : M.released t ≤ (M.safeText t).length := by
    rw [hJoined.released, hJoined.safeText, length_append]
    exact hClean.within.trans (Nat.le_add_right _ _)
  have hAfter :=
    hClears.cleared lastSeq t (hJoined.rewriting.trans hClean.rewriting) hAgrees hWithin
  rw [hDrain] at hAfter
  have hRaw : M.rawText t = texts ((s.frames ++ more).map M.piece) := by
    rw [hJoined.rawText, hClean.raw]
    simp [upstream, texts]
  have hJoin : (cleared M t).1 ++ (cleared M t).2 = M.pending t := release_append _
  constructor
  · exact hAfter.rewriting
  · rw [hAfter.safeText, hAfter.rawText]
    exact hAgrees
  · exact hAfter.rawText.trans hRaw
  · refine ⟨gone ++ (cleared M t).1, ?_, ?_, ?_⟩
    · rw [hSent, map_append]
      exact congrArg _ hAfter.out
    · rw [hFrames, hAfter.pending, append_assoc, append_assoc, hJoin, hJoined.pending]
    · rw [hAfter.released, hJoined.released, hReleased, total_append]
  · rw [hAfter.released, hAfter.safeText]
    exact released_le _ hWithin
  · intro hClosed
    have hSame := hWhole hClosed
    rw [hAfter.safeText, hAfter.rawText, hAfter.pending]
    refine ⟨hSame, release_all _ ?_⟩
    have hLen := length_texts (M := M) (s.frames ++ more)
    rw [← hRaw, ← hSame, hFrames, append_assoc, total_append, ← hReleased, ← hJoined.pending,
      ← hJoined.released] at hLen
    exact hLen.ge

theorem step_clean (hClears : Clears M) {i : Input φ}
    (hStep : step M s i = some s') (hKeeps : keepsText M s i = true) (hClean : Clean M s) :
    Clean M s' := by
  cases i with
  | push unscanned f answers lastSeq =>
    simp only [step] at hStep
    split at hStep
    · cases hStep
    · split at hStep <;> cases hStep
      rename_i relay out hPush
      rcases hClears.drains.pushed hPush with ⟨t, hJoined, hDrain⟩
      refine clean_after hClears hClean hJoined hDrain ?_ (by simp)
      rw [hJoined.safeText, hJoined.rawText]
      simpa [texts] using isPrefixOf_iff_prefix.mp hKeeps
  | finish answer lastSeq =>
    simp only [step] at hStep
    split at hStep
    · cases hStep
    · split at hStep <;> cases hStep
      rename_i relay out hFinish
      rcases hClears.drains.finished hFinish with ⟨t, hJoined, hDrain⟩
      have hSame : M.safeText t = M.rawText t := by
        rw [hJoined.safeText, hJoined.rawText]
        simpa [texts] using eq_of_beq hKeeps
      have hNext :=
        clean_after hClears hClean hJoined hDrain (hSame ▸ prefix_rfl)
          (fun _ : true = true => hSame)
      rw [append_nil] at hNext
      exact hNext

/- At the end of such a run all is delivered. -/
theorem delivered_of_clean (hClears : Clears M) (hClean : Clean M s) (hClosed : s.closed = true) :
    Delivered (upstream M s) (sentPieces M s) (queued M s) (M.safeText s.relay) := by
  rcases hClean.inOrder with ⟨gone, hSent, hFrames, _⟩
  rcases hClean.whole hClosed with ⟨hSame, hNone⟩
  rw [hNone, append_nil] at hFrames
  have hPieces : sentPieces M s = upstream M s := by
    unfold sentPieces upstream
    rw [hSent, hFrames, map_map]
    exact map_congr_left (fun f _ => hClears.verbatim f)
  unfold queued
  rw [hPieces, hNone, hSame, hClean.raw]
  exact delivered_verbatim _

end Machine

--
-- The Two Relays
--

def Frame.piece (f : Frame) : Piece :=
  match f.text with
  | some text => .text (utf8 text)
  | none => .other f.raw

def Sent.piece : Sent → Piece
| .frame f => f.piece
| .synth _ text => .text text

def Relay.shown (s : Relay) : Nat :=
  if s.rewriting then s.synthesised else s.released

/- The relay of the Anthropic and the Gemini wire. -/
def relayMachine : Machine Relay Frame Sent where
  push := fun s unscanned f answers _ => s.push unscanned f answers
  finish := fun s answer _ => s.finish answer
  drain := fun _ s => s.drain
  pending := Relay.pending
  rawText := Relay.rawText
  safeText := Relay.safeText
  released := Relay.released
  shown := Relay.shown
  rewriting := Relay.rewriting
  piece := Frame.piece
  verbatim := .frame
  sentPiece := Sent.piece

/- Text that agrees so far agrees between any two offsets. -/
theorem between_eq_of_agrees {safeText rawText : Bytes}
    (hAgrees : safeText <+: rawText) {first last : Nat} (hWithin : last ≤ safeText.length) :
    between safeText first last = between rawText first last := by
  rcases hAgrees with ⟨rest, rfl⟩
  unfold between
  rw [take_append_of_le_length hWithin]

theorem Relay.drainLoop_clean (s : Relay) (frames : List Frame)
    (hRewriting : s.rewriting = false) (hAgrees : s.safeText <+: s.rawText)
    (hWithin : s.released ≤ s.safeText.length) :
    let r := release (size relayMachine) s.safeText.length s.released frames
    s.drainLoop frames =
      ({ s with
          released := s.released + total (size relayMachine) r.1
          pending := r.2 },
        r.1.map .frame) := by
  induction frames generalizing s with
  | nil => rfl
  | cons f rest ih =>
    cases hText : f.text with
    | none =>
      have hSize : size relayMachine f = 0 := by
        simp [size, relayMachine, Frame.piece, hText, Piece.text?]
      simp only [drainLoop, hText, release, hSize, Nat.add_zero, hWithin, if_true,
        ih s hRewriting hAgrees hWithin]
      simp [hSize]
    | some text =>
      have hSize : size relayMachine f = (utf8 text).length := by
        simp [size, relayMachine, Frame.piece, hText, Piece.text?]
      simp only [drainLoop, hText, release, hSize]
      rw [if_neg (by simp [hRewriting])]
      by_cases hFits : s.released + (utf8 text).length ≤ s.safeText.length
      · rw [if_neg (Nat.not_lt.mpr hFits), if_pos (between_eq_of_agrees hAgrees hFits),
          if_pos hFits,
          ih { s with
            released := s.released + (utf8 text).length }
            hRewriting hAgrees hFits]
        rw [total_cons, hSize, ← Nat.add_assoc]
        rfl
      · rw [if_pos (Nat.not_le.mp hFits), if_neg hFits]
        rfl

theorem Relay.drain_clean (s : Relay) (hRewriting : s.rewriting = false)
    (hAgrees : s.safeText <+: s.rawText) (hWithin : s.released ≤ s.safeText.length) :
    s.drain = s.drainLoop s.pending := by
  unfold drain
  rw [s.drainLoop_clean s.pending hRewriting hAgrees hWithin]
  simp [hRewriting]

theorem relay_drains :
    Drains relayMachine where
  push := by
    intro s unscanned f answers lastSeq
    change Leads _ _ _ _ _ _ (s.push unscanned f answers)
    unfold Relay.push
    cases hRefused : answers.refused unscanned with
    | some reason => exact ⟨rfl, by simp [blocks, hRefused]⟩
    | none =>
      cases hText : f.text with
      | none =>
        have hPiece : f.piece = .other f.raw := by simp [Frame.piece, hText]
        refine ⟨_, ?_, rfl⟩
        refine ⟨rfl, ?_, ?_, rfl, rfl, rfl⟩
        · simp [hPiece, texts, Piece.text?, relayMachine]
        · simp [hPiece, emits, relayMachine]
      | some text =>
        have hPiece : f.piece = .text (utf8 text) := by simp [Frame.piece, hText]
        cases hStep : answers.step with
        | block reason => exact ⟨rfl, by simp [blocks, relayMachine, hPiece, hStep]⟩
        | emit safe =>
          refine ⟨_, ?_, rfl⟩
          refine ⟨rfl, ?_, ?_, rfl, rfl, rfl⟩
          · simp [hPiece, texts, Piece.text?, relayMachine]
          · simp [hPiece, hStep, emits, relayMachine]
  finish := by
    intro s answer lastSeq
    change Leads _ _ _ _ _ _ (s.finish answer)
    cases answer with
    | block reason => exact ⟨rfl, trivial⟩
    | emit safe =>
      refine ⟨_, ?_, rfl⟩
      exact ⟨(append_nil _).symm, (append_nil _).symm, rfl, rfl, rfl, rfl⟩

theorem relay_clears :
    Clears relayMachine where
  drains := relay_drains
  verbatim := fun _ => rfl
  cleared := by
    intro _ t hRewriting hAgrees hWithin
    change Cleared relayMachine t t.drain
    rw [t.drain_clean hRewriting hAgrees hWithin,
      t.drainLoop_clean t.pending hRewriting hAgrees hWithin]
    exact ⟨rfl, rfl, rfl, rfl, hRewriting, rfl⟩

--
-- The Responses Relay
--

def NativeFrame.piece (f : NativeFrame) : Piece :=
  match f.kind with
  | .text text _ => .text (utf8 text)
  | _ => .other f.raw

def NativeSent.piece : NativeSent → Piece
| .frame f => f.piece
| .synth _ text _ => .text text
| .rewritten f _ => f.piece

def NativeRelay.shown (s : NativeRelay) : Nat :=
  if s.rewriting then s.synthesised else s.released

section Responses

variable (rewriteAggregate : Bytes → Emitted → Option Bytes)

def nativeMachine :
    Machine NativeRelay NativeFrame NativeSent where
  push := fun s unscanned f answers lastSeq => s.push rewriteAggregate lastSeq unscanned f answers
  finish := fun s answer lastSeq => s.finish rewriteAggregate lastSeq answer
  drain := fun lastSeq s => s.drain rewriteAggregate lastSeq
  pending := NativeRelay.pending
  rawText := NativeRelay.rawText
  safeText := NativeRelay.safeText
  released := NativeRelay.released
  shown := NativeRelay.shown
  rewriting := NativeRelay.rewriting
  piece := NativeFrame.piece
  verbatim := .frame
  sentPiece := NativeSent.piece

variable {rewriteAggregate} {lastSeq : Nat}

theorem NativeRelay.flushSynth_clean {s : NativeRelay} (hRewriting : s.rewriting = false) :
    s.flushSynth lastSeq = (s, []) := by
  simp [flushSynth, hRewriting]

/- Up to the text kept for rewritten aggregates. -/
theorem NativeRelay.drainLoop_clean (s : NativeRelay) (frames : List NativeFrame)
    (hRewriting : s.rewriting = false) (hAgrees : s.safeText <+: s.rawText)
    (hWithin : s.released ≤ s.safeText.length) :
    let r := release (size (nativeMachine rewriteAggregate)) s.safeText.length s.released frames
    ∃ emitted,
      s.drainLoop rewriteAggregate lastSeq frames =
        ({ s with
            released := s.released + total (size (nativeMachine rewriteAggregate)) r.1
            pending := r.2
            emitted },
          r.1.map .frame) := by
  induction frames generalizing s with
  | nil => exact ⟨s.emitted, rfl⟩
  | cons f rest ih =>
    cases hKind : f.kind with
    | other =>
      have hSize : size (nativeMachine rewriteAggregate) f = 0 := by
        simp [size, nativeMachine, NativeFrame.piece, hKind, Piece.text?]
      rcases ih s hRewriting hAgrees hWithin with ⟨emitted, hRest⟩
      refine ⟨emitted, ?_⟩
      simp only [drainLoop, hKind, flushSynth_clean hRewriting,
        release, hSize, Nat.add_zero, hWithin, if_true, hRest]
      simp [hSize]
    | aggregate =>
      have hSize : size (nativeMachine rewriteAggregate) f = 0 := by
        simp [size, nativeMachine, NativeFrame.piece, hKind, Piece.text?]
      rcases ih s hRewriting hAgrees hWithin with ⟨emitted, hRest⟩
      refine ⟨emitted, ?_⟩
      simp only [drainLoop, hKind, release, hSize, Nat.add_zero, hWithin, if_true]
      rw [if_pos (by simp [hRewriting]), hRest]
      simp [hSize]
    | text text place =>
      have hSize : size (nativeMachine rewriteAggregate) f = (utf8 text).length := by
        simp [size, nativeMachine, NativeFrame.piece, hKind, Piece.text?]
      simp only [drainLoop, hKind, release, hSize]
      rw [if_neg (by simp [hRewriting])]
      by_cases hFits : s.released + (utf8 text).length ≤ s.safeText.length
      · rcases ih
            { s with
              released := s.released + (utf8 text).length
              emitted := s.emitted.push place.itemId (utf8 text) }
            hRewriting hAgrees hFits with
          ⟨emitted, hRest⟩
        refine ⟨emitted, ?_⟩
        rw [if_neg (Nat.not_lt.mpr hFits), if_pos (between_eq_of_agrees hAgrees hFits),
          if_pos hFits, hRest]
        rw [total_cons, hSize, ← Nat.add_assoc]
        rfl
      · refine ⟨s.emitted, ?_⟩
        rw [if_pos (Nat.not_le.mp hFits), if_neg hFits]
        rfl

theorem native_drains :
    Drains (nativeMachine rewriteAggregate) where
  push := by
    intro s unscanned f answers lastSeq
    change Leads _ _ _ _ _ _ (s.push rewriteAggregate lastSeq unscanned f answers)
    unfold NativeRelay.push
    cases hRefused : answers.refused unscanned with
    | some reason => exact ⟨rfl, by simp [blocks, hRefused]⟩
    | none =>
      cases hKind : f.kind with
      | text text place =>
        have hPiece : f.piece = .text (utf8 text) := by simp [NativeFrame.piece, hKind]
        cases hStep : answers.step with
        | block reason => exact ⟨rfl, by simp [blocks, nativeMachine, hPiece, hStep]⟩
        | emit safe =>
          refine ⟨_, ?_, rfl⟩
          refine ⟨rfl, ?_, ?_, rfl, rfl, rfl⟩
          · simp [hPiece, texts, Piece.text?, nativeMachine]
          · simp [hPiece, hStep, emits, nativeMachine]
      | _ =>
        have hPiece : f.piece = .other f.raw := by simp [NativeFrame.piece, hKind]
        refine ⟨_, ?_, rfl⟩
        refine ⟨rfl, ?_, ?_, rfl, rfl, rfl⟩
        · simp [hPiece, texts, Piece.text?, nativeMachine]
        · simp [hPiece, emits, nativeMachine]
  finish := by
    intro s answer lastSeq
    change Leads _ _ _ _ _ _ (s.finish rewriteAggregate lastSeq answer)
    cases answer with
    | block reason => exact ⟨rfl, trivial⟩
    | emit safe =>
      refine ⟨_, ?_, rfl⟩
      exact ⟨(append_nil _).symm, (append_nil _).symm, rfl, rfl, rfl, rfl⟩

theorem native_clears :
    Clears (nativeMachine rewriteAggregate) where
  drains := native_drains
  verbatim := fun _ => rfl
  cleared := by
    intro lastSeq t hRewriting hAgrees hWithin
    rcases t.drainLoop_clean t.pending hRewriting hAgrees hWithin with ⟨emitted, hLoop⟩
    change Cleared _ t (t.drain rewriteAggregate lastSeq)
    rw [NativeRelay.drain, hLoop, NativeRelay.flushSynth_clean (by exact hRewriting), append_nil]
    exact ⟨rfl, rfl, rfl, rfl, hRewriting, rfl⟩

end Responses

--
-- Runs
--

theorem run_clean {ρ φ α : Type} {M : Machine ρ φ α} (hClears : Clears M)
    {s s' : Driven ρ φ α} {trace : List (Input φ)} (hClean : Clean M s)
    (hRun : Run (fun s i s' => keepsText M s i = true ∧ step M s i = some s') s trace s') :
    Clean M s' :=
  hRun.invariant (fun _ _ _ hBefore hStep => step_clean hClears hStep.2 hStep.1 hBefore) hClean

theorem clean_new {ρ φ α : Type} {M : Machine ρ φ α} {relay : ρ}
    (hRewriting : M.rewriting relay = false) (hRaw : M.rawText relay = [])
    (hSafe : M.safeText relay = []) (hPending : M.pending relay = [])
    (hReleased : M.released relay = 0) :
    Clean M { relay } where
  rewriting := hRewriting
  agrees := by simp [hSafe]
  raw := hRaw
  inOrder := ⟨[], rfl, hPending.symm, hReleased⟩
  within := by simp [hReleased]
  whole := by simp

/-
  Whatever is pushed, and whatever the guard holds back: if it rewrites nothing, all is delivered.
-/
theorem relay_delivers (rewriteAggregate : Bytes → Emitted → Option Bytes) :
    (∀ (trace : List (Input Frame)) s,
      Run (fun s i s' => keepsText relayMachine s i = true ∧ step relayMachine s i = some s')
          { relay := {} } trace s →
        s.closed = true →
        Delivered (upstream relayMachine s) (sentPieces relayMachine s) (queued relayMachine s)
          s.relay.safeText) ∧
    (∀ (trace : List (Input NativeFrame)) s,
      Run
          (fun s i s' =>
            keepsText (nativeMachine rewriteAggregate) s i = true ∧
              step (nativeMachine rewriteAggregate) s i = some s')
          { relay := {} } trace s →
        s.closed = true →
        Delivered (upstream (nativeMachine rewriteAggregate) s)
          (sentPieces (nativeMachine rewriteAggregate) s)
          (queued (nativeMachine rewriteAggregate) s)
          s.relay.safeText) := by
  refine ⟨?_, ?_⟩
  · intro trace s hRun hClosed
    have hNew : Clean relayMachine { relay := {} } := clean_new rfl rfl rfl rfl rfl
    exact delivered_of_clean relay_clears (run_clean relay_clears hNew hRun) hClosed
  · intro trace s hRun hClosed
    have hNew : Clean (nativeMachine rewriteAggregate) { relay := {} } :=
      clean_new rfl rfl rfl rfl rfl
    exact delivered_of_clean native_clears (run_clean native_clears hNew hRun) hClosed

/- A secret, and the stop frame of its block. -/
def secretFrame : Frame :=
  ⟨utf8 "data: secret\n\n", some "secret", 0⟩

def stopFrame : Frame :=
  ⟨utf8 "data: stop\n\n", none, 0⟩

/- The guard holds the text back and at the end lets this go. -/
def heldBack (safe : String) : List (Input Frame) :=
  [.push false secretFrame {} 0, .push false stopFrame {} 0, .finish (.emit safe) 0]

/- A redaction shorter than the secret is never sent, and the stop frame is not either. -/
theorem shorter_undelivered :
    ∃ s,
      Run (fun s i s' => step relayMachine s i = some s') { relay := {} } (heldBack "***") s ∧
        s.closed = true ∧
        s.sent = [] ∧
        ¬ Delivered (upstream relayMachine s)
            (sentPieces relayMachine s) (queued relayMachine s)
            s.relay.safeText := by
  have hFold :
      ((heldBack "***").foldlM (step relayMachine)
          { relay := {} }).map
          (fun s => (s.closed, s.sent, s.relay.safeText)) =
        some (true, [], utf8 "***") := by
    decide
  rcases Option.map_eq_some_iff.mp hFold with ⟨s, hSome, hSeen⟩
  simp only [Prod.mk.injEq] at hSeen
  rcases hSeen with ⟨hClosed, hSent, hSafe⟩
  refine ⟨s, .of_foldlM hSome, hClosed, hSent, ?_⟩
  intro hDelivered
  have hText := hDelivered.text
  rw [sentPieces, hSent, hSafe] at hText
  exact absurd hText (by decide)

theorem unchanged_delivered :
    ∃ s,
      Run
          (fun s i s' => keepsText relayMachine s i = true ∧ step relayMachine s i = some s')
          { relay := {} } (heldBack "secret") s ∧
        s.closed = true ∧
        Delivered (upstream relayMachine s)
          (sentPieces relayMachine s) (queued relayMachine s)
          s.relay.safeText :=
  Run.exists_and (Run.eval_guard (by decide)) (fun s hRun hClosed =>
    (relay_delivers (fun _ _ => none)).1 _ s hRun hClosed)

end Tracelane.Native
