import Tracelane.Native.Stream

/-
  What the native streams owe the guard.

  While it rewrites nothing the client gets what the provider sent.  What a client reads is a
  beginning of what the guard emitted, if the provider's frames read the same to both.  A block ends
  the stream with one event, and the span says so, except where the unterminated last frame is
  blocked: two of the wires do not look at the relay's answer there.
-/

open Transition

namespace Tracelane.Native

open List
open Chat Native.Stream

section Wire

variable {ρ φ α : Type} (W : Wire ρ φ α)

--
-- Conditions
--

namespace Stream

/- The relay of a stream, as it is driven. -/
def driven (s : Stream ρ φ α) : Driven ρ φ α where
  relay := s.relay
  frames := s.frames
  sent := s.relayed
  closed := s.phase = .closed

end Stream

/- The guard has rewritten nothing. -/
def keepsTextAt (s : Stream ρ φ α) : Event → Bool
| .frame answers =>
    match splitFrame s.buf with
    | some (raw, _) =>
        keepsText W.machine s.driven
          (.push (W.unscanned s.relay (W.classify raw)) (W.classify raw) answers s.lastSeq)
    | none => true
| .trailing answers =>
    keepsText W.machine s.driven
      (.push (W.unscanned s.relay (W.classify s.buf)) (W.classify s.buf) answers s.lastSeq)
| .finish answer =>
    keepsText W.machine s.driven (.finish answer s.lastSeq)
| _ => true

/-
  A client reads from each frame the event the gateway read,
  and the upstream does not end within a frame.
-/
def tidyAt (s : Stream ρ φ α) : Event → Bool
| .frame _ =>
    match splitFrame s.buf with
    | some (raw, _) => tidy raw
    | none => true
| .trailing _ => false
| _ => true

/- No block at the unterminated last frame goes unheard. -/
def heardAt (s : Stream ρ φ α) : Event → Bool
| .trailing answers =>
    W.hearsTrailing ||
      !blocks W.machine (W.unscanned s.relay (W.classify s.buf)) (W.classify s.buf) answers
| _ => true

structure Wire.Lawful : Prop where
  clears : Clears W.machine
  fresh : Clean W.machine { relay := W.new }
  raw : ∀ b, W.raw (W.classify b) = b
  verbatim : ∀ f, W.render (W.machine.verbatim f) = W.raw f

/- A frame that was read as the client reads it. -/
def readable (f : φ) : Prop :=
  ∃ raw, f = W.classify raw ∧ tidy raw = true

/- What is sent is read as what it is. -/
structure Wire.Tells (codec : Codec) (own : (φ → Prop) → Nat → α → Prop) : Prop where
  truthful : Truthful W.machine own
  fresh : AlignedAt W.machine W.new []
  waiting : W.machine.pending W.new = []
  relayed :
    ∀ a size, own (readable W) size a → size < 2 ^ 63 →
      Told codec W.wireText (W.render a) (W.machine.sentPiece a).text?
  block : ∀ id reason seq, Told codec W.wireText (W.blockEvent id reason seq) []
  timeout : ∀ id timeout seq, Told codec W.wireText (W.timeoutEvent id timeout seq) []

variable {W} {s s' : Stream ρ φ α} {e : Event}

--
-- Nothing Rewritten
--

def Out.isTimeout : Out α → Bool
| .timeout _ => true
| _ => false

/- The stream was not left to run to its end. -/
def Stream.stopped (s : Stream ρ φ α) : Bool :=
  s.guardBlocked || s.sent.any Out.isTimeout

/- Frames go out as they came, and none is lost. -/
structure Whole (W : Wire ρ φ α) (s : Stream ρ φ α) : Prop where
  going : s.stopped = false → Clean W.machine s.driven ∧ s.sent = s.relayed.map .relayed
  received : s.received = s.frames.flatMap W.raw ++ s.buf
  ended : s.phase = .closed → s.stopped = false → s.buf = []

theorem filterMap_relayed (sent : List (Out α)) (out : List α) :
    (sent ++ out.map Out.relayed).filterMap Out.relayed? = sent.filterMap Out.relayed? ++ out := by
  rw [filterMap_append, filterMap_map]
  exact congrArg (_ ++ ·) filterMap_some

section

variable (hLawful : W.Lawful)
include hLawful

theorem pushFrame_whole {hears : Bool} {raw rest : Bytes} {answers : Answers} (hWhole : Whole W s)
    (hOpen : s.phase ≠ .closed) (hBuf : raw ++ rest = s.buf)
    (hKeeps :
      keepsText W.machine s.driven
        (.push (W.unscanned s.relay (W.classify raw)) (W.classify raw) answers s.lastSeq) = true)
    (hPush :
      Stream.pushFrame W hears (Stream.observe W { s with buf := rest } raw)
          (W.classify raw) answers =
        some s') :
    Whole W s' := by
  have hReceived : s.received = (s.frames ++ [W.classify raw]).flatMap W.raw ++ rest := by
    rw [hWhole.received, ← hBuf]
    simp [hLawful.raw]
  rcases pushFrame_cases hPush with
    ⟨relay, out, hResult, _, rfl⟩ |
    ⟨relay, reason, hResult, ⟨_, rfl⟩ | ⟨_, rfl⟩⟩
  · refine ⟨?_, hReceived, ?_⟩
    · intro hGoing
      have hBefore : s.stopped = false := by
        simpa [stopped, observe, Out.isTimeout] using hGoing
      have hClosed : s.driven.closed = false := decide_eq_false hOpen
      have hStep :
          step W.machine s.driven
              (.push (W.unscanned s.relay (W.classify raw))
                (W.classify raw) answers
                (W.nextSeq s.lastSeq raw)) =
            some
              { relay
                frames := s.frames ++ [W.classify raw]
                sent := s.relayed ++ out } := by
        change W.machine.push s.driven.relay _ _ _ _ = _ at hResult
        exact step_push hClosed hResult
      rcases hWhole.going hBefore with ⟨hClean, hSent⟩
      have hNext := step_clean hLawful.clears hStep hKeeps hClean
      simp only [driven, observe, relayed, filterMap_relayed, hOpen, decide_false]
      refine ⟨hNext, ?_⟩
      rw [map_append]
      exact congrArg (· ++ _) hSent
    · intro hClosed
      exact absurd hClosed hOpen
  · refine ⟨?_, hReceived, ?_⟩
    · intro hGoing
      cases hGoing
    · intro _ hGoing
      cases hGoing
  · refine ⟨?_, hReceived, ?_⟩
    · intro hGoing
      cases hGoing
    · intro _ hGoing
      cases hGoing

theorem finishRelay_whole {answer : GuardStep}
    (hWhole : Whole W s) (hOpen : s.phase ≠ .closed) (hBuf : s.buf = [])
    (hKeeps : keepsText W.machine s.driven (.finish answer s.lastSeq) = true)
    (hFinish : Stream.finishRelay W s answer = some s') :
    Whole W s' := by
  rcases finishRelay_cases hFinish with ⟨relay, out, hResult, _, rfl⟩ | ⟨relay, reason, _, rfl⟩
  · refine ⟨?_, hWhole.received, fun _ _ => hBuf⟩
    intro hGoing
    have hBefore : s.stopped = false := by
      simpa [stopped, close, Out.isTimeout] using hGoing
    have hClosed : s.driven.closed = false := decide_eq_false hOpen
    rcases hWhole.going hBefore with ⟨hClean, hSent⟩
    have hNext := step_clean hLawful.clears (step_finish hClosed hResult) hKeeps hClean
    simp only [driven, close, relayed, filterMap_relayed, decide_true]
    refine ⟨hNext, ?_⟩
    rw [map_append]
    exact congrArg (· ++ _) hSent
  · refine ⟨?_, hWhole.received, fun _ _ => hBuf⟩
    intro hGoing
    cases hGoing

theorem step_whole (hKeeps : keepsTextAt W s e = true)
    (hStep : s.step W e = some s') (hWhole : Whole W s) :
    Whole W s' := by
  cases steps_of_step hStep with
  | chunk b hPhase =>
    refine ⟨hWhole.going, ?_, ?_⟩
    · rw [hWhole.received, append_assoc]
    · intro hClosed
      rw [hPhase] at hClosed
      cases hClosed
  | frame hPhase hSplit hPush =>
    simp only [keepsTextAt, hSplit] at hKeeps
    exact pushFrame_whole hLawful hWhole (by simp [hPhase]) (splitFrame_append hSplit) hKeeps hPush
  | fails timeout hPhase =>
    cases timeout with
    | some timeout =>
      refine ⟨?_, hWhole.received, ?_⟩
      · intro hGoing
        simp [stopped, upstreamFails, close, Out.isTimeout] at hGoing
      · intro _ hGoing
        simp [stopped, upstreamFails, close, Out.isTimeout] at hGoing
    | none =>
      refine ⟨?_, hWhole.received, fun hClosed => ?_⟩
      · simpa [upstreamFails, driven, relayed, stopped, hPhase] using hWhole.going
      · cases hClosed
  | theEnd hPhase =>
    refine ⟨?_, hWhole.received, fun hClosed => ?_⟩
    · simpa [driven, relayed, stopped, hPhase] using hWhole.going
    · cases hClosed
  | trailing hPhase hPush =>
    exact pushFrame_whole hLawful hWhole (by simp [hPhase]) (append_nil _) hKeeps hPush
  | finish hPhase hBuf hFinish =>
    exact finishRelay_whole hLawful hWhole (by simp [hPhase]) hBuf hKeeps hFinish

/- At the end the client has what the provider sent. -/
theorem sentBytes_of_whole (hWhole : Whole W s)
    (hClosed : s.phase = .closed) (hGoing : s.stopped = false) :
    s.sentBytes W = s.received := by
  rcases hWhole.going hGoing with ⟨hClean, hSent⟩
  rcases hClean.inOrder with ⟨gone, hGone, hFrames, _⟩
  rcases hClean.whole (decide_eq_true hClosed) with ⟨_, hNone⟩
  rw [hNone, append_nil] at hFrames
  have hBytes : s.sentBytes W = gone.flatMap W.raw := by
    have hRelayed : s.relayed = gone.map W.machine.verbatim := hGone
    unfold sentBytes
    rw [hSent, hRelayed, map_map, flatMap_map]
    exact flatMap_congr (fun f _ => hLawful.verbatim f)
  have hReceived := hWhole.received
  rw [hWhole.ended hClosed hGoing, append_nil] at hReceived
  rw [hBytes, hReceived]
  exact congrArg _ hFrames.symm

--
-- What A Client Reads
--

end

/- The client reads a beginning of what the guard emitted. -/
structure Telling (W : Wire ρ φ α) (codec : Codec) (s : Stream ρ φ α) : Prop where
  told : Told codec W.wireText (s.sentBytes W) (sentText W.machine s.relayed)
  begins : sentText W.machine s.relayed <+: W.machine.safeText s.relay
  going :
    s.phase ≠ .closed →
      AlignedAt W.machine s.relay (sentText W.machine s.relayed) ∧
        ∀ f ∈ W.machine.pending s.relay, readable W f

variable {codec : Codec} {own : (φ → Prop) → Nat → α → Prop}

theorem told_relayed (hTells : W.Tells codec own) {size : Nat}
    (hSize : size < 2 ^ 63) (out : List α) (hOwn : ∀ a ∈ out, own (readable W) size a) :
    Told codec W.wireText (out.flatMap W.render) (sentText W.machine out) := by
  induction out with
  | nil => exact told_nil
  | cons a rest ih =>
    have hFirst := hTells.relayed a size (hOwn a mem_cons_self) hSize
    have hRest := ih (fun b hMem => hOwn b (mem_cons_of_mem a hMem))
    exact told_append hFirst hRest

/- The bytes of what is sent next. -/
theorem bytes_relayed (sent : List (Out α)) (out : List α) :
    (sent ++ out.map Out.relayed).flatMap (Out.bytes W) =
      sent.flatMap (Out.bytes W) ++ out.flatMap W.render := by
  rw [flatMap_append, flatMap_map]
  rfl

/- An event of our own that says nothing. -/
theorem telling_silent {o : Out α} (hTelling : Telling W codec s)
    (hSilent : Told codec W.wireText (o.bytes W) [])
    (hOther : o.relayed? = none) (hSent : s'.sent = s.sent ++ [o])
    (hSafe : W.machine.safeText s'.relay = W.machine.safeText s.relay)
    (hClosed : s'.phase = .closed) :
    Telling W codec s' := by
  have hRelayed : s'.relayed = s.relayed := by simp [relayed, hSent, hOther]
  refine ⟨?_, ?_, fun hOpen => absurd hClosed hOpen⟩
  · have hNext := told_append hTelling.told hSilent
    rw [append_nil] at hNext
    rw [hRelayed]
    simpa [sentBytes, hSent] using hNext
  · rw [hRelayed, hSafe]
    exact hTelling.begins

/- What the relay sends next is the guard's next text. -/
theorem telling_relayed (hTells : W.Tells codec own)
    {out : List α} (hTelling : Telling W codec s)
    (hGoes :
      Goes W.machine (readable W) (own (readable W) (W.machine.safeText s'.relay).length)
        (W.machine.safeText s'.relay) (sentText W.machine s.relayed) (s'.relay, out))
    (hFits : (W.machine.safeText s'.relay).length < 2 ^ 63)
    (hSent : s'.sent = s.sent ++ out.map .relayed) :
    Telling W codec s' := by
  have hText :
      sentText W.machine s'.relayed = sentText W.machine s.relayed ++ sentText W.machine out := by
    rw [relayed, hSent, filterMap_relayed]
    simp [relayed, sentText, texts]
  have hAligned := hGoes.aligned
  rw [← hText] at hAligned
  refine ⟨?_, hAligned.begins, fun _ => ⟨hAligned, hGoes.good⟩⟩
  rw [hText, sentBytes, hSent, bytes_relayed]
  exact told_append hTelling.told (told_relayed hTells hFits out hGoes.own)

theorem step_telling (hTells : W.Tells codec own) (hTidy : tidyAt s e = true)
    (hStep : s.step W e = some s') (hTelling : Telling W codec s) :
    Telling W codec s' := by
  cases steps_of_step hStep with
  | chunk b hPhase =>
    exact ⟨hTelling.told, hTelling.begins, hTelling.going⟩
  | frame hPhase hSplit hPush =>
    rename_i answers raw rest
    simp only [tidyAt, hSplit] at hTidy
    have hGoing : s.phase ≠ .closed := by simp [hPhase]
    rcases hTelling.going hGoing with ⟨hAligned, hPending⟩
    rcases pushFrame_cases hPush with
      ⟨relay, out, hResult, hFits, rfl⟩ |
      ⟨relay, reason, hResult, ⟨_, rfl⟩ | ⟨hDeaf, _⟩⟩
    · rcases hTells.truthful.drains.pushed hResult with ⟨t, hJoined, hDrain⟩
      exact telling_relayed hTells hTelling
        (hTells.truthful.joined hJoined hDrain hAligned hPending
          (forall_mem_singleton.mpr ⟨raw, rfl, hTidy⟩) (emits_utf8 _ _ _))
        hFits rfl
    · exact telling_silent (o := .block _ _) hTelling (hTells.block _ _ _) rfl rfl
        (hTells.truthful.drains.pushed hResult).1 rfl
    · cases hDeaf
  | fails timeout hPhase =>
    cases timeout with
    | some timeout =>
      exact telling_silent (o := .timeout _) hTelling (hTells.timeout _ _ _) rfl rfl rfl rfl
    | none =>
      have hGoing : s.phase ≠ .closed := by simp [hPhase]
      exact ⟨hTelling.told, hTelling.begins, fun _ => hTelling.going hGoing⟩
  | theEnd hPhase =>
    have hGoing : s.phase ≠ .closed := by simp [hPhase]
    exact ⟨hTelling.told, hTelling.begins, fun _ => hTelling.going hGoing⟩
  | trailing hPhase hPush => cases hTidy
  | finish hPhase hBuf hFinish =>
    rename_i answer
    have hGoing : s.phase ≠ .closed := by simp [hPhase]
    rcases hTelling.going hGoing with ⟨hAligned, hPending⟩
    rcases finishRelay_cases hFinish with
      ⟨relay, out, hResult, hFits, rfl⟩ |
      ⟨relay, reason, hResult, rfl⟩
    · rcases hTells.truthful.drains.finished hResult with ⟨t, hJoined, hDrain⟩
      exact telling_relayed hTells hTelling
        (hTells.truthful.joined hJoined hDrain hAligned hPending (forall_mem_nil _)
          (emitsAtEnd_utf8 answer))
        hFits rfl
    · exact telling_silent (o := .block _ _) hTelling (hTells.block _ _ _) rfl rfl
        (hTells.truthful.drains.finished hResult).1 rfl

/- What a client reads in such a state. -/
theorem clientText_of_telling (hTelling : Telling W codec s) :
    s.clientText W codec <+: W.machine.safeText s.relay := by
  rcases hTelling.told with ⟨events, hRead, hText⟩
  have hClient : s.clientText W codec = sentText W.machine s.relayed := by
    rw [clientText, hRead, hText]
  rw [hClient]
  exact hTelling.begins

--
-- Blocks
--

/- One block event, and nothing after it. -/
structure Blocked (s : Stream ρ φ α) : Prop where
  closed : s.phase = .closed
  event : ∃ before reason b, s.sent = before ++ [.block reason b] ∧ ∀ o ∈ before, o.isBlock = false
  recorded : s.recorded = some (some "guardrail_block")

structure Halted (s : Stream ρ φ α) : Prop where
  blocked : s.guardBlocked = true → Blocked s
  going : s.guardBlocked = false → ∀ o ∈ s.sent, o.isBlock = false

theorem Halted.unblocked (hHalted : Halted s) (hOpen : s.phase ≠ .closed) :
    s.guardBlocked = false := by
  by_contra hBlocked
  rw [Bool.not_eq_false] at hBlocked
  exact hOpen (hHalted.blocked hBlocked).closed

theorem halted_of_sent (hHalted : Halted s) (hOpen : s.phase ≠ .closed)
    (hSent : ∀ o ∈ s'.sent, o ∈ s.sent ∨ o.isBlock = false)
    (hSame : s'.guardBlocked = s.guardBlocked) :
    Halted s' := by
  have hGoing := hHalted.unblocked hOpen
  refine ⟨?_, ?_⟩
  · intro hBlocked
    rw [hSame, hGoing] at hBlocked
    cases hBlocked
  · intro _ o hMem
    rcases hSent o hMem with hOld | hNew
    · exact hHalted.going hGoing o hOld
    · exact hNew

/- Nothing the relay sends is a block event. -/
theorem mem_sent_relayed {sent : List (Out α)} {out : List α} :
    ∀ o ∈ sent ++ out.map .relayed, o ∈ sent ∨ o.isBlock = false := by
  intro o hMem
  rcases mem_append.mp hMem with hOld | hNew
  · exact .inl hOld
  · rcases mem_map.mp hNew with ⟨a, _, rfl⟩
    exact .inr rfl

theorem halted_blockWith (hHalted : Halted s) (hOpen : s.phase ≠ .closed)
    (hSent : s'.sent = s.sent) (reason : String) :
    Halted (s'.blockWith W reason) := by
  have hGoing := hHalted.unblocked hOpen
  refine ⟨fun _ => ⟨rfl, ?_, rfl⟩, ?_⟩
  · refine ⟨s.sent, reason, W.blockEvent s'.served reason s'.lastSeq, ?_, hHalted.going hGoing⟩
    rw [← hSent]
    rfl
  · intro hUnblocked
    cases hUnblocked

theorem step_halted (hLawful : W.Lawful) (hHeard : heardAt W s e = true)
    (hStep : s.step W e = some s') (hHalted : Halted s) :
    Halted s' := by
  cases steps_of_step hStep with
  | chunk b hPhase =>
    exact halted_of_sent hHalted (by simp [hPhase]) (fun _ hOld => .inl hOld) rfl
  | frame hPhase hSplit hPush =>
    have hOpen : s.phase ≠ .closed := by simp [hPhase]
    rcases pushFrame_cases hPush with
      ⟨relay, out, _, _, rfl⟩ |
      ⟨relay, reason, _, ⟨_, rfl⟩ | ⟨hDeaf, _⟩⟩
    · exact halted_of_sent hHalted hOpen mem_sent_relayed rfl
    · refine halted_blockWith hHalted hOpen ?_ reason
      rfl
    · cases hDeaf
  | fails timeout hPhase =>
    have hOpen : s.phase ≠ .closed := by simp [hPhase]
    cases timeout with
    | some timeout =>
      refine halted_of_sent hHalted hOpen ?_ rfl
      intro o hMem
      rcases mem_append.mp hMem with hOld | hNew
      · exact .inl hOld
      · rw [mem_singleton.mp hNew]
        exact .inr rfl
    | none =>
      exact halted_of_sent hHalted hOpen (fun _ hOld => .inl hOld) rfl
  | theEnd hPhase =>
    exact halted_of_sent hHalted (by simp [hPhase]) (fun _ hOld => .inl hOld) rfl
  | trailing hPhase hPush =>
    have hOpen : s.phase ≠ .closed := by simp [hPhase]
    rcases pushFrame_cases hPush with
      ⟨relay, out, _, _, rfl⟩ |
      ⟨relay, reason, hResult, ⟨_, rfl⟩ | ⟨hDeaf, _⟩⟩
    · exact halted_of_sent hHalted hOpen mem_sent_relayed rfl
    · refine halted_blockWith hHalted hOpen ?_ reason
      rfl
    · have hBlocks := (hLawful.clears.drains.pushed hResult).2
      simp only [heardAt, hDeaf, Bool.false_or, Bool.not_eq_true'] at hHeard
      exact absurd (hBlocks.symm.trans hHeard) (by simp)
  | finish hPhase hBuf hFinish =>
    have hOpen : s.phase ≠ .closed := by simp [hPhase]
    rcases finishRelay_cases hFinish with ⟨relay, out, _, _, rfl⟩ | ⟨relay, reason, _, rfl⟩
    · exact halted_of_sent hHalted hOpen mem_sent_relayed rfl
    · refine halted_blockWith hHalted hOpen ?_ reason
      rfl

--
-- Runs
--

/- What a stream on this wire owes the guard. -/
structure Guarded (W : Wire ρ φ α) (codec : Codec) : Prop where
  /- What the provider sent, while nothing is rewritten. -/
  verbatim :
    ∀ trace s,
      Run
          (fun s e s' => keepsTextAt W s e = true ∧ s.step W e = some s')
          (Stream.new W) trace s →
        s.phase = .closed →
        s.stopped = false →
        s.sentBytes W = s.received
  /- Never more than the guard emitted. -/
  begins :
    ∀ trace s,
      Run
          (fun s e s' => tidyAt s e = true ∧ s.step W e = some s')
          (Stream.new W) trace s →
        s.clientText W codec <+: W.machine.safeText s.relay
  /- One block event, then nothing. -/
  blocks :
    ∀ trace s,
      Run
          (fun s e s' => heardAt W s e = true ∧ s.step W e = some s')
          (Stream.new W) trace s →
        s.guardBlocked = true →
        Blocked s

theorem guarded (hLawful : W.Lawful) (hTells : W.Tells codec own) :
    Guarded W codec where
  verbatim := by
    intro trace s hRun hClosed hGoing
    have hNew : Whole W (new W) := ⟨fun _ => ⟨hLawful.fresh, rfl⟩, rfl, fun _ _ => rfl⟩
    have hWhole : Whole W s :=
      hRun.invariant (fun _ _ _ hBefore hStep => step_whole hLawful hStep.1 hStep.2 hBefore) hNew
    exact sentBytes_of_whole hLawful hWhole hClosed hGoing
  begins := by
    intro trace s hRun
    have hNew : Telling W codec (new W) := by
      refine ⟨told_nil, nil_prefix, fun _ => ⟨hTells.fresh, ?_⟩⟩
      simp [new, hTells.waiting]
    have hTelling : Telling W codec s :=
      hRun.invariant (fun _ _ _ hBefore hStep => step_telling hTells hStep.1 hStep.2 hBefore) hNew
    exact clientText_of_telling hTelling
  blocks := by
    intro trace s hRun hBlocked
    have hNew : Halted (new W) := ⟨by simp [new], by simp [new]⟩
    have hHalted : Halted s :=
      hRun.invariant (fun _ _ _ hBefore hStep => step_halted hLawful hStep.1 hStep.2 hBefore) hNew
    exact hHalted.blocked hBlocked

end Wire

end Tracelane.Native
