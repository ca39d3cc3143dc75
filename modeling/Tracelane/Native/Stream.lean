import Tracelane.Native.Wires

/-
  A native stream from the first chunk to the record of its span, on any of the three wires.

  A step is a chunk that arrives, a complete frame that goes through the relay, the end or the
  failure of the upstream, the unterminated frame that is left then, or the end of the guard.  The
  guard's answers are inputs.
-/

namespace Tracelane.Native

open Chat

--
-- Wires
--

/- What the three wires differ in. -/
structure Wire (ρ φ α : Type) where
  machine : Machine ρ φ α
  new : ρ
  classify : Bytes → φ
  raw : φ → Bytes
  wireText : Value → Option String
  /- Whether the guard is asked about more than the text. -/
  unscanned : ρ → φ → Bool
  /- Whether a frame is the provider's own error. -/
  fails : Bytes → Bool
  nextSeq : Nat → Bytes → Nat
  servedId : Bytes → Option String
  render : α → Bytes
  blockEvent : Option String → String → Nat → Bytes
  timeoutEvent : Option String → Timeout → Nat → Bytes
  /- A block at the unterminated last frame is acted upon. -/
  hearsTrailing : Bool

/- What the body yields. -/
inductive Out (α : Type) where
| relayed (a : α)
| block (reason : String) (b : Bytes)
| timeout (b : Bytes)
deriving DecidableEq

inductive Phase where
| reading
| ending
| closed
deriving DecidableEq

structure Stream (ρ φ α : Type) where
  phase : Phase := .reading
  buf : Bytes := []
  relay : ρ
  lastSeq : Nat := 0
  served : Option String := none
  errorReason : Option String := none
  sent : List (Out α) := []
  /- The error reason of the span, once it is recorded. -/
  recorded : Option (Option String) := none
  /- What has come in, and how it was cut. -/
  received : Bytes := []
  frames : List φ := []
  /- Whether the guard has blocked. -/
  guardBlocked : Bool := false
deriving DecidableEq

inductive Event where
| chunk (b : Bytes)
| frame (answers : Answers)
| fails (timeout : Option Timeout)
| theEnd
| trailing (answers : Answers)
| finish (answer : GuardStep)
deriving DecidableEq

section Wire

variable {ρ φ α : Type} (W : Wire ρ φ α)

def Out.bytes : Out α → Bytes
| .relayed a => W.render a
| .block _ b => b
| .timeout b => b

def Out.relayed? : Out α → Option α
| .relayed a => some a
| _ => none

def Out.isBlock : Out α → Bool
| .block _ _ => true
| _ => false

namespace Stream

def new : Stream ρ φ α :=
  { relay := W.new }

/- What a frame tells beside its text. -/
def observe (s : Stream ρ φ α) (raw : Bytes) : Stream ρ φ α :=
  { s with
    lastSeq := W.nextSeq s.lastSeq raw
    served := s.served.or (W.servedId raw)
    errorReason :=
      if W.fails raw then some "provider_stream_error"
      else s.errorReason
    frames := s.frames ++ [W.classify raw] }

/- Every way to the end records the span. -/
def close (s : Stream ρ φ α) : Stream ρ φ α :=
  { s with phase := .closed, recorded := some s.errorReason }

def blockWith (s : Stream ρ φ α) (reason : String) : Stream ρ φ α :=
  close
    { s with
      sent := s.sent ++ [.block reason (W.blockEvent s.served reason s.lastSeq)]
      errorReason := some "guardrail_block"
      guardBlocked := true }

/- A text that no allocation holds ends the process. -/
def allocated (s : Stream ρ φ α) : Option (Stream ρ φ α) :=
  if (W.machine.safeText s.relay).length < 2 ^ 63 then some s
  else none

/- Push a frame; whether a block is acted upon. -/
def pushFrame (hears : Bool) (s : Stream ρ φ α) (frame : φ)
    (answers : Answers) : Option (Stream ρ φ α) :=
  match W.machine.push s.relay (W.unscanned s.relay frame) frame
      answers s.lastSeq with
  | (relay, .bytes out) => allocated W { s with relay, sent := s.sent ++ out.map .relayed }
  | (relay, .blocked reason) =>
      if hears then some (blockWith W { s with relay } reason)
      else some { s with relay, guardBlocked := true }

def finishRelay (s : Stream ρ φ α) (answer : GuardStep) : Option (Stream ρ φ α) :=
  match W.machine.finish s.relay answer s.lastSeq with
  | (relay, .bytes out) => allocated W (close { s with relay, sent := s.sent ++ out.map .relayed })
  | (relay, .blocked reason) => some (blockWith W { s with relay } reason)

/- A timeout is told to the client; another failure is not. -/
def upstreamFails (s : Stream ρ φ α) : Option Timeout → Stream ρ φ α
| some timeout =>
    close
      { s with
        sent :=
          s.sent ++ [.timeout (W.timeoutEvent s.served timeout s.lastSeq)]
        errorReason := some "upstream_timeout" }
| none =>
    { s with
      phase := .ending
      errorReason := some "provider_stream_error" }

/- The upstream is read when no complete frame is left. -/
def waits (s : Stream ρ φ α) : Bool :=
  s.phase == .reading && (splitFrame s.buf).isNone

def step (s : Stream ρ φ α) : Event → Option (Stream ρ φ α)
| .chunk b =>
    if s.waits then
      some
        { s with
          buf := s.buf ++ b
          received := s.received ++ b }
    else none
| .frame answers =>
    if s.phase = .reading then
      match splitFrame s.buf with
      | some (raw, rest) =>
          pushFrame W true (observe W { s with buf := rest } raw) (W.classify raw) answers
      | none => none
    else none
| .fails timeout =>
    if s.waits then some (upstreamFails W s timeout) else none
| .theEnd =>
    if s.waits then some { s with phase := .ending } else none
| .trailing answers =>
    if s.phase = .ending ∧ s.buf ≠ [] then
      pushFrame W W.hearsTrailing
        (observe W { s with buf := [] } s.buf) (W.classify s.buf)
        answers
    else none
| .finish answer =>
    if s.phase = .ending ∧ s.buf = [] then
      finishRelay W s answer
    else none

/- The bytes the client was sent. -/
def sentBytes (s : Stream ρ φ α) : Bytes :=
  s.sent.flatMap (Out.bytes W)

/- What the relay had its caller send. -/
def relayed (s : Stream ρ φ α) : List α :=
  s.sent.filterMap Out.relayed?

/- The text a client reads from what it was sent. -/
def clientText (codec : Codec) (s : Stream ρ φ α) : Bytes :=
  eventTexts codec W.wireText (Reader.read {} (sentBytes W s)).2

--
-- What A Step Can Do
--

variable {W} {s s' : Stream ρ φ α}

theorem pushFrame_cases {hears : Bool} {frame : φ} {answers : Answers}
    (hPush : pushFrame W hears s frame answers = some s') :
    (∃ relay out,
      W.machine.push s.relay (W.unscanned s.relay frame) frame
          answers s.lastSeq = (relay, .bytes out) ∧
        (W.machine.safeText relay).length < 2 ^ 63 ∧
        s' = { s with relay, sent := s.sent ++ out.map .relayed }) ∨
    (∃ relay reason,
      W.machine.push s.relay (W.unscanned s.relay frame) frame
          answers s.lastSeq = (relay, .blocked reason) ∧
        (hears = true ∧ s' = blockWith W { s with relay } reason ∨
          hears = false ∧ s' = { s with relay, guardBlocked := true })) := by
  unfold pushFrame at hPush
  split at hPush
  · rename_i relay out hResult
    unfold allocated at hPush
    split at hPush <;> cases hPush
    rename_i hFits
    exact .inl ⟨relay, out, hResult, hFits, rfl⟩
  · rename_i relay reason hResult
    refine .inr ⟨relay, reason, hResult, ?_⟩
    split_ifs at hPush with hHears
    · cases hPush
      exact .inl ⟨hHears, rfl⟩
    · cases hPush
      exact .inr ⟨Bool.eq_false_iff.mpr hHears, rfl⟩

theorem finishRelay_cases {answer : GuardStep} (hFinish : finishRelay W s answer = some s') :
    (∃ relay out,
      W.machine.finish s.relay answer s.lastSeq = (relay, .bytes out) ∧
        (W.machine.safeText relay).length < 2 ^ 63 ∧
        s' =
          close
            { s with
              relay
              sent := s.sent ++ out.map .relayed }) ∨
    (∃ relay reason,
      W.machine.finish s.relay answer s.lastSeq = (relay, .blocked reason) ∧
        s' = blockWith W { s with relay } reason) := by
  unfold finishRelay at hFinish
  split at hFinish
  · rename_i relay out hResult
    unfold allocated at hFinish
    split at hFinish <;> cases hFinish
    rename_i hFits
    exact .inl ⟨relay, out, hResult, hFits, rfl⟩
  · rename_i relay reason hResult
    cases hFinish
    exact .inr ⟨relay, reason, hResult, rfl⟩

theorem waits_reading (hWaits : s.waits = true) :
    s.phase = .reading := by
  simp only [waits, Bool.and_eq_true, beq_iff_eq] at hWaits
  exact hWaits.1

/- The steps, by what they do. -/
inductive Steps (W : Wire ρ φ α) (s : Stream ρ φ α) :
    Event → Stream ρ φ α → Prop where
| chunk (b : Bytes)
    (hPhase : s.phase = .reading) :
    Steps W s (.chunk b)
      { s with
        buf := s.buf ++ b
        received := s.received ++ b }
| frame {answers : Answers} {raw rest : Bytes}
    {s' : Stream ρ φ α}
    (hPhase : s.phase = .reading)
    (hSplit : splitFrame s.buf = some (raw, rest))
    (hPush :
      pushFrame W true (observe W { s with buf := rest } raw) (W.classify raw) answers = some s') :
    Steps W s (.frame answers) s'
| fails (timeout : Option Timeout)
    (hPhase : s.phase = .reading) :
    Steps W s (.fails timeout) (upstreamFails W s timeout)
| theEnd
    (hPhase : s.phase = .reading) :
    Steps W s .theEnd { s with phase := .ending }
| trailing {answers : Answers} {s' : Stream ρ φ α}
    (hPhase : s.phase = .ending)
    (hPush :
      pushFrame W W.hearsTrailing (observe W { s with buf := [] } s.buf) (W.classify s.buf)
        answers = some s') :
    Steps W s (.trailing answers) s'
| finish {answer : GuardStep} {s' : Stream ρ φ α}
    (hPhase : s.phase = .ending)
    (hBuf : s.buf = [])
    (hFinish : finishRelay W s answer = some s') :
    Steps W s (.finish answer) s'

theorem steps_of_step {e : Event} (hStep : step W s e = some s') :
    Steps W s e s' := by
  cases e with
  | chunk b =>
    simp only [step] at hStep
    split at hStep <;> cases hStep
    rename_i hWaits
    exact .chunk b (waits_reading hWaits)
  | frame answers =>
    simp only [step] at hStep
    split at hStep
    · rename_i hPhase
      split at hStep
      · rename_i raw rest hSplit
        exact .frame hPhase hSplit hStep
      · cases hStep
    · cases hStep
  | fails timeout =>
    simp only [step] at hStep
    split at hStep <;> cases hStep
    rename_i hWaits
    exact .fails timeout (waits_reading hWaits)
  | theEnd =>
    simp only [step] at hStep
    split at hStep <;> cases hStep
    rename_i hWaits
    exact .theEnd (waits_reading hWaits)
  | trailing answers =>
    simp only [step] at hStep
    split at hStep
    · rename_i hLeft
      exact .trailing hLeft.1 hStep
    · cases hStep
  | finish answer =>
    simp only [step] at hStep
    split at hStep
    · rename_i hEnd
      exact .finish hEnd.1 hEnd.2 hStep
    · cases hStep

end Stream

end Wire

end Tracelane.Native
