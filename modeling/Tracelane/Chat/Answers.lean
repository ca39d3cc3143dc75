import Tracelane.Chat.Accounts
import Tracelane.Chat.Buffered

/-
  Streamed and buffered chat deliver the same answer.

  A generator that is polled to its end sends what `streamEvents` says.  Folding that, a client has
  the text the steady seam makes of the deltas, the tool calls they carried, and the finish reason,
  of which the default may be left unsaid.
-/

open Transition Option

namespace Tracelane.Chat

open List
open Seam ClientAnswer

--
-- Polled To The End
--

section Generator

variable {ctx : RequestContext} {rails : Rails}

/- Poll on until the yields are over and the loop goes on. -/
theorem resume_goes (ctx : RequestContext) (g : Generator) (events : List SseEvent) :
    ∃ trace,
      Run (fun g i g' => step ctx g i = some g')
        (resume ctx g events false) trace
        { g with
          point := .awaiting .event
          sent := g.sent ++ events } := by
  induction events generalizing g with
  | nil =>
    refine ⟨[], ?_⟩
    rw [append_nil]
    exact .nil _
  | cons e rest ih =>
    rcases ih { g with sent := g.sent ++ [e] } with ⟨trace, hRun⟩
    refine ⟨.poll :: trace, ?_⟩
    rw [append_assoc] at hRun
    refine .cons ?_ hRun
    cases rest <;> rfl

/- Poll on until the yields are over and the loop has ended. -/
theorem resume_stops (g : Generator) (events : List SseEvent) :
    ∃ trace g',
      Run (fun g i g' => step ctx g i = some g') (resume ctx g events true) trace g' ∧
        g'.point = .over ∧
        g'.sent = g.sent ++ events := by
  induction events generalizing g with
  | nil =>
    exact ⟨[], _, .nil _, rfl, (append_nil _).symm⟩
  | cons e rest ih =>
    rcases ih { g with sent := g.sent ++ [e] } with ⟨trace, g', hRun, hOver, hSent⟩
    refine ⟨.poll :: trace, g', ?_, hOver, ?_⟩
    · refine .cons ?_ hRun
      cases rest <;> rfl
    · rw [hSent, append_assoc]
      rfl

variable (fin : StreamFinalizer)

theorem onEnd_stops (answer : GuardStep) :
    (onEnd fin answer).2.2 = true := by
  cases answer <;> rfl

theorem onDone_stops (answer : GuardStep) :
    (onDone fin answer).2.2 = true := by
  cases answer <;> rfl

/- Polled from here, the generator ends having sent these. -/
def Sends (ctx : RequestContext) (g : Generator) (events : List SseEvent) : Prop :=
  ∃ trace g',
    Run (fun g i g' => step ctx g i = some g') g trace g' ∧
      g'.point = .over ∧
      g'.sent = g.sent ++ events

variable {events : List SseEvent}

theorem Sends.of_step {g u : Generator} {i : Input}
    (hStep : step ctx g i = some u) (hSent : u.sent = g.sent) (hSends : Sends ctx u events) :
    Sends ctx g events := by
  rcases hSends with ⟨trace, g', hRun, hOver, hAll⟩
  rw [hSent] at hAll
  exact ⟨i :: trace, g', .cons hStep hRun, hOver, hAll⟩

variable {r : StreamFinalizer × List SseEvent × Bool} {g : Generator}

/- What the loop yields on an answer, and then the rest. -/
theorem sends_resumeWith {i : Input}
    {rest : Option (List SseEvent)} (hStep : step ctx g i = some (resumeWith ctx g r))
    (hEvents : (if r.2.2 then some r.2.1 else rest.bind (some <| r.2.1 ++ ·)) = some events)
    (hGo :
      ∀ later, rest = some later →
        Sends ctx { g with fin := r.1, point := .awaiting .event, sent := g.sent ++ r.2.1 } later) :
    Sends ctx g events := by
  unfold resumeWith at hStep
  split at hEvents
  · rename_i hLast
    cases hEvents
    rw [hLast] at hStep
    rcases resume_stops { g with fin := r.1 } r.2.1 with ⟨trace, g', hRun, hOver, hSent⟩
    exact ⟨i :: trace, g', .cons hStep hRun, hOver, hSent⟩
  · rename_i hLast
    rw [Bool.not_eq_true] at hLast
    rw [hLast] at hStep
    rcases bind_eq_some_iff.mp hEvents with ⟨later, hRest, hAll⟩
    cases hAll
    rcases hGo later hRest with ⟨trace, g', hRun, hOver, hSent⟩
    rcases resume_goes ctx { g with fin := r.1 } r.2.1 with ⟨first, hFirst⟩
    refine ⟨i :: (first ++ trace), g', .cons hStep (hFirst.append hRun), hOver, ?_⟩
    rw [hSent, append_assoc]

/- The last yields, on the guard's answer. -/
theorem sends_last {answer : GuardStep}
    (hStep : step ctx g (.guard answer) = some (resumeWith ctx g r)) (hStops : r.2.2 = true) :
    Sends ctx g r.2.1 :=
  sends_resumeWith hStep (if_pos hStops) (fun _ (hNone : none = some _) => by cases hNone)

/-
  The generator, at its loop's head, can be polled to its end
  with any guard and any items, and sends `streamEvents`.
-/
theorem streamEvents_run {items : List ProviderItem} {guard : ResponseGuard}
    (hPoint : g.point = .awaiting .event)
    (hEvents : streamEvents rails guard g.fin items = some events) :
    Sends ctx g events := by
  induction items generalizing guard g events with
  | nil =>
    simp only [streamEvents, bind_eq_bind, Option.bind_eq_some_iff, Option.pure_def,
      Option.some.injEq] at hEvents
    rcases hEvents with ⟨⟨answer, guard'⟩, _, rfl⟩
    apply Sends.of_step (i := .event none) (u := { g with point := .awaiting .theEnd })
    · simp [step, hPoint, onEvent, resumeEvent]
    · rfl
    · exact sends_last rfl (onEnd_stops g.fin answer)
  | cons item rest ih =>
    have hFirst :
        step ctx g (.event (some item)) = some (resumeEvent ctx g (onEvent g.fin (some item))) := by
      simp only [step, hPoint]
    simp only [streamEvents] at hEvents
    generalize onEvent g.fin (some item) = r at hFirst hEvents
    rcases r with ⟨fin, what | yields⟩
    · apply Sends.of_step hFirst
      · rfl
      · cases what with
        | event => exact ih rfl hEvents
        | delta text =>
          rcases bind_eq_some_iff.mp hEvents with ⟨⟨answer, guard'⟩, _, hRest⟩
          apply sends_resumeWith (i := .guard answer) (r := onDelta fin answer) rfl hRest
          exact fun later hLater => ih rfl hLater
        | tool d =>
          apply sends_resumeWith (i := .refuse (guard.refuseUnscannedOutput rails).1)
            (r := onTool fin d (guard.refuseUnscannedOutput rails).1) rfl hEvents
          exact fun later hLater => ih rfl hLater
        | theEnd =>
          rcases bind_eq_some_iff.mp hEvents with ⟨⟨answer, guard'⟩, _, hLast⟩
          cases hLast
          exact sends_last rfl (onEnd_stops fin answer)
        | theDone =>
          rcases bind_eq_some_iff.mp hEvents with ⟨⟨answer, guard'⟩, _, hLast⟩
          cases hLast
          exact sends_last rfl (onDone_stops fin answer)
    · simp only [some.injEq] at hEvents
      subst hEvents
      rcases resume_stops { g with fin } yields with ⟨trace, g', hRun, hOver, hSent⟩
      exact ⟨.event (some item) :: trace, g', .cons hFirst hRun, hOver, hSent⟩

end Generator

--
-- In Step
--

/-
  A `Done`, where there is one, comes last and brings no text
  and no tool calls that the deltas had not brought.
-/
def doneAddsNothing (b : BufferedState) :
    List ProviderEvent → Bool
| [] => true
| .done response :: rest =>
    rest.isEmpty &&
      (b.absorb (.done response)).text == b.text &&
      (b.absorb (.done response)).toolCalls == b.toolCalls
| ev :: rest => doneAddsNothing (b.absorb ev) rest

/- After the same events: the loop's state, the buffered state, and what a client has folded. -/
structure InStep (rails : Rails) (final : String → String) (b : BufferedState)
    (guard : ResponseGuard) (fin : StreamFinalizer) (a : ClientAnswer) : Prop where
  text : guard.full = b.text
  released : Released rails final guard a.content.toList
  calls : fin.toolCalls = b.toolCalls
  merged : a.toolCalls = b.toolCalls
  finish : fin.providerFinish = b.providerFinish
  saw : fin.sawToolCall = !b.toolCalls.isEmpty
  unsaid : a.finishReason = none

/- The client has the answer that was buffered. -/
structure SameAnswer (final : String → String) (b : BufferedState) (a : ClientAnswer) : Prop where
  content : a.content = final b.text
  merged : a.toolCalls = b.toolCalls
  finish : a.finishReason.getD "stop" = b.finishReason

section InStep

variable {rails : Rails} {final : String → String} {b : BufferedState}
variable {guard : ResponseGuard} {fin : StreamFinalizer} {a : ClientAnswer}

theorem push_isEmpty (slots : ToolCallAccumulator) (index : Nat)
    (id name : Option String) (delta : String) :
    (ToolCallAccumulator.push slots index id name delta).isEmpty = false := by
  cases slots with
  | nil => rfl
  | cons slot rest =>
    unfold ToolCallAccumulator.push
    split <;> rfl

theorem foldl_push_isEmpty (calls : List (ToolCall × Nat)) (slots : ToolCallAccumulator)
    (hSome : slots.isEmpty = false) :
    (calls.foldl
      (fun slots c => ToolCallAccumulator.push slots c.2 (some c.1.id) (some c.1.name) c.1.input)
      slots).isEmpty = false := by
  induction calls generalizing slots with
  | nil => exact hSome
  | cons c rest ih => exact ih _ (push_isEmpty _ _ _ _ _)

/- Calls that leave no slots behind are no calls. -/
theorem eq_nil_of_pushCalls {calls : List ToolCall}
    (hNone : ToolCallAccumulator.pushCalls [] calls = []) :
    calls = [] := by
  cases calls with
  | nil => rfl
  | cons c rest =>
    have hSome :=
      foldl_push_isEmpty (rest.zipIdx 1) _ (push_isEmpty [] 0 (some c.id) (some c.name) c.input)
    rw [ToolCallAccumulator.pushCalls, zipIdx_cons, foldl_cons] at hNone
    rw [Nat.zero_add] at hNone
    rw [hNone] at hSome
    exact absurd hSome (by decide)

/- A `Done` that adds no calls tells of none. -/
theorem done_saw {response : ChatResponse}
    (hCalls : ToolCallAccumulator.absorbResponseCalls b.toolCalls response = b.toolCalls) :
    (!b.toolCalls.isEmpty ||
        (response.choices.head?.bind Choice.toolCalls).any (fun calls => !calls.isEmpty)) =
      !b.toolCalls.isEmpty := by
  cases hEmpty : b.toolCalls with
  | cons slot rest => rfl
  | nil =>
    rw [hEmpty] at hCalls
    cases hOwn : response.choices.head?.bind Choice.toolCalls with
    | none => rfl
    | some calls =>
      simp only [ToolCallAccumulator.absorbResponseCalls, hOwn, isEmpty_nil, if_true] at hCalls
      rw [eq_nil_of_pushCalls hCalls]
      rfl

theorem fold_append (events later : List SseEvent) :
    a.fold (events ++ later) = (a.fold events).fold later :=
  foldl_append

theorem content_eq {content text whole : String}
    (hAll : content.toList ++ text.toList = whole.toList) :
    content ++ text = whole := by
  apply String.toList_injective
  rw [String.toList_append, hAll]

section

variable (hSteady : Steady rails final) (hStep : InStep rails final b guard fin a)
include hSteady hStep

theorem sameAnswer_onEnd (usage : Option Usage) :
    ∃ answer guard',
      guard.onEnd rails usage = some (answer, guard') ∧
        SameAnswer final b (a.fold (onEnd fin answer).2.1) := by
  rcases onEnd_released hSteady hStep.released usage with ⟨text, guard', hOn, hAll⟩
  refine ⟨_, _, hOn, ?_⟩
  rw [hStep.text] at hAll
  have hContent := content_eq hAll
  have hFinish : deriveFinishReason fin.sawToolCall fin.providerFinish = b.finishReason := by
    rw [hStep.saw, hStep.finish]
    rfl
  simp only [onEnd, hFinish]
  split
  · refine ⟨?_, hStep.merged, rfl⟩
    rw [← hContent]
    by_cases hEmpty : text = "" <;> simp [fold, absorb, hEmpty]
  · rename_i hQuiet
    rw [not_or, not_not, not_not] at hQuiet
    refine ⟨?_, hStep.merged, ?_⟩
    · rw [← hContent, hQuiet.1]
      exact String.append_empty.symm
    · rw [hQuiet.2]
      exact congrArg (Option.getD · "stop") hStep.unsaid

theorem sameAnswer_onDone (usage : Option Usage) :
    ∃ answer guard',
      guard.onEnd rails usage = some (answer, guard') ∧
        SameAnswer final b (a.fold (onDone fin answer).2.1) := by
  rcases onEnd_released hSteady hStep.released usage with ⟨text, guard', hOn, hAll⟩
  refine ⟨_, _, hOn, ?_⟩
  rw [hStep.text] at hAll
  have hContent := content_eq hAll
  simp only [onDone, hStep.saw, hStep.finish]
  by_cases hEmpty : text = ""
  · rw [if_pos hEmpty]
    refine ⟨?_, hStep.merged, rfl⟩
    rw [← hContent, hEmpty]
    rfl
  · rw [if_neg hEmpty]
    refine ⟨?_, hStep.merged, rfl⟩
    rw [← hContent]
    simp [contentChunk, fold, absorb]

end

section

variable (hStep : InStep rails final b guard fin a)
include hStep

/- What stays in step when the loop only takes note. -/
theorem InStep.noted {b' : BufferedState} {fin' : StreamFinalizer} (hText : b'.text = b.text)
    (hCalls : b'.toolCalls = b.toolCalls) (hOwn : fin'.toolCalls = fin.toolCalls)
    (hSaw : fin'.sawToolCall = fin.sawToolCall)
    (hFinish : fin'.providerFinish = b'.providerFinish) :
    InStep rails final b' guard fin' a where
  text := by rw [hText, hStep.text]
  released := hStep.released
  calls := by rw [hOwn, hCalls, hStep.calls]
  merged := by rw [hCalls, hStep.merged]
  finish := hFinish
  saw := by rw [hSaw, hCalls, hStep.saw]
  unsaid := hStep.unsaid

/- A text delta, and what the guard releases of it. -/
theorem InStep.delta (hSteady : Steady rails final)
    (delta : String) (tally : Tally) (usage : Option Usage) :
    ∃ answer guard',
      guard.onDelta rails delta usage = some (answer, guard') ∧
        (onDelta { fin with tally } answer).2.2 = false ∧
        InStep rails final (b.absorb (.streamChunk delta)) guard'
          (onDelta { fin with tally } answer).1
          (a.fold (onDelta { fin with tally } answer).2.1) := by
  rcases onDelta_released hSteady hStep.released delta usage
    with ⟨text, guard', hOn, hReleased, hFull⟩
  refine ⟨_, _, hOn, ?_⟩
  rw [hStep.text] at hFull
  by_cases hEmpty : text = ""
  · subst hEmpty
    rw [String.toList_empty, append_nil] at hReleased
    exact ⟨rfl, hFull, hReleased, hStep.calls, hStep.merged, hStep.finish, hStep.saw, hStep.unsaid⟩
  · have hOnDelta :
        onDelta { fin with tally } (.emit text) =
          ({ fin with tally }, [contentChunk text], false) :=
      if_neg hEmpty
    rw [hOnDelta]
    rw [← String.toList_append] at hReleased
    exact ⟨rfl, hFull, hReleased, hStep.calls, hStep.merged, hStep.finish, hStep.saw, hStep.unsaid⟩

/- A tool call's delta, which the client merges as the loop. -/
theorem InStep.tool (index : Nat) (id name : Option String) (inputDelta : String) (tally : Tally) :
    InStep rails final
      (b.absorb (.toolCallDelta index id name inputDelta)) guard
      (onTool { fin with tally } ⟨index, id, name, inputDelta⟩ none).1
      (a.fold
        (onTool { fin with tally } ⟨index, id, name, inputDelta⟩ none).2.1) where
  text := hStep.text
  released := by
    have hReleased := hStep.released
    simpa [onTool, fold, absorb] using hReleased
  calls := by
    simp only [onTool, BufferedState.absorb, hStep.calls]
  merged := by
    simp [onTool, BufferedState.absorb, fold, absorb, hStep.merged]
  finish := hStep.finish
  saw := by
    simp only [onTool, BufferedState.absorb, push_isEmpty]
    rfl
  unsaid := hStep.unsaid

end

/-
  Induction on the events; the buffered state, the guard, the
  loop's state and the client stay in step to the end.
-/
theorem streamEvents_sameAnswer (hSteady : Steady rails final)
    (events : List ProviderEvent) (hStep : InStep rails final b guard fin a)
    (hDone : doneAddsNothing b events = true) :
    ∃ sent,
      streamEvents rails guard fin (events.map .ok) = some sent ∧
        SameAnswer final (events.foldl BufferedState.absorb b) (a.fold sent) := by
  induction events generalizing b guard fin a with
  | nil =>
    rcases sameAnswer_onEnd hSteady hStep none with ⟨answer, guard', hOn, hSame⟩
    refine ⟨_, ?_, hSame⟩
    simp only [map_nil, streamEvents, hOn]
    rfl
  | cons ev rest ih =>
    -- Only three kinds of events do more than be noted.
    cases ev with
    | streamChunk delta =>
      rcases hStep.delta hSteady delta (fin.tally.absorb (.streamChunk delta))
          (some (fin.tally.absorb (.streamChunk delta)).deltaUsage) with
        ⟨answer, guard', hOn, hGo, hNext⟩
      rcases ih hNext hDone with ⟨later, hLater, hSame⟩
      refine ⟨_, ?_, by
        rw [fold_append]
        exact hSame⟩
      simp only [map_cons, streamEvents, onEvent, hOn, bind_eq_bind, bind_some, hGo, hLater]
      rfl
    | toolCallDelta index id name inputDelta =>
      have hNext :=
        hStep.tool index id name inputDelta
          (fin.tally.absorb (.toolCallDelta index id name inputDelta))
      rcases ih hNext hDone with ⟨later, hLater, hSame⟩
      refine ⟨_, ?_, by
        rw [fold_append]
        exact hSame⟩
      simp only [map_cons, streamEvents, onEvent, ResponseGuard.refuseUnscannedOutput,
        hSteady.scanned, hLater]
      rfl
    | done response =>
      simp only [doneAddsNothing, Bool.and_eq_true, List.isEmpty_iff, beq_iff_eq] at hDone
      rcases hDone with ⟨⟨rfl, hText⟩, hCalls⟩
      have hNext :
          InStep rails final (b.absorb (.done response)) guard
            (onEvent fin (some (.ok (.done response)))).1 a :=
        { text := by rw [hText, hStep.text]
          released := hStep.released
          calls := by
            simp only [onEvent, BufferedState.absorb, hStep.calls]
          merged := by rw [hCalls, hStep.merged]
          finish := by
            simp only [onEvent, BufferedState.absorb, hStep.finish]
          saw := by
            simp only [onEvent, hStep.saw]
            rw [hCalls]
            exact done_saw hCalls
          unsaid := hStep.unsaid }
      rcases sameAnswer_onDone hSteady hNext
          (some (fin.tally.absorb (.done response)).usage) with
        ⟨answer, guard', hOn, hSame⟩
      refine ⟨_, ?_, hSame⟩
      simp only [map_cons, streamEvents, onEvent, hOn]
      rfl
    | thinkingDelta _ | usageUpdate _ _ _ _ _ _ =>
      exact ih (hStep.noted rfl rfl rfl rfl hStep.finish) hDone
    | finish reason =>
      exact ih (hStep.noted rfl rfl rfl rfl rfl) hDone
    | logprobsDelta _ | responseMeta _ _ _ =>
      exact ih (hStep.noted rfl rfl rfl rfl hStep.finish) hDone

variable (events : List ProviderEvent)

theorem absorbAll_map_ok (b : BufferedState) :
    b.absorbAll (events.map .ok) = events.foldl BufferedState.absorb b := by
  induction events generalizing b with
  | nil => rfl
  | cons ev rest ih => exact ih (b.absorb ev)

theorem foldl_absorb_timeout (b : BufferedState) :
    (events.foldl BufferedState.absorb b).timeout = b.timeout := by
  induction events generalizing b with
  | nil => rfl
  | cons ev rest ih =>
    rw [foldl_cons, ih]
    cases ev <;> rfl

/- Under a steady seam the whole text is released. -/
theorem guardBuffered_steady (hSteady : Steady rails final) (b : BufferedState) :
    guardBuffered rails b =
      some (.completion (final b.text)
        (b.toolCalls.map ToolCallSlot.toOpenaiJson)
        b.finishReason b.usage) := by
  have hNew : Released rails final {} [] := released_new
  rcases onDelta_released hSteady hNew b.text b.tally.usage with
    ⟨head, guard, hHead, hReleased, hFull⟩
  rcases onEnd_released hSteady hReleased b.tally.usage with ⟨tail, guard', hTail, hAll⟩
  rw [hFull, String.empty_append, nil_append] at hAll
  have hScanned : ResponseGuard.refuseUnscannedOutput rails {} = (none, {}) := by
    unfold ResponseGuard.refuseUnscannedOutput
    rw [hSteady.scanned]
  simp [guardBuffered, hScanned, hHead, hTail, content_eq hAll]

/- Rails that pass every text as it is. -/
def passingRails (holdback : Nat) : Rails where
  holdback := holdback
  holds := false
  posts := false
  judge := fun text _ => .ok text
  judgeEnd := fun text _ => .ok text
  refuses := none

theorem passingRails_steady (holdback : Nat) :
    Steady (passingRails holdback) id where
  scanned := rfl
  ends := fun _ _ => rfl
  passes := by
    intro text usage
    refine ⟨text, rfl, ?_⟩
    intro _ more
    rw [id, String.toList_append]
    exact (List.take_prefix _ _).trans (prefix_append _ _)

/- Text held back, a tool call in two pieces, and a `Done`. -/
def calledStream : List ProviderEvent :=
  [.streamChunk "hello",
    .toolCallDelta 0 (some "c1") (some "f") "",
    .toolCallDelta 0 none none "[1]",
    .done ⟨"r1", "m1", [], none⟩]

end InStep

end Tracelane.Chat
