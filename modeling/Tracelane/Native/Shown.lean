import Tracelane.Native.Delivery

/- What of the guard's text a relay has shown: a beginning of it, whatever the guard rewrites. -/

namespace Tracelane.Native

open List
open Chat NativeFrame

--
-- Cutting Texts
--

/- The next frame's text is what comes next in the raw text. -/
theorem between_eq_of_drop {rawText text rest : Bytes} {first : Nat}
    (hWithin : first ≤ rawText.length) (hDrop : text ++ rest = rawText.drop first) :
    between rawText first (first + text.length) = text ∧
      first + text.length ≤ rawText.length ∧
      rest = rawText.drop (first + text.length) := by
  have hLen := congrArg length hDrop
  rw [length_append, length_drop] at hLen
  refine ⟨?_, by omega, ?_⟩
  · unfold between
    rw [drop_take, ← hDrop, Nat.add_sub_cancel_left, take_left]
  · rw [← drop_drop, ← hDrop, drop_left]

/- A beginning, extended by what comes next. -/
theorem take_append_between (safeText : Bytes) (first size : Nat) :
    safeText.take first ++ between safeText first (first + size) =
      safeText.take (first + size) := by
  unfold between
  rw [drop_take, Nat.add_sub_cancel_left, take_add]

--
-- Alignment
--

/-
  What was sent is a beginning of the safe text, and while frames go out as they came, those that
  wait carry the rest of the raw text.
-/
structure Aligned (pending : List Piece) (rawText safeText : Bytes)
    (released shown : Nat) (rewriting : Bool) (sent : Bytes) : Prop where
  begun : sent = safeText.take shown
  within : shown ≤ safeText.length
  ahead :
    rewriting = false →
      shown = released ∧ released ≤ rawText.length ∧ texts pending = rawText.drop released
  safe : ∃ str, safeText = utf8 str
  text : ∃ str, sent = utf8 str

namespace Aligned

variable {pending : List Piece} {rawText safeText raw : Bytes}
variable {released shown : Nat} {rewriting : Bool} {sent : Bytes}

theorem begins (hAligned : Aligned pending rawText safeText released shown rewriting sent) :
    sent <+: safeText := by
  rw [hAligned.begun]
  exact take_prefix _ _

/- Another frame goes out. -/
theorem other
    (hAligned : Aligned (.other raw :: pending) rawText safeText released shown rewriting sent) :
    Aligned pending rawText safeText released shown rewriting sent :=
  { hAligned with }

/- While rewriting the queue does not matter. -/
theorem requeue (hAligned : Aligned pending rawText safeText released shown true sent)
    (others : List Piece) :
    Aligned others rawText safeText released shown true sent :=
  { hAligned with ahead := by simp }

/- A text frame goes out as it came. -/
theorem verbatim {text : String}
    (hAligned : Aligned (.text (utf8 text) :: pending) rawText safeText released shown false sent)
    (hFits : released + (utf8 text).length ≤ safeText.length)
    (hSame :
      between safeText released (released + (utf8 text).length) =
        between rawText released (released + (utf8 text).length)) :
    Aligned pending rawText safeText
      (released + (utf8 text).length)
      (released + (utf8 text).length) false
      (sent ++ utf8 text) := by
  rcases hAligned.ahead rfl with ⟨hShown, hWithin, hDrop⟩
  rw [texts, flatMap_cons] at hDrop
  rcases between_eq_of_drop hWithin hDrop with ⟨hNext, hMore, hRest⟩
  simp only [Piece.text?] at hNext hMore hRest
  rcases hAligned.text with ⟨str, hStr⟩
  refine ⟨?_, hFits, fun _ => ⟨rfl, hMore, hRest⟩, hAligned.safe, str ++ text, ?_⟩
  · rw [hAligned.begun, hShown, ← take_append_between, hSame, hNext]
  · rw [utf8_append, hStr]

/- The text that is due was rewritten. -/
theorem diverge (hAligned : Aligned pending rawText safeText released shown false sent)
    (others : List Piece) :
    Aligned others rawText safeText released released true sent where
  begun := by
    rw [← (hAligned.ahead rfl).1]
    exact hAligned.begun
  within := by
    rw [← (hAligned.ahead rfl).1]
    exact hAligned.within
  ahead := by simp
  safe := hAligned.safe
  text := hAligned.text

/- The rest of the safe text is a text. -/
theorem rest_text (hAligned : Aligned pending rawText safeText released shown rewriting sent) :
    ∃ str, safeText.drop shown = utf8 str := by
  rcases hAligned.safe with ⟨whole, hWhole⟩
  rcases hAligned.text with ⟨str, hStr⟩
  refine ⟨_, utf8_of_append (s := whole) (t := str) ?_⟩
  rw [← hWhole, ← hStr, hAligned.begun, take_append_drop]

/- The rest of the safe text goes out in a frame of our own. -/
theorem flush (hAligned : Aligned pending rawText safeText released shown true sent) :
    Aligned pending rawText safeText released safeText.length
      true (sent ++ safeText.drop shown) := by
  have hAll : sent ++ safeText.drop shown = safeText := by rw [hAligned.begun, take_append_drop]
  refine ⟨?_, Nat.le_refl _, by simp, hAligned.safe, ?_⟩
  · rw [hAll, take_length]
  · rw [hAll]
    exact hAligned.safe

end Aligned

--
-- Truthful Relays
--

section Machine

variable {ρ φ α : Type}

def AlignedAt (M : Machine ρ φ α) (s : ρ) (sent : Bytes) : Prop :=
  Aligned ((M.pending s).map M.piece) (M.rawText s)
    (M.safeText s) (M.released s) (M.shown s) (M.rewriting s)
    sent

variable {M : Machine ρ φ α} {sent : Bytes}
variable {s t : ρ} {more : List φ} {safe safeText : Bytes} {r : ρ × List α}

/- What comes in leaves the alignment as it is. -/
theorem AlignedAt.joined (hAligned : AlignedAt M s sent) (hJoined : Joined M s t more safe)
    (hSafe : ∃ str, safe = utf8 str) :
    AlignedAt M t sent := by
  unfold AlignedAt
  rw [hJoined.pending, hJoined.rawText, hJoined.safeText, hJoined.released, hJoined.shown,
    hJoined.rewriting, map_append]
  rcases hAligned.safe with ⟨whole, hWhole⟩
  rcases hSafe with ⟨str, rfl⟩
  refine ⟨?_, ?_, ?_, ⟨whole ++ str, ?_⟩, hAligned.text⟩
  · rw [take_append_of_le_length hAligned.within]
    exact hAligned.begun
  · rw [length_append]
    exact hAligned.within.trans (Nat.le_add_right _ _)
  · intro hRewriting
    rcases hAligned.ahead hRewriting with ⟨hShown, hWithin, hDrop⟩
    refine ⟨hShown, ?_, ?_⟩
    · rw [length_append]
      exact hWithin.trans (Nat.le_add_right _ _)
    · rw [drop_append_of_le_length hWithin, ← hDrop]
      exact flatMap_append
  · rw [utf8_append, hWhole]

/- The text of what was sent. -/
def sentText (M : Machine ρ φ α) (out : List α) : Bytes :=
  texts (out.map M.sentPiece)

/-
  What a relay sends from a state on: text that follows what
  was sent, in frames that are good or of its own make.
-/
structure Goes (M : Machine ρ φ α) (good : φ → Prop) (own : α → Prop)
    (safeText sent : Bytes) (r : ρ × List α) : Prop where
  aligned : AlignedAt M r.1 (sent ++ sentText M r.2)
  safe : M.safeText r.1 = safeText
  good : ∀ f ∈ M.pending r.1, good f
  own : ∀ a ∈ r.2, own a

variable {good : φ → Prop} {own : α → Prop}

theorem Goes.after {first : List α} (hOwn : ∀ a ∈ first, own a)
    (hGoes : Goes M good own safeText (sent ++ sentText M first) r) :
    Goes M good own safeText sent (r.1, first ++ r.2) where
  __ := hGoes
  aligned := by
    have hAligned := hGoes.aligned
    rw [append_assoc] at hAligned
    simpa [sentText, texts] using hAligned
  own := by
    intro a hMem
    rcases mem_append.mp hMem with hFirst | hRest
    · exact hOwn a hFirst
    · exact hGoes.own a hRest

/- Nothing goes out, and what there is waits. -/
theorem Goes.wait (hAligned : AlignedAt M s sent) (hGood : ∀ f ∈ M.pending s, good f) :
    Goes M good own (M.safeText s) sent (s, []) where
  aligned := by simpa [sentText, texts] using hAligned
  safe := rfl
  good := hGood
  own := by simp

/- A frame goes out as it came. -/
theorem Goes.frame {text : Bytes} {a : α} (hGoes : Goes M good own safeText (sent ++ text) r)
    (hText : (M.sentPiece a).text? = text) (hOwn : own a) :
    Goes M good own safeText sent (r.1, a :: r.2) := by
  have hSent : sentText M [a] = text := by simp [sentText, texts, hText]
  rw [← hSent] at hGoes
  exact hGoes.after (by simpa using hOwn)

/- A relay shows a beginning of what the guard emitted: what waits goes out by draining only. -/
structure Truthful (M : Machine ρ φ α) (own : (φ → Prop) → Nat → α → Prop) : Prop where
  drains : Drains M
  goes :
    ∀ good lastSeq t sent,
      (∀ f ∈ M.pending t, good f) →
      AlignedAt M t sent →
      Goes M good (own good (M.safeText t).length) (M.safeText t) sent (M.drain lastSeq t)

theorem emits_utf8 (M : Machine ρ φ α) (f : φ) (answers : Answers) :
    ∃ str, emits M f answers = utf8 str := by
  unfold emits
  split
  · exact ⟨_, rfl⟩
  · exact ⟨"", rfl⟩

theorem emitsAtEnd_utf8 (answer : GuardStep) :
    ∃ str, emitsAtEnd answer = utf8 str := by
  cases answer with
  | emit safe => exact ⟨safe, rfl⟩
  | block _ => exact ⟨"", rfl⟩

/- What comes in is queued, and what is due goes out. -/
theorem Truthful.joined {own : (φ → Prop) → Nat → α → Prop} (hTruthful : Truthful M own)
    {s' : ρ} {out : List α} {lastSeq : Nat}
    (hJoined : Joined M s t more safe) (hDrain : M.drain lastSeq t = (s', out))
    (hAligned : AlignedAt M s sent) (hPending : ∀ f ∈ M.pending s, good f)
    (hMore : ∀ f ∈ more, good f) (hSafe : ∃ str, safe = utf8 str) :
    Goes M good (own good (M.safeText s').length) (M.safeText s') sent (s', out) := by
  have hGood : ∀ f ∈ M.pending t, good f := by
    rw [hJoined.pending]
    exact forall_mem_append.mpr ⟨hPending, hMore⟩
  have hGoes := hTruthful.goes good lastSeq t sent hGood (hAligned.joined hJoined hSafe)
  rw [hDrain] at hGoes
  have hSame : M.safeText s' = M.safeText t := hGoes.safe
  rw [hSame]
  exact hGoes

end Machine

--
-- Anthropic And Gemini
--

/- A text of our own, within what the guard emitted. -/
def ownText (size : Nat) (text : Bytes) : Prop :=
  (∃ str, text = utf8 str) ∧ text.length ≤ size

def ownSent (good : Frame → Prop) (size : Nat) :
    Sent → Prop
| .frame f => good f
| .synth _ text => ownText size text

variable {good : Frame → Prop}

theorem Relay.drainLoop_goes (s : Relay) (frames : List Frame)
    (sent : Bytes) (size : Nat) (hGood : ∀ f ∈ frames, good f)
    (hAligned :
      Aligned (frames.map Frame.piece) s.rawText s.safeText s.released s.shown s.rewriting sent) :
    Goes relayMachine good (ownSent good size) s.safeText sent (s.drainLoop frames) := by
  induction frames generalizing s sent with
  | nil =>
    exact Goes.wait (M := relayMachine) (s := { s with pending := [] }) hAligned
      (by simp [relayMachine])
  | cons f rest ih =>
    have hRest : ∀ f ∈ rest, good f := fun g hMem => hGood g (mem_cons_of_mem f hMem)
    have hFirst : good f := hGood f mem_cons_self
    cases hText : f.text with
    | none =>
      have hPiece : f.piece = .other f.raw := by simp [Frame.piece, hText]
      rw [map_cons, hPiece] at hAligned
      simp only [drainLoop, hText]
      have hGoes := ih s sent hRest hAligned.other
      rw [← append_nil sent] at hGoes
      exact hGoes.frame (congrArg Piece.text? hPiece) hFirst
    | some text =>
      have hPiece : f.piece = .text (utf8 text) := by simp [Frame.piece, hText]
      simp only [drainLoop, hText]
      split
      · rename_i hRewriting
        refine ih s sent hRest ?_
        rw [hRewriting] at hAligned ⊢
        exact hAligned.requeue _
      · rename_i hRewriting
        have hClean : s.rewriting = false := Bool.eq_false_iff.mpr hRewriting
        split
        · exact Goes.wait (M := relayMachine) (s := { s with pending := f :: rest }) hAligned hGood
        · rename_i hFits
          rw [Nat.not_lt] at hFits
          rw [hClean] at hAligned
          split_ifs with hSame
          · rw [map_cons, hPiece] at hAligned
            have hNext := hAligned.verbatim hFits hSame
            refine Goes.frame ?_ (congrArg Piece.text? hPiece) hFirst
            exact ih
              { s with released := s.released + (utf8 text).length }
              _ hRest
              (by simpa [shown, hClean, Piece.text?] using hNext)
          · have hNext := hAligned.diverge (rest.map Frame.piece)
            exact ih
              { s with
                rewriting := true
                synthesised := s.released }
              sent hRest (by simpa [shown] using hNext)

/- The text that is left goes out in a frame of our own. -/
theorem Relay.drain_goes (s : Relay) (sent : Bytes)
    (hGood : ∀ f ∈ s.pending, good f) (hAligned : AlignedAt relayMachine s sent) :
    Goes relayMachine good (ownSent good s.safeText.length) s.safeText sent s.drain := by
  have hGoes := s.drainLoop_goes s.pending sent s.safeText.length hGood hAligned
  unfold drain
  generalize s.drainLoop s.pending = r at hGoes ⊢
  rcases r with ⟨t, out⟩
  simp only
  split_ifs with hMore
  · have hLeft :
        Aligned (t.pending.map Frame.piece) t.rawText t.safeText
          t.released t.shown t.rewriting
          (sent ++ sentText relayMachine out) :=
      hGoes.aligned
    have hShown : t.shown = t.synthesised := by simp [shown, hMore.1]
    rw [hShown, hMore.1] at hLeft
    refine ⟨?_, hGoes.safe, hGoes.good, ?_⟩
    · have hAfter :
          sentText relayMachine (out ++ [.synth t.lastIndex (t.safeText.drop t.synthesised)]) =
            sentText relayMachine out ++ t.safeText.drop t.synthesised := by
        simp [sentText, texts, relayMachine, Sent.piece, Piece.text?]
      rw [hAfter, ← append_assoc]
      simpa [AlignedAt, relayMachine, shown, hMore.1] using hLeft.flush
    · refine forall_mem_append.mpr ⟨hGoes.own, forall_mem_singleton.mpr ?_⟩
      refine ⟨hLeft.rest_text, ?_⟩
      have hSafe : t.safeText = s.safeText := hGoes.safe
      rw [hSafe, length_drop]
      exact Nat.sub_le _ _
  · exact hGoes

theorem relay_truthful :
    Truthful relayMachine ownSent where
  drains := relay_drains
  goes := fun _ _ t sent hGood hAligned => t.drain_goes sent hGood hAligned

--
-- Responses
--

section Responses

variable
  {rewriteAggregate : Bytes → Emitted → Option Bytes}
variable {lastSeq : Nat}

def ownNativeSent (rewriteAggregate : Bytes → Emitted → Option Bytes)
    (good : NativeFrame → Prop) (size : Nat) : NativeSent → Prop
| .frame f => good f
| .synth _ text _ => ownText size text
| .rewritten f b =>
    good f ∧ f.kind = .aggregate ∧
      ∃ emitted, rewriteAggregate f.raw emitted = some b

namespace NativeRelay

/- After the text that is left was sent. -/
structure Flushed (rewriteAggregate : Bytes → Emitted → Option Bytes)
    (good : NativeFrame → Prop) (size : Nat) (pieces : List Piece) (s : NativeRelay) (sent : Bytes)
    (r : NativeRelay × List NativeSent) : Prop where
  aligned :
    Aligned pieces r.1.rawText r.1.safeText r.1.released
      r.1.shown r.1.rewriting
      (sent ++ sentText (nativeMachine rewriteAggregate) r.2)
  safe : r.1.safeText = s.safeText
  pending : r.1.pending = s.pending
  own : ∀ a ∈ r.2, ownNativeSent rewriteAggregate good size a

variable (rewriteAggregate) in
/- Where it goes from a state on. -/
abbrev GoesOn (good : NativeFrame → Prop) (size : Nat) :=
  Goes (nativeMachine rewriteAggregate) good (ownNativeSent rewriteAggregate good size)

variable {good : NativeFrame → Prop} {size : Nat} {pieces : List Piece} {s : NativeRelay}
variable {sent : Bytes}

theorem flushSynth_flushed (hSize : s.safeText.length ≤ size)
    (hAligned : Aligned pieces s.rawText s.safeText s.released s.shown s.rewriting sent) :
    Flushed rewriteAggregate good size pieces s sent (s.flushSynth lastSeq) := by
  unfold flushSynth
  split_ifs with hMore
  · have hShown : s.shown = s.synthesised := by simp [shown, hMore.1]
    rw [hShown, hMore.1] at hAligned
    refine ⟨?_, rfl, rfl, ?_⟩
    · simpa [nativeMachine, shown, hMore.1, sentText, texts,
        NativeSent.piece, Piece.text?] using hAligned.flush
    · intro a hMem
      rw [mem_singleton.mp hMem]
      refine ⟨hAligned.rest_text, ?_⟩
      rw [length_drop]
      exact (Nat.sub_le _ _).trans hSize
  · refine ⟨?_, rfl, rfl, by simp⟩
    simpa [sentText, texts] using hAligned

/- A frame with no text follows the text that was left. -/
theorem Flushed.goes {flushed r : NativeRelay × List NativeSent} {next : List NativeSent}
    (hFlushed : Flushed rewriteAggregate good size pieces s sent flushed)
    (hOwn : ∀ a ∈ next, ownNativeSent rewriteAggregate good size a)
    (hNone : sentText (nativeMachine rewriteAggregate) next = [])
    (hGoes :
      GoesOn rewriteAggregate good size flushed.1.safeText
        (sent ++ sentText (nativeMachine rewriteAggregate) flushed.2) r) :
    GoesOn rewriteAggregate good size s.safeText sent (r.1, flushed.2 ++ (next ++ r.2)) := by
  rw [← hFlushed.safe]
  have hLater := hGoes
  rw [← append_nil (sent ++ _), ← hNone] at hLater
  exact (hLater.after hOwn).after hFlushed.own

theorem drainLoop_goes (s : NativeRelay) (frames : List NativeFrame) (sent : Bytes) (size : Nat)
    (hSize : s.safeText.length ≤ size) (hGood : ∀ f ∈ frames, good f)
    (hAligned :
      Aligned (frames.map NativeFrame.piece) s.rawText
        s.safeText s.released s.shown s.rewriting sent) :
    GoesOn rewriteAggregate good size s.safeText sent
      (s.drainLoop rewriteAggregate lastSeq frames) := by
  induction frames generalizing s sent with
  | nil =>
    exact Goes.wait (M := nativeMachine rewriteAggregate) (s := { s with pending := [] }) hAligned
      (by simp [nativeMachine])
  | cons f rest ih =>
    have hRest : ∀ f ∈ rest, good f := fun g hMem => hGood g (mem_cons_of_mem f hMem)
    have hFirst : good f := hGood f mem_cons_self
    have hFlush :
        f.piece = .other f.raw →
          Flushed rewriteAggregate good size (rest.map piece) s sent (s.flushSynth lastSeq) := by
      intro hPiece
      rw [map_cons, hPiece] at hAligned
      exact flushSynth_flushed hSize hAligned.other
    cases hKind : f.kind with
    | other =>
      have hPiece : f.piece = .other f.raw := by simp [piece, hKind]
      have hFlushed := hFlush hPiece
      simp only [drainLoop, hKind]
      have hOwn : ∀ a ∈ [NativeSent.frame f], ownNativeSent rewriteAggregate good size a := by
        simpa [ownNativeSent] using hFirst
      refine hFlushed.goes hOwn
        (by simp [sentText, texts, nativeMachine, NativeSent.piece, hPiece, Piece.text?]) ?_
      exact ih _ _ (by rw [hFlushed.safe]; exact hSize) hRest hFlushed.aligned
    | aggregate =>
      have hPiece : f.piece = .other f.raw := by simp [piece, hKind]
      simp only [drainLoop, hKind]
      split
      · rw [map_cons, hPiece] at hAligned
        have hGoes := ih s sent hSize hRest hAligned.other
        rw [← append_nil sent] at hGoes
        exact hGoes.frame (congrArg Piece.text? hPiece) hFirst
      · split
        · exact Goes.wait (M := nativeMachine rewriteAggregate)
            (s := { s with pending := f :: rest }) hAligned hGood
        · have hFlushed := hFlush hPiece
          have hGoes :=
            ih _ _ (by rw [hFlushed.safe]; exact hSize) hRest
              hFlushed.aligned
          rw [append_assoc]
          cases hRewrite :
              rewriteAggregate f.raw (s.flushSynth lastSeq).1.emitted with
          | none => exact hFlushed.goes (by simp) rfl hGoes
          | some b =>
            refine hFlushed.goes ?_ ?_ hGoes
            · intro a hMem
              rw [mem_singleton.mp hMem]
              exact ⟨hFirst, hKind, _, hRewrite⟩
            · simp [sentText, texts, nativeMachine, NativeSent.piece, hPiece, Piece.text?]
    | text text place =>
      have hPiece : f.piece = .text (utf8 text) := by simp [piece, hKind]
      simp only [drainLoop, hKind]
      split
      · rename_i hRewriting
        refine ih s sent hSize hRest ?_
        rw [hRewriting] at hAligned ⊢
        exact hAligned.requeue _
      · rename_i hRewriting
        have hClean : s.rewriting = false := Bool.eq_false_iff.mpr hRewriting
        split
        · exact Goes.wait (M := nativeMachine rewriteAggregate)
            (s := { s with pending := f :: rest }) hAligned hGood
        · rename_i hFits
          rw [Nat.not_lt] at hFits
          rw [hClean] at hAligned
          split_ifs with hSame
          · rw [map_cons, hPiece] at hAligned
            have hNext := hAligned.verbatim hFits hSame
            refine Goes.frame ?_ (congrArg Piece.text? hPiece) hFirst
            exact ih
              { s with
                released := s.released + (utf8 text).length
                emitted := s.emitted.push place.itemId (utf8 text) }
              _ hSize hRest
              (by simpa [shown, hClean, Piece.text?] using hNext)
          · have hNext := hAligned.diverge (rest.map piece)
            exact ih
              { s with
                rewriting := true
                synthesised := s.released }
              sent hSize hRest (by simpa [shown] using hNext)

theorem drain_goes (s : NativeRelay) (sent : Bytes) (hGood : ∀ f ∈ s.pending, good f)
    (hAligned : AlignedAt (nativeMachine rewriteAggregate) s sent) :
    GoesOn rewriteAggregate good s.safeText.length s.safeText sent
      (s.drain rewriteAggregate lastSeq) := by
  have hLoop :
      GoesOn rewriteAggregate good s.safeText.length s.safeText sent
        (s.drainLoop rewriteAggregate lastSeq s.pending) :=
    s.drainLoop_goes s.pending sent s.safeText.length (Nat.le_refl _) hGood hAligned
  unfold drain
  generalize s.drainLoop rewriteAggregate lastSeq s.pending = r at hLoop ⊢
  have hSafe : r.1.safeText = s.safeText := hLoop.safe
  have hFlushed :
      Flushed rewriteAggregate good s.safeText.length
        (r.1.pending.map piece) r.1 _
        (r.1.flushSynth lastSeq) :=
    flushSynth_flushed (congrArg length hSafe).le hLoop.aligned
  refine Goes.after (r := (_, _)) hLoop.own
    ⟨?_, hFlushed.safe.trans hSafe, ?_, hFlushed.own⟩
  · have hAfter := hFlushed.aligned
    rw [← hFlushed.pending] at hAfter
    exact hAfter
  · intro f hMem
    change f ∈ (r.1.flushSynth lastSeq).1.pending at hMem
    rw [hFlushed.pending] at hMem
    exact hLoop.good f hMem

end NativeRelay

theorem native_truthful (rewriteAggregate : Bytes → Emitted → Option Bytes) :
    Truthful (nativeMachine rewriteAggregate) (ownNativeSent rewriteAggregate) where
  drains := native_drains
  goes := fun _ _ t sent hGood hAligned => t.drain_goes sent hGood hAligned

end Responses

end Tracelane.Native
