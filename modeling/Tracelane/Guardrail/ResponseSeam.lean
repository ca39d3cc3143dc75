import Tracelane.Chat.Stream
import Tracelane.Lib.Bytes
import Tracelane.Lib.StrSlice

/-
  The response guard: it judges the text of an answer as it grows, and releases what lies before the
  hold-back.

  The rails that run on a text, and the rewriting of what they allow, are a parameter.  Texts are
  cut at byte offsets; a cut inside a character has no result.

  A steady seam never blocks and rewrites only text within the hold-back; then everything it
  releases is the final text, however the answer was cut into deltas.
-/

namespace Tracelane.Seam

open Chat List
open StrSlice

--
-- The Guard
--

/- What the rails say to a text, and how it is rewritten. -/
structure Rails where
  holdback : Nat
  /- Nothing is released before the end. -/
  holds : Bool
  /- A check after the answer runs, once. -/
  posts : Bool
  /- A text so far: a block, or what it is rewritten to. -/
  judge : String → Option Usage → Except String String
  /- The whole text. -/
  judgeEnd : String → Option Usage → Except String String
  /- Why output outside the text is refused, if it is. -/
  refuses : Option String

structure ResponseGuard where
  full : String := ""
  emitted : Nat := 0
  blocked : Bool := false
  postDone : Bool := false
deriving DecidableEq

/- What stands before the hold-back. -/
def settled (holdback : Nat) (cs : List Char) : List Char :=
  cs.take (cs.length - holdback)

def holdbackBoundary (holdback : Nat) (cs : List Char) : Nat :=
  byteLen (settled holdback cs)

namespace ResponseGuard

variable (rails : Rails)

def refuseUnscannedOutput (g : ResponseGuard) : Option String × ResponseGuard :=
  match rails.refuses with
  | none => (none, g)
  | some reason => (some reason, { g with blocked := true })

/- Judge the text so far and release what is settled. -/
def onDelta (g : ResponseGuard) (delta : String) (usage : Option Usage) :
    Option (GuardStep × ResponseGuard) :=
  if g.blocked || g.postDone then some (.emit "", g)
  else
    let g := { g with full := g.full ++ delta }
    match rails.judge g.full usage with
    | .error reason => some (.block reason, { g with blocked := true })
    | .ok transformed =>
        let cs := transformed.toList
        let safe := holdbackBoundary rails.holdback cs
        if rails.holds ∨ safe ≤ g.emitted then
          some (.emit "", g)
        else
          (slice cs g.emitted safe).map (fun chunk =>
            (.emit (.ofList chunk), { g with emitted := safe }))

/- Judge the whole text and release the rest. -/
def onEnd (g : ResponseGuard) (usage : Option Usage) :
    Option (GuardStep × ResponseGuard) :=
  if g.blocked || g.postDone then some (.emit "", g)
  else
    let g := { g with postDone := rails.posts }
    match rails.judgeEnd g.full usage with
    | .error reason => some (.block reason, { g with blocked := true })
    | .ok transformed =>
        let cs := transformed.toList
        if byteLen cs ≤ g.emitted then some (.emit "", g)
        else
          (sliceFrom cs g.emitted).map (fun tail =>
            (.emit (.ofList tail),
              { g with emitted := byteLen cs }))

end ResponseGuard

--
-- Steady Seams
--

/- Rails that never block, and a rewriting that is stable for text older than the hold-back. -/
structure Steady (rails : Rails) (final : String → String) : Prop where
  scanned : rails.refuses = none
  ends : ∀ text usage, rails.judgeEnd text usage = .ok (final text)
  passes :
    ∀ text usage, ∃ transformed,
      rails.judge text usage = .ok transformed ∧
        (rails.holds = false →
          ∀ more, settled rails.holdback transformed.toList <+: (final (text ++ more)).toList)

/- What a guard has released so far. -/
structure Released (rails : Rails) (final : String → String) (g : ResponseGuard)
    (out : List Char) : Prop where
  going : g.blocked = false ∧ g.postDone = false
  length : g.emitted = byteLen out
  stable : ∀ more, out <+: (final (g.full ++ more)).toList

section Steady

variable {rails : Rails} {final : String → String} {g : ResponseGuard}
variable {out : List Char}

theorem released_new :
    Released rails final {} [] :=
  ⟨⟨rfl, rfl⟩, rfl, fun _ => nil_prefix⟩

theorem slice_between (cs chunk rest : List Char) :
    slice (cs ++ (chunk ++ rest)) (byteLen cs) (byteLen (cs ++ chunk)) = some chunk := by
  have hFrom : sliceFrom (cs ++ (chunk ++ rest)) (byteLen cs) = some (chunk ++ rest) :=
    sliceFrom_eq_some_iff.mpr ⟨cs, rfl, rfl⟩
  have hTo : sliceTo (chunk ++ rest) (byteLen chunk) = some chunk :=
    sliceTo_eq_some_iff.mpr ⟨rest, rfl, rfl⟩
  unfold slice
  rw [byteLen_append, if_pos (Nat.le_add_right _ _), hFrom,
    Option.bind_some, Nat.add_sub_cancel_left, hTo]

/- Of two starts of one text, the longer extends the other. -/
theorem extends_of_prefixes {cs ds text : List Char} (hShort : cs <+: text)
    (hLong : ds <+: text) (hLess : byteLen cs < byteLen ds) :
    ∃ chunk, ds = cs ++ chunk := by
  rcases prefix_or_prefix_of_prefix hShort hLong with ⟨chunk, hChunk⟩ | ⟨back, hBack⟩
  · exact ⟨chunk, hChunk.symm⟩
  · rw [← hBack, byteLen_append] at hLess
    omega

theorem onDelta_released (hSteady : Steady rails final) (hReleased : Released rails final g out)
    (delta : String) (usage : Option Usage) :
    ∃ text g',
      g.onDelta rails delta usage = some (.emit text, g') ∧
        Released rails final g' (out ++ text.toList) ∧
        g'.full = g.full ++ delta := by
  have hLater : ∀ more, out <+: (final (g.full ++ delta ++ more)).toList := by
    intro more
    rw [String.append_assoc]
    exact hReleased.stable (delta ++ more)
  rcases hSteady.passes (g.full ++ delta) usage with ⟨transformed, hJudge, hSettled⟩
  simp only [ResponseGuard.onDelta, hReleased.going.1, hReleased.going.2, Bool.or_self,
    Bool.false_eq_true, if_false, hJudge]
  split
  · refine ⟨"", _, rfl, ⟨⟨rfl, rfl⟩, ?_, ?_⟩, rfl⟩
    · simpa using hReleased.length
    · simpa using hLater
  · rename_i hMore
    rw [not_or, Bool.not_eq_true, not_le] at hMore
    rcases hMore with ⟨hGoes, hLess⟩
    rw [hReleased.length] at hLess
    have hStable := hSettled hGoes
    rcases extends_of_prefixes (hLater "") (hStable "") hLess with ⟨chunk, hChunk⟩
    have hText :
        transformed.toList =
          out ++ (chunk ++
            transformed.toList.drop (transformed.toList.length - rails.holdback)) := by
      rw [← append_assoc, ← hChunk]
      exact (take_append_drop _ _).symm
    have hSlice :
        slice transformed.toList g.emitted (holdbackBoundary rails.holdback transformed.toList) =
          some chunk := by
      unfold holdbackBoundary
      rw [hChunk, hReleased.length]
      conv_lhs =>
        rw [hText]
      exact slice_between _ _ _
    refine ⟨.ofList chunk, _, by rw [hSlice]; rfl, ?_, rfl⟩
    rw [String.toList_ofList, ← hChunk]
    exact ⟨⟨rfl, rfl⟩, rfl, hStable⟩

theorem onEnd_released (hSteady : Steady rails final)
    (hReleased : Released rails final g out) (usage : Option Usage) :
    ∃ text g',
      g.onEnd rails usage = some (.emit text, g') ∧ out ++ text.toList = (final g.full).toList := by
  have hStart := hReleased.stable ""
  rw [String.append_empty] at hStart
  rcases hStart with ⟨rest, hRest⟩
  simp only [ResponseGuard.onEnd, hReleased.going.1, hReleased.going.2, Bool.or_self,
    Bool.false_eq_true, if_false, hSteady.ends, hReleased.length, ← hRest, byteLen_append]
  split_ifs with hShort
  · have hNil : rest = [] := by
      apply (byteLen_eq_zero_iff rest).mp
      omega
    exact ⟨"", _, rfl, by simp [hNil]⟩
  · have hFrom : sliceFrom (out ++ rest) (byteLen out) = some rest :=
      sliceFrom_eq_some_iff.mpr ⟨out, rfl, rfl⟩
    refine ⟨.ofList rest, _, by rw [hFrom]; rfl, ?_⟩
    rw [String.toList_ofList]

end Steady

end Tracelane.Seam
