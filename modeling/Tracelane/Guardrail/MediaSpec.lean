import Tracelane.Guardrail.Media

/-
  Where the slices of the media functions fall.

  A declared type is cut four and five bytes before the end of its subtype, which may lie inside a
  character.  A data URI is cut next to ASCII text only.
-/

namespace Tracelane.Guardrail

open StrSlice Option List Bool

--
-- Suffixes
--

/- The text `n` bytes before the end starts in a character. -/
def cutsAt (sub : List Char) (n : Nat) : Bool :=
  n ≤ byteLen sub ∧ sliceFrom sub (byteLen sub - n) = none

theorem suffix_unique {cs s t : List Char} (hS : s <:+ cs)
    (hT : t <:+ cs) (hLen : byteLen s = byteLen t) :
    s = t := by
  rcases suffix_or_suffix_of_suffix hS hT with ⟨front, hFront⟩ | ⟨front, hFront⟩
  · have hZero := congrArg byteLen hFront
    rw [byteLen_append, hLen, Nat.add_eq_right, byteLen_eq_zero_iff] at hZero
    simpa [hZero] using hFront
  · have hZero := congrArg byteLen hFront
    rw [byteLen_append, hLen, Nat.add_eq_right, byteLen_eq_zero_iff] at hZero
    simpa [hZero] using hFront.symm

theorem endsIn_eq_none_iff (sub suffix : List Char) :
    endsIn sub suffix = none ↔ cutsAt sub (byteLen suffix) = true := by
  unfold endsIn cutsAt
  by_cases hFits : byteLen suffix ≤ byteLen sub
  · simp [hFits]
  · simp [hFits]

def textSuffix (suffix sub : List Char) : Bool :=
  (suffix.map Char.toLower).isSuffixOf (sub.map Char.toLower)

/- A slice that returns compares the right text. -/
theorem endsIn_eq_some {sub suffix : List Char} {b : Bool} (hEnds : endsIn sub suffix = some b) :
    b = textSuffix suffix sub := by
  rw [Bool.eq_iff_iff, textSuffix, isSuffixOf_iff_suffix]
  unfold endsIn at hEnds
  split_ifs at hEnds with hFits
  · rcases map_eq_some_iff.mp hEnds with ⟨tail, hSlice, hSame⟩
    rcases sliceFrom_eq_some_iff.mp hSlice with ⟨front, hSub, hFront⟩
    have hLen := congrArg byteLen hSub
    rw [byteLen_append] at hLen
    have hTail : tail.map Char.toLower <:+ sub.map Char.toLower :=
      ⟨front.map Char.toLower, by rw [hSub, map_append]⟩
    rw [← hSame, eqIgnoreAsciiCase, beq_iff_eq]
    constructor
    · intro hEq
      rw [hEq]
      exact hTail
    · intro hSuffix
      apply suffix_unique hSuffix hTail
      rw [byteLen_map_toLower, byteLen_map_toLower]
      omega
  · have hFalse : b = false := by simpa using hEnds.symm
    subst hFalse
    simp only [false_eq_true, false_iff]
    rintro ⟨front, hFront⟩
    have hLen := congrArg byteLen hFront
    rw [byteLen_append, byteLen_map_toLower, byteLen_map_toLower] at hLen
    omega

--
-- Declared Types
--

/- A type whose payload is binary, by its name. -/
def binaryType (mime : List Char) : Bool :=
  match splitOnce '/' (essence mime) with
  | none => false
  | some (top, sub) =>
      !textSuffix (chars "+json") sub && !textSuffix (chars "+xml") sub && binaryPair top sub

/- A type whose subtype is cut inside a character. -/
def cutsCharacter (mime : List Char) : Bool :=
  match splitOnce '/' (essence mime) with
  | none => false
  | some (_, sub) => cutsAt sub 5 || cutsAt sub 4

theorem isBinaryMime_eq_binaryType {mime : List Char} {b : Bool}
    (hBinary : isBinaryMime mime = some b) :
    b = binaryType mime := by
  unfold isBinaryMime at hBinary
  unfold binaryType
  cases hSplit : splitOnce '/' (essence mime) with
  | none => simpa [hSplit] using hBinary.symm
  | some pair =>
    rcases pair with ⟨top, sub⟩
    simp only [hSplit, bind_eq_bind, bind_eq_some_iff] at hBinary
    rcases hBinary with ⟨json, hJson, hRest⟩
    have hJson' := endsIn_eq_some hJson
    simp only
    cases json with
    | true =>
      simp only [if_true, some.injEq] at hRest
      rw [← hJson', ← hRest]
      rfl
    | false =>
      simp only [false_eq_true, if_false, bind_eq_some_iff] at hRest
      rcases hRest with ⟨xml, hXml, hRest⟩
      have hXml' := endsIn_eq_some hXml
      cases xml with
      | true =>
        simp only [if_true, some.injEq] at hRest
        rw [← hJson', ← hXml', ← hRest]
        rfl
      | false =>
        simp only [false_eq_true, if_false, some.injEq] at hRest
        rw [← hJson', ← hXml', ← hRest]
        rfl

/- A text in `+json` is not cut before its last four bytes. -/
theorem not_cutsAt_four {sub : List Char} (hEnds : endsIn sub (chars "+json") = some true) :
    cutsAt sub 4 = false := by
  unfold endsIn at hEnds
  split_ifs at hEnds with hFits
  · rcases map_eq_some_iff.mp hEnds with ⟨tail, hSlice, hSame⟩
    rcases sliceFrom_eq_some_iff.mp hSlice with ⟨front, hSub, hFront⟩
    rw [eqIgnoreAsciiCase, beq_iff_eq, chars_eq_toList] at hSame
    cases tail with
    | nil => simp at hSame
    | cons c tail =>
      have hTail : byteLen tail = 4 := by
        rw [← byteLen_map_toLower, ← (cons.inj hSame).2]
        decide
      have hLen := congrArg byteLen hSub
      have hRest : sliceFrom sub (byteLen sub - 4) = some tail := by
        apply sliceFrom_eq_some_iff.mpr
        refine ⟨front ++ [c], by simp [hSub], ?_⟩
        simp only [byteLen_append, byteLen_cons, byteLen_nil] at hLen ⊢
        omega
      simp [cutsAt, hRest]
  · simp at hEnds

theorem isBinaryMime_eq_none_iff (mime : List Char) :
    isBinaryMime mime = none ↔ cutsCharacter mime = true := by
  unfold isBinaryMime cutsCharacter
  cases hSplit : splitOnce '/' (essence mime) with
  | none => simp
  | some pair =>
    rcases pair with ⟨top, sub⟩
    have hFive := endsIn_eq_none_iff sub (chars "+json")
    have hFour := endsIn_eq_none_iff sub (chars "+xml")
    simp only [show byteLen (chars "+json") = 5 by decide]
      at hFive
    simp only [show byteLen (chars "+xml") = 4 by decide]
      at hFour
    simp only [or_eq_true, ← hFive, ← hFour]
    cases hJson : endsIn sub (chars "+json") with
    | none => simp
    | some json =>
      cases json with
      | true =>
        have hWhole := not_cutsAt_four hJson
        rw [hFour, hWhole]
        simp
      | false =>
        cases hXml : endsIn sub (chars "+xml") with
        | none => simp
        | some xml => cases xml <;> simp

--
-- Data URIs
--

/- The scheme of a data URI does not reach into a text that starts with no letter of it. -/
theorem scheme_before {scheme back front mark : List Char}
    (hScheme : eqIgnoreAsciiCase (chars "data:") scheme = true)
    (hSame : scheme ++ back = front ++ mark)
    (hMark : ∀ c ∈ mark.head?, c.toLower ∉ (chars "data:").map Char.toLower) :
    ∃ rest, front = scheme ++ rest := by
  rw [eqIgnoreAsciiCase, beq_iff_eq] at hScheme
  rcases append_eq_append_iff.mp hSame with ⟨rest, hFront, _⟩ | ⟨extra, hOver, hMarked⟩
  · exact ⟨rest, hFront⟩
  · cases extra with
    | nil => exact ⟨[], by simpa using hOver.symm⟩
    | cons c extra =>
      have hMem : c.toLower ∈ scheme.map Char.toLower := by
        rw [hOver]
        simp
      rw [← hScheme] at hMem
      exact absurd hMem (hMark c (by simp [hMarked]))

/- No slice of a data URI falls inside a character. -/
theorem base64DataUri_isSome (s : List Char) :
    (base64DataUri s).isSome := by
  unfold base64DataUri
  split_ifs with hScheme
  · split
    · rfl
    · rename_i head payload hSplit
      split
      · rfl
      · rename_i tail hTail
        split
        · rename_i hMarker
          rcases (any_eq_true _ _).mp hScheme with ⟨scheme, hTo, hScheme⟩
          rcases sliceTo_eq_some_iff.mp hTo with ⟨back, hS, hSchemeLen⟩
          rcases splitOnce_eq_some_iff.mp hSplit with ⟨hS', _⟩
          rcases scheme_before hScheme (hS.symm.trans hS') (by rintro c ⟨⟩; decide) with
            ⟨rest, hHead⟩
          rcases sliceFrom_eq_some_iff.mp hTail with ⟨front, hHead', hFrontLen⟩
          have hSemi : ∀ c ∈ tail.head?, c.toLower ∉ (chars "data:").map Char.toLower := by
            intro c hFirst
            have hLower := congrArg head? (beq_iff_eq.mp hMarker)
            rw [head?_map, hFirst] at hLower
            rw [some.inj hLower]
            decide
          rcases scheme_before hScheme (hHead.symm.trans hHead') hSemi with ⟨mime, hFront⟩
          have hFrom : sliceFrom head 5 = some (mime ++ tail) := by
            apply sliceFrom_eq_some_iff.mpr
            refine ⟨scheme, ?_, hSchemeLen⟩
            rw [hHead', hFront, append_assoc]
          have hLen : byteLen head - 7 = 5 + byteLen mime := by
            rw [← hFrontLen, hFront, byteLen_append, hSchemeLen]
          have hMime : sliceTo (mime ++ tail) (byteLen mime) = some mime :=
            sliceTo_eq_some_iff.mpr ⟨tail, rfl, rfl⟩
          simp [slice, hLen, hFrom, hMime]
        · rfl
  · rfl

end Tracelane.Guardrail
