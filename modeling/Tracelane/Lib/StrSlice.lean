import Mathlib.Algebra.Order.Ring.Int
import Mathlib.Data.List.Basic

/-
  Text cut at byte offsets.

  A character takes one to four bytes, so an offset may fall
  inside of one; a slice there has no text.
-/

namespace StrSlice

open List Option

--
-- Lengths
--

/- The length of a text in bytes. -/
def byteLen (cs : List Char) : Nat :=
  (cs.map Char.utf8Size).sum

@[simp] theorem byteLen_nil :
    byteLen [] = 0 :=
  rfl

@[simp] theorem byteLen_cons (c : Char) (cs : List Char) :
    byteLen (c :: cs) = c.utf8Size + byteLen cs := by
  simp [byteLen]

@[simp] theorem byteLen_append (cs ds : List Char) :
    byteLen (cs ++ ds) = byteLen cs + byteLen ds := by
  simp [byteLen]

theorem byteLen_eq_zero_iff (cs : List Char) :
    byteLen cs = 0 ↔ cs = [] := by
  cases cs with
  | nil => simp
  | cons c cs =>
    have := c.utf8Size_pos
    simp
    omega

--
-- Slices
--

/- The text before a byte offset and the one from it on. -/
def splitAtByte : List Char → Nat → Option (List Char × List Char)
| cs, 0 => some ([], cs)
| [], _ + 1 => none
| c :: cs, n + 1 =>
    if c.utf8Size ≤ n + 1 then
      (splitAtByte cs (n + 1 - c.utf8Size)).map (fun p => (c :: p.1, p.2))
    else none

variable {cs ds : List Char} {n : Nat}

theorem splitAtByte_eq_some_iff {front back : List Char} :
    splitAtByte cs n = some (front, back) ↔ cs = front ++ back ∧ byteLen front = n := by
  fun_induction splitAtByte cs n generalizing front with
  | case1 cs =>
    rw [some.injEq, Prod.mk.injEq, byteLen_eq_zero_iff]
    constructor
    · rintro ⟨rfl, rfl⟩
      exact ⟨rfl, rfl⟩
    · rintro ⟨hCs, rfl⟩
      exact ⟨rfl, hCs⟩
  | case2 n => cases front <;> simp
  | case3 c cs n hFits ih =>
    cases front with
    | nil => simp
    | cons d front =>
      simp only [map_eq_some_iff, Prod.exists, Prod.mk.injEq, cons.injEq, cons_append, byteLen_cons]
      constructor
      · rintro ⟨front, back, hRest, ⟨rfl, rfl⟩, rfl⟩
        rcases ih.mp hRest with ⟨hCs, hLen⟩
        exact ⟨⟨rfl, hCs⟩, by omega⟩
      · rintro ⟨⟨rfl, hCs⟩, hLen⟩
        exact ⟨front, back, ih.mpr ⟨hCs, by omega⟩, ⟨rfl, rfl⟩, rfl⟩
  | case4 c cs n hLong =>
    cases front with
    | nil => simp
    | cons d front =>
      simp only [reduceCtorEq, cons.injEq, cons_append, byteLen_cons, false_iff]
      rintro ⟨⟨rfl, _⟩, hLen⟩
      omega

/- The text from a byte offset on. -/
def sliceFrom (cs : List Char) (n : Nat) : Option (List Char) :=
  (splitAtByte cs n).map Prod.snd

theorem sliceFrom_eq_some_iff :
    sliceFrom cs n = some ds ↔ ∃ front, cs = front ++ ds ∧ byteLen front = n := by
  simp [sliceFrom, splitAtByte_eq_some_iff]

/- The text up to a byte offset. -/
def sliceTo (cs : List Char) (n : Nat) : Option (List Char) :=
  (splitAtByte cs n).map Prod.fst

theorem sliceTo_eq_some_iff :
    sliceTo cs n = some ds ↔ ∃ back, cs = ds ++ back ∧ byteLen ds = n := by
  simp [sliceTo, splitAtByte_eq_some_iff]

/- The text between two byte offsets. -/
def slice (cs : List Char) (start stop : Nat) : Option (List Char) :=
  if start ≤ stop then
    (sliceFrom cs start).bind (fun rest => sliceTo rest (stop - start))
  else none

/- Split at the first occurrence of a character. -/
def splitOnce (sep : Char) :
    List Char → Option (List Char × List Char)
| [] => none
| c :: cs =>
    if c = sep then some ([], cs)
    else (splitOnce sep cs).map (fun p => (c :: p.1, p.2))

theorem splitOnce_eq_some_iff {sep : Char} {head rest : List Char} :
    splitOnce sep cs = some (head, rest) ↔ cs = head ++ sep :: rest ∧ sep ∉ head := by
  induction cs generalizing head with
  | nil => simp [splitOnce]
  | cons c cs ih =>
    unfold splitOnce
    by_cases hSep : c = sep
    · rw [if_pos hSep]
      cases head with
      | nil => simp [hSep, eq_comm]
      | cons d head =>
        simp only [some.injEq, Prod.mk.injEq, cons_append, cons.injEq, mem_cons]
        constructor
        · intro hEq
          simp at hEq
        · rintro ⟨⟨hHead, _⟩, hNot⟩
          exact absurd (Or.inl (hSep.symm.trans hHead)) hNot
    · rw [if_neg hSep]
      cases head with
      | nil => simp [hSep]
      | cons d head =>
        simp only [map_eq_some_iff, Prod.mk.injEq, Prod.exists, cons_append, cons.injEq,
          mem_cons, not_or]
        constructor
        · rintro ⟨head', rest', hRest, ⟨hHead, hSame⟩, hTail⟩
          subst hSame hTail
          rcases ih.mp hRest with ⟨hCs, hNot⟩
          refine ⟨⟨hHead, hCs⟩, ?_, hNot⟩
          rw [← hHead]
          exact fun h => hSep h.symm
        · rintro ⟨⟨hHead, hCs⟩, _, hNot⟩
          exact ⟨head, rest, ih.mpr ⟨hCs, hNot⟩, ⟨hHead, rfl⟩, rfl⟩

/- Two texts are equal up to the case of ASCII letters. -/
def eqIgnoreAsciiCase (cs ds : List Char) : Bool :=
  cs.map Char.toLower == ds.map Char.toLower

theorem utf8Size_toLower (c : Char) :
    c.toLower.utf8Size = c.utf8Size := by
  unfold Char.toLower
  split_ifs with hUpper
  · have hLower : c.val + ('a'.val - 'A'.val) ≤ 0x7f := by
      have hTop := hUpper.2
      have hBottom := hUpper.1
      simp only [ge_iff_le, UInt32.le_iff_toNat_le] at *
      simp only [UInt32.toNat_add] at *
      simp at *
      omega
    have hSmall : c.val ≤ 0x7f := UInt32.le_trans hUpper.2 (by decide)
    have hOne : ∀ d : Char, d.val ≤ 0x7f → d.utf8Size = 1 := by
      intro d hAscii
      exact if_pos hAscii
    rw [hOne _ hLower, hOne _ hSmall]
  · rfl

theorem byteLen_map_toLower (cs : List Char) :
    byteLen (cs.map Char.toLower) = byteLen cs := by
  induction cs with
  | nil => rfl
  | cons c cs ih => simp [utf8Size_toLower, ih]

end StrSlice
