import Mathlib.Data.List.Nodup
import Tracelane.Guardrail.Reversible
import Tracelane.Lib.StrSlice

/-
  Placeholders are told apart wherever they stand.

  A placeholder opens with two braces, closes with two, and has none between.  So no placeholder
  begins inside another, and its number can be read off.
-/

namespace Tracelane.Guardrail

open List Nat
open Holes
open StrSlice (splitOnce splitOnce_eq_some_iff)

--
-- One Placeholder
--

/- What stands between the braces of a placeholder. -/
def inner (category : Category) (idx : Nat) : List Char :=
  ['T', 'L', '_', 'R', 'E', 'D', 'A', 'C', 'T', ':'] ++
    (chars category.name ++ ':' :: toDigits 10 idx)

variable (category : Category) (idx : Nat)

theorem placeholder_eq_inner :
    placeholder category idx = '\x7b' :: '\x7b' :: (inner category idx ++ ['\x7d', '\x7d']) := by
  simp [placeholder, redactOpen, inner]

/- Neither an opening nor a closing brace. -/
def noBrace (c : Char) : Bool :=
  c ≠ '\x7b' && c ≠ '\x7d'

theorem noBrace_name :
    category.name.toList.all noBrace = true := by
  cases category <;> decide

theorem noBrace_digit {c : Char} (hDigit : c.isDigit = true) :
    noBrace c = true := by
  unfold noBrace
  rw [Bool.and_eq_true, decide_eq_true_eq, decide_eq_true_eq]
  constructor
  · rintro rfl
    revert hDigit
    decide
  · rintro rfl
    revert hDigit
    decide

/- Nothing between the braces is a brace. -/
theorem noBrace_inner :
    (inner category idx).all noBrace = true := by
  have hDigits : (toDigits 10 idx).all noBrace = true := by
    rw [all_eq_true]
    intro c hMem
    exact noBrace_digit (isDigit_of_mem_toDigits (by decide) (by decide) hMem)
  have hTail : (':' :: toDigits 10 idx).all noBrace = true := by
    rw [all_cons, hDigits]
    decide
  unfold inner
  rw [all_append, all_append, chars_eq_toList, noBrace_name, hTail]
  decide

/- Texts that end at the same separator for the first time. -/
theorem eq_of_separated {sep : Char} {cs ds xs ys : List Char}
    (hCs : sep ∉ cs) (hDs : sep ∉ ds) (hSame : cs ++ sep :: xs = ds ++ sep :: ys) :
    cs = ds ∧ xs = ys := by
  have hLeft : splitOnce sep (cs ++ sep :: xs) = some (cs, xs) :=
    splitOnce_eq_some_iff.mpr ⟨rfl, hCs⟩
  have hRight := splitOnce_eq_some_iff.mpr ⟨hSame, hDs⟩
  rw [hLeft, Option.some.injEq, Prod.mk.injEq] at hRight
  exact hRight

theorem not_mem_inner :
    '\x7d' ∉ inner category idx := by
  intro hMem
  have hPlain := all_eq_true.mp (noBrace_inner category idx) _ hMem
  revert hPlain
  decide

/- The number of a placeholder can be read off. -/
theorem placeholder_index {category category' : Category} {idx idx' : Nat}
    (hSame : placeholder category idx = placeholder category' idx') :
    idx = idx' := by
  have hColon : ∀ category : Category, ':' ∉ category.name.toList := by
    intro category
    cases category <;> decide
  simp only [placeholder_eq_inner, cons.injEq, true_and] at hSame
  have hInner :=
    (eq_of_separated (not_mem_inner category idx) (not_mem_inner category' idx') hSame).1
  simp only [inner, chars_eq_toList, append_cancel_left_eq] at hInner
  have hDigits := (eq_of_separated (hColon category) (hColon category') hInner).2
  have hRead := congrArg (ofDigitChars 10 · 0) hDigits
  simpa [ofDigitChars_toDigits] using hRead

/- Behind its first two characters a placeholder opens none. -/
theorem head_of_drop {category : Category} {idx j : Nat} {c : Char} {rest : List Char}
    (hJ : 2 ≤ j) (hDrop : (placeholder category idx).drop j = c :: rest) :
    c ≠ '\x7b' := by
  have hMem : c ∈ inner category idx ++ ['\x7d', '\x7d'] := by
    rw [placeholder_eq_inner] at hDrop
    have hSuffix : (inner category idx ++ ['\x7d', '\x7d']).drop (j - 2) = c :: rest := by
      rw [← hDrop]
      rcases j with _ | _ | j
      · omega
      · omega
      · rfl
    apply mem_of_mem_drop
    rw [hSuffix]
    exact mem_cons_self
  rcases mem_append.mp hMem with hInner | hClose
  · have hPlain := all_eq_true.mp (noBrace_inner category idx) c hInner
    simp only [noBrace, Bool.and_eq_true, decide_eq_true_eq] at hPlain
    exact hPlain.1
  · simp only [mem_cons, not_mem_nil, or_false, or_self] at hClose
    rw [hClose]
    decide

/- Behind its first character only its second is a brace. -/
theorem drop_cases {category : Category} {idx j : Nat} (hJ : 0 < j)
    (hLen : j < (placeholder category idx).length) :
    ∃ c rest,
      (placeholder category idx).drop j = c :: rest ∧
        (c = '\x7b' → rest = inner category idx ++ ['\x7d', '\x7d']) := by
  cases hDrop : (placeholder category idx).drop j with
  | nil =>
    rw [drop_eq_nil_iff] at hDrop
    omega
  | cons c rest =>
    refine ⟨c, rest, rfl, fun hBrace => ?_⟩
    rcases lt_or_ge j 2 with hOne | hTwo
    · have hJOne : j = 1 := by omega
      subst hJOne
      rw [placeholder_eq_inner, drop_one, tail_cons, cons.injEq] at hDrop
      exact hDrop.2.symm
    · exact absurd hBrace (head_of_drop hTwo hDrop)

/- No placeholder overlaps another. -/
theorem placeholder_apart (category category' : Category) (idx idx' : Nat) :
    Apart (placeholder category idx) (placeholder category' idx') where
  ahead := by
    intro j hJ hLen x hPrefix
    rcases drop_cases hJ hLen with ⟨c, rest, hDrop, hRest⟩
    rw [hDrop, placeholder_eq_inner, cons_append, cons_prefix_cons] at hPrefix
    rw [hRest hPrefix.1] at hPrefix
    simp [inner] at hPrefix
  inside := by
    intro j hLen hOther x hPrefix
    rcases Nat.eq_zero_or_pos j with hZero | hJ
    · subst hZero
      have hNe : placeholder category idx ≠ placeholder category' idx' := by
        rcases hOther with hAbsurd | hNe
        · exact absurd hAbsurd (lt_irrefl 0)
        · exact hNe
      apply hNe
      rw [drop_zero, placeholder_eq_inner, placeholder_eq_inner] at hPrefix
      simp only [cons_append, cons_prefix_cons, true_and] at hPrefix
      rcases hPrefix with ⟨rest, hRest⟩
      simp only [append_assoc, cons_append] at hRest
      rw [placeholder_eq_inner, placeholder_eq_inner,
        (eq_of_separated (not_mem_inner category idx) (not_mem_inner category' idx') hRest).1]
    · rcases drop_cases hJ hLen with ⟨c, rest, hDrop, hRest⟩
      rw [hDrop, placeholder_eq_inner, cons_append, cons_prefix_cons] at hPrefix
      rw [hRest hPrefix.1.symm] at hPrefix
      simp [inner] at hPrefix

--
-- Numbered Entries
--

/- The placeholders of a list carry consecutive numbers. -/
def Numbered : Nat → List RedactionEntry → Prop
| _, [] => True
| n, e :: es =>
    e.placeholder = placeholder e.category n ∧ Numbered (n + 1) es

theorem numbered_append_iff (n : Nat) (es es' : List RedactionEntry) :
    Numbered n (es ++ es') ↔ Numbered n es ∧ Numbered (n + es.length) es' := by
  induction es generalizing n with
  | nil => simp [Numbered]
  | cons e es ih =>
    rw [cons_append, Numbered, Numbered, ih, and_assoc, length_cons, add_right_comm, add_assoc]

variable {es : List RedactionEntry} {n : Nat}

theorem Numbered.mem (hNumbered : Numbered n es) {e : RedactionEntry} (hMem : e ∈ es) :
    ∃ k, n ≤ k ∧ k < n + es.length ∧ e.placeholder = placeholder e.category k := by
  induction es generalizing n with
  | nil => cases hMem
  | cons first es ih =>
    rcases mem_cons.mp hMem with hFirst | hRest
    · subst hFirst
      refine ⟨n, le_refl n, ?_, hNumbered.1⟩
      simp
    · rcases ih hNumbered.2 hRest with ⟨k, hLow, hHigh, hMark⟩
      refine ⟨k, by omega, ?_, hMark⟩
      rw [length_cons]
      omega

theorem Numbered.nodup (hNumbered : Numbered n es) :
    (es.map RedactionEntry.placeholder).Nodup := by
  induction es generalizing n with
  | nil => exact nodup_nil
  | cons first es ih =>
    rw [map_cons, nodup_cons]
    refine ⟨?_, ih hNumbered.2⟩
    intro hMem
    rcases mem_map.mp hMem with ⟨e, hE, hSame⟩
    rcases Numbered.mem hNumbered.2 hE with ⟨k, hLow, _, hMark⟩
    rw [hMark, hNumbered.1] at hSame
    have := placeholder_index hSame
    omega

/- A placeholder belongs to one entry. -/
theorem Numbered.eq_of_placeholder (hNumbered : Numbered n es)
    {e e' : RedactionEntry} (hMem : e ∈ es) (hMem' : e' ∈ es)
    (hSame : e.placeholder = e'.placeholder) :
    e = e' :=
  inj_on_of_nodup_map hNumbered.nodup hMem hMem' hSame

--
-- Reinsertion
--

/- A text whose placeholders are known. -/
abbrev Marked :=
  List (Char ⊕ RedactionEntry)

/- A marked text as it is sent. -/
def Marked.sent (segs : Marked) : List Char :=
  render RedactionEntry.placeholder segs

/- A marked text as the user wrote it. -/
def Marked.meant (segs : Marked) : List Char :=
  render RedactionEntry.original segs

/- Nothing in a text reads as the start of a placeholder. -/
def OpenFree (text : List Char) : Prop :=
  ¬ redactOpen <:+: text

theorem placeholder_ne_nil :
    placeholder category idx ≠ [] := by
  simp [placeholder_eq_inner]

variable {segs : Marked}

/- Where the user wrote no placeholder, each is a hole. -/
theorem bare_placeholder (hFree : OpenFree segs.meant) (category : Category) (idx : Nat) :
    ¬ (placeholder category idx).map .inl <:+: segs := by
  intro hInfix
  rcases hInfix with ⟨front, back, hSegs⟩
  apply hFree
  refine ⟨render RedactionEntry.original front,
    (chars category.name ++
      ':' :: (toDigits 10 idx ++ ['\x7d', '\x7d'])) ++ render RedactionEntry.original back, ?_⟩
  rw [Marked.meant, ← hSegs, render_append, render_append, render_raw, placeholder]
  simp only [append_assoc]

/- Every hole of a text is written by a placeholder. -/
def Marked.Placed (segs : Marked) : Prop :=
  ∀ e, .inr e ∈ segs → ∃ idx, e.placeholder = placeholder e.category idx

/- Replacing one placeholder fills its holes. -/
theorem replaceAll_sent (hFree : OpenFree segs.meant) (hPlaced : segs.Placed)
    (category : Category) (idx : Nat) (into : Marked) :
    replaceAll (placeholder category idx) into.sent segs.sent =
      Marked.sent (fill RedactionEntry.placeholder (placeholder category idx) into segs) := by
  apply replaceAll_fill _ (placeholder_ne_nil category idx)
  · intro e hMem
    rcases hPlaced e hMem with ⟨idx', hMark⟩
    rw [hMark]
    exact placeholder_apart category e.category idx idx'
  · exact bare_placeholder hFree category idx

/-
  Reinsertion gives back what the user wrote, as long as the
  map has every hole.  Its other entries change nothing.
-/
theorem reinsert_sent (hNumbered : Numbered n es) (hFree : OpenFree segs.meant)
    (hHoles : ∀ e, .inr e ∈ segs → e ∈ es) :
    reinsert segs.sent es = segs.meant := by
  induction es generalizing n segs with
  | nil =>
    exact render_congr (fun e hMem => not_mem_nil (hHoles e hMem))
  | cons first es ih =>
    have hPlaced : segs.Placed := by
      intro e hMem
      rcases hNumbered.mem (hHoles e hMem) with ⟨k, _, _, hMark⟩
      exact ⟨k, hMark⟩
    let filled : Marked :=
      fill RedactionEntry.placeholder first.placeholder (first.original.map .inl) segs
    have hSent : replaceAll first.placeholder first.original segs.sent = filled.sent := by
      have hFill := replaceAll_sent hFree hPlaced first.category n (first.original.map .inl)
      rw [← hNumbered.1, Marked.sent, render_raw] at hFill
      exact hFill
    have hMeant : filled.meant = segs.meant := by
      apply render_fill_same
      intro e hMem hMark
      have hFirst : e = first := hNumbered.eq_of_placeholder (hHoles e hMem) mem_cons_self hMark
      rw [render_raw, hFirst]
    have hRest : ∀ e, .inr e ∈ filled → e ∈ es := by
      intro e hMem
      rcases hole_of_mem_fill _ _ hMem with hInto | hOld
      · simp at hInto
      · rcases mem_cons.mp (hHoles e hOld.1) with hFirst | hLater
        · rw [hFirst] at hOld
          exact absurd rfl hOld.2
        · exact hLater
    have hReinsert : reinsert segs.sent (first :: es) = reinsert filled.sent es := by
      unfold reinsert
      rw [foldl_cons, hSent]
    rw [hReinsert, ih hNumbered.2 (hMeant ▸ hFree) hRest, hMeant]

end Tracelane.Guardrail
