import Mathlib.Data.List.Basic

/-
  Texts with named holes.

  A text with holes is rendered by writing each hole's name. Where no name can overlap another or
  occur in the text around the holes, replacing a name in the rendered text fills exactly the holes
  of that name.
-/

namespace Holes

open List Option Prod

variable {α η : Type}

--
-- Holes
--

/- A text with holes, each hole written by its name. -/
def render (name : η → List α) (segs : List (α ⊕ η)) : List α :=
  segs.flatMap (Sum.elim (fun c => [c]) name)

variable (name : η → List α)

@[simp] theorem render_nil :
    render name [] = [] :=
  rfl

@[simp] theorem render_inl (c : α) (segs : List (α ⊕ η)) :
    render name (.inl c :: segs) = c :: render name segs :=
  rfl

@[simp] theorem render_inr (h : η) (segs : List (α ⊕ η)) :
    render name (.inr h :: segs) = name h ++ render name segs :=
  rfl

@[simp] theorem render_append (segs segs' : List (α ⊕ η)) :
    render name (segs ++ segs') = render name segs ++ render name segs' :=
  flatMap_append

@[simp] theorem render_raw (cs : List α) :
    render name (cs.map .inl) = cs := by
  induction cs with
  | nil => rfl
  | cons c cs ih => rw [map_cons, render_inl, ih]

variable {segs : List (α ⊕ η)}

/- A text without holes reads the same under any names. -/
theorem render_congr {name name' : η → List α} (hNone : ∀ h, .inr h ∉ segs) :
    render name segs = render name' segs := by
  induction segs with
  | nil => rfl
  | cons seg segs ih =>
    have hRest := ih (fun h hMem => hNone h (by simp [hMem]))
    cases seg with
    | inl c => rw [render_inl, render_inl, hRest]
    | inr h => exact absurd (by simp) (hNone h)

/-
  Neither text begins inside of the other, and the one does
  not begin the other either unless they are equal.
-/
structure Apart (m n : List α) : Prop where
  ahead : ∀ j, 0 < j → j < m.length → ∀ x, ¬ m.drop j <+: n ++ x
  inside : ∀ j, j < n.length → (0 < j ∨ m ≠ n) → ∀ x, ¬ m <+: n.drop j ++ x

/- What begins a rendered text and meets no hole is text. -/
theorem prefix_of_prefix_render {t : List α}
    (hApart : ∀ h, .inr h ∈ segs → ∀ j, j < t.length → ∀ x, ¬ t.drop j <+: name h ++ x)
    (hPrefix : t <+: render name segs) :
    t.map .inl <+: segs := by
  induction segs generalizing t with
  | nil =>
    rw [render_nil, prefix_nil] at hPrefix
    simp [hPrefix]
  | cons seg segs ih =>
    cases t with
    | nil => simp
    | cons c t =>
      cases seg with
      | inr h =>
        have hMeets := hApart h (by simp) 0 (by simp) (render name segs)
        exact absurd hPrefix hMeets
      | inl d =>
        rw [render_inl, cons_prefix_cons] at hPrefix
        rw [map_cons, hPrefix.1, cons_prefix_cons]
        refine ⟨rfl, ih ?_ hPrefix.2⟩
        intro h hMem j hJ x
        exact hApart h (by simp [hMem]) (j + 1) (by simpa using hJ) x

--
-- Taking Text Off
--

/- The first `n` characters, if they end outside of a hole. -/
def takeGap :
    Nat → List (α ⊕ η) → Option (List (α ⊕ η) × List (α ⊕ η))
| 0, segs => some ([], segs)
| _ + 1, [] => some ([], [])
| n + 1, .inl c :: segs =>
    (takeGap n segs).map (fun r => (.inl c :: r.1, r.2))
| n + 1, .inr h :: segs =>
    if (name h).length ≤ n + 1 then
      (takeGap (n + 1 - (name h).length) segs).map (fun r => (.inr h :: r.1, r.2))
    else none

/- The first `n` characters, if none is of a hole. -/
def takeText :
    Nat → List (α ⊕ η) → Option (List α × List (α ⊕ η))
| 0, segs => some ([], segs)
| _ + 1, [] => some ([], [])
| n + 1, .inl c :: segs =>
    (takeText n segs).map (fun r => (c :: r.1, r.2))
| _ + 1, .inr _ :: _ => none

theorem takeGap_eq_some {n : Nat} {gap rest : List (α ⊕ η)}
    (hTake : takeGap name n segs = some (gap, rest)) :
    segs = gap ++ rest ∧
      render name gap = (render name segs).take n ∧
      render name rest = (render name segs).drop n := by
  fun_induction takeGap name n segs generalizing gap with
  | case1 segs =>
    cases hTake
    simp
  | case2 n =>
    cases hTake
    simp
  | case3 n c segs ih =>
    simp only [map_eq_some_iff, Prod.exists, Prod.mk.injEq] at hTake
    rcases hTake with ⟨gap', rest', hTake, hGap, hRest⟩
    subst hGap hRest
    rcases ih hTake with ⟨hSegs, hFront, hBack⟩
    simp [hFront, hBack, ← hSegs]
  | case4 n h segs hFits ih =>
    simp only [map_eq_some_iff, Prod.exists, Prod.mk.injEq] at hTake
    rcases hTake with ⟨gap', rest', hTake, hGap, hRest⟩
    subst hGap hRest
    rcases ih hTake with ⟨hSegs, hFront, hBack⟩
    refine ⟨by simp [← hSegs], ?_, ?_⟩
    · rw [render_inr, render_inr, hFront, take_append, take_of_length_le hFits]
    · rw [render_inr, hBack, drop_append, drop_of_length_le hFits, nil_append]
  | case5 n h segs hFits => cases hTake

/- Text is a gap without a hole. -/
theorem takeGap_of_takeText {n : Nat} {rest : List (α ⊕ η)} {text : List α}
    (hTake : takeText n segs = some (text, rest)) :
    takeGap name n segs = some (text.map .inl, rest) := by
  fun_induction takeText n segs generalizing text with
  | case1 segs =>
    cases hTake
    simp [takeGap]
  | case2 n =>
    cases hTake
    rfl
  | case3 n c segs ih =>
    simp only [map_eq_some_iff, Prod.exists, Prod.mk.injEq] at hTake
    rcases hTake with ⟨text', rest', hTake, hText, hRest⟩
    subst hText hRest
    simp [takeGap, ih hTake]
  | case4 n h segs => cases hTake

theorem takeText_eq_some {n : Nat} {rest : List (α ⊕ η)} {text : List α}
    (hTake : takeText n segs = some (text, rest)) :
    segs = text.map .inl ++ rest ∧
      text = (render name segs).take n ∧
      render name rest = (render name segs).drop n := by
  rcases takeGap_eq_some name (takeGap_of_takeText name hTake) with ⟨hSegs, hFront, hBack⟩
  rw [render_raw] at hFront
  exact ⟨hSegs, hFront, hBack⟩

--
-- Replacement
--

variable [DecidableEq α]

/- Replace occurrences from the left, `skip` items into one. -/
def replaceFrom (pat new : List α) : Nat → List α → List α
| _, [] => []
| skip + 1, _ :: rest => replaceFrom pat new skip rest
| 0, c :: rest =>
    if pat.isPrefixOf (c :: rest) then
      new ++ replaceFrom pat new (pat.length - 1) rest
    else c :: replaceFrom pat new 0 rest

/- Replace every occurrence of a nonempty pattern. -/
def replaceAll (pat new text : List α) : List α :=
  replaceFrom pat new 0 text

variable (pat new : List α) (stretch rest : List α)

theorem replaceFrom_skip :
    replaceFrom pat new stretch.length (stretch ++ rest) = replaceAll pat new rest := by
  induction stretch with
  | nil => rfl
  | cons c stretch ih => exact ih

theorem replaceAll_hit {pat : List α} (hPat : pat ≠ []) (rest : List α) :
    replaceAll pat new (pat ++ rest) = new ++ replaceAll pat new rest := by
  cases pat with
  | nil => exact absurd rfl hPat
  | cons c pat =>
    have hHit : (c :: pat).isPrefixOf (c :: (pat ++ rest)) = true := by
      rw [List.isPrefixOf_iff_prefix]
      exact ⟨rest, rfl⟩
    rw [replaceAll, cons_append, replaceFrom, if_pos hHit]
    simp only [length_cons, Nat.add_sub_cancel]
    rw [replaceFrom_skip]

theorem replaceAll_cons {c : α} {rest : List α} (hMiss : ¬ pat <+: c :: rest) :
    replaceAll pat new (c :: rest) = c :: replaceAll pat new rest := by
  rw [← isPrefixOf_iff_prefix] at hMiss
  rw [replaceAll, replaceFrom, if_neg hMiss]
  rfl

/- A stretch in which no occurrence begins is kept. -/
theorem replaceAll_keep (hMiss : ∀ j, j < stretch.length → ¬ pat <+: stretch.drop j ++ rest) :
    replaceAll pat new (stretch ++ rest) = stretch ++ replaceAll pat new rest := by
  induction stretch with
  | nil => rfl
  | cons c stretch ih =>
    have hHere := hMiss 0 (by simp)
    rw [drop_zero, cons_append] at hHere
    rw [cons_append, replaceAll_cons pat new hHere, ih]
    · rfl
    · intro j hJ
      exact hMiss (j + 1) (by simpa using hJ)

/- Replacing a name fills the holes of that name. -/
theorem replaceAll_render {pat : List α} (hPat : pat ≠ [])
    (hApart : ∀ h, .inr h ∈ segs → Apart pat (name h)) (hBare : ¬ pat.map .inl <:+: segs) :
    replaceAll pat new (render name segs) =
      render (fun h => if name h = pat then new else name h) segs := by
  induction segs with
  | nil => rfl
  | cons seg segs ih =>
    have hRest := ih
      (fun h hMem => hApart h (by simp [hMem]))
      (fun hInfix => hBare (hInfix.trans (suffix_cons seg segs).isInfix))
    cases seg with
    | inl c =>
      rw [render_inl, render_inl, replaceAll_cons, hRest]
      intro hPrefix
      -- An occurrence here meets a hole or is text.
      cases pat with
      | nil => exact hPat rfl
      | cons d pat =>
        rw [cons_prefix_cons] at hPrefix
        have hText : pat.map .inl <+: segs := by
          apply prefix_of_prefix_render name ?_ hPrefix.2
          intro h hMem j hJ x
          have hAhead :=
            (hApart h (by simp [hMem])).ahead (j + 1)
              (by omega) (by simpa using hJ) x
          simpa using hAhead
        apply hBare
        rw [map_cons, hPrefix.1]
        exact (cons_prefix_cons.mpr ⟨rfl, hText⟩).isInfix
    | inr h =>
      rw [render_inr, render_inr]
      by_cases hSame : name h = pat
      · rw [if_pos hSame, hSame, replaceAll_hit new hPat, hRest]
      · rw [if_neg hSame, replaceAll_keep, hRest]
        intro j hJ
        exact (hApart h (by simp)).inside j hJ (.inr (Ne.symm hSame)) _

--
-- Filling
--

/- Put a text with holes into the holes of one name. -/
def fill (into segs : List (α ⊕ η)) : List (α ⊕ η) :=
  segs.flatMap (fun seg =>
    seg.elim (fun c => [.inl c]) (fun h => if name h = pat then into else [.inr h]))

theorem render_fill (name' : η → List α) (into segs : List (α ⊕ η)) :
    render name' (fill name pat into segs) =
      render
        (fun h => if name h = pat then render name' into else name' h)
        segs := by
  induction segs with
  | nil => rfl
  | cons seg segs ih =>
    unfold fill at ih ⊢
    rw [flatMap_cons, render_append, ih]
    cases seg with
    | inl c => rfl
    | inr h =>
      simp only [Sum.elim_inr, render_inr]
      split
      · rfl
      · simp

variable {into : List (α ⊕ η)}

/- Replacing a name by a rendered text fills its holes. -/
theorem replaceAll_fill {pat : List α} (hPat : pat ≠ [])
    (hApart : ∀ h, .inr h ∈ segs → Apart pat (name h)) (hBare : ¬ pat.map .inl <:+: segs) :
    replaceAll pat (render name into) (render name segs) =
      render name (fill name pat into segs) := by
  rw [replaceAll_render name _ hPat hApart hBare, render_fill]

/- Filling holes by what they stand for changes no meaning. -/
theorem render_fill_same {name' : η → List α}
    (hSame : ∀ h, .inr h ∈ segs → name h = pat → name' h = render name' into) :
    render name' (fill name pat into segs) = render name' segs := by
  rw [render_fill]
  induction segs with
  | nil => rfl
  | cons seg segs ih =>
    have hRest := ih (fun h hMem => hSame h (by simp [hMem]))
    cases seg with
    | inl c => rw [render_inl, render_inl, hRest]
    | inr h =>
      rw [render_inr, render_inr, hRest]
      by_cases hName : name h = pat
      · rw [if_pos hName, hSame h (by simp) hName]
      · rw [if_neg hName]

theorem hole_of_mem_fill {h : η} (hMem : .inr h ∈ fill name pat into segs) :
    .inr h ∈ into ∨ (.inr h ∈ segs ∧ name h ≠ pat) := by
  rcases mem_flatMap.mp hMem with ⟨seg, hSeg, hFilled⟩
  cases seg with
  | inl c => simp at hFilled
  | inr h' =>
    simp only [Sum.elim_inr] at hFilled
    split at hFilled
    · exact .inl hFilled
    · rename_i hName
      rw [mem_singleton, Sum.inr.injEq] at hFilled
      subst hFilled
      exact .inr ⟨hSeg, hName⟩

end Holes
