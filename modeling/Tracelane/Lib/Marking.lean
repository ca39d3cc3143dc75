import Mathlib.Data.List.Infix

/-
  Replacing words in a text by a mark, from the left, and of the words that begin at one place the
  longest.

  Items may carry more than the text is read by, such as where they come from.  What stands between
  the marks afterwards stood in the text before, and no word is in it.
-/

namespace Marking

open List

variable {α β γ : Type} [DecidableEq α]

/- The length of the longest word that begins a text. -/
def longestAt : List (List α) → List α → Nat
| [], _ => 0
| w :: words, text =>
    if w.isPrefixOf text then
      max w.length (longestAt words text)
    else longestAt words text

theorem length_le_longestAt {words : List (List α)} {w text : List α}
    (hWord : w ∈ words) (hBegins : w <+: text) :
    w.length ≤ longestAt words text := by
  induction words with
  | nil => cases hWord
  | cons v words ih =>
    rw [longestAt]
    rcases mem_cons.mp hWord with rfl | hWord
    · rw [if_pos (List.isPrefixOf_iff_prefix.mpr hBegins)]
      exact Nat.le_max_left _ _
    · split
      · exact Nat.le_trans (ih hWord) (Nat.le_max_right _ _)
      · exact ih hWord

/- Write the mark for each word; `skip` items are covered. -/
def rewrite (view : β → α) (words : List (List α)) (mark : List β) : Nat → List β → List β
| _, [] => []
| skip + 1, _ :: rest => rewrite view words mark skip rest
| 0, b :: rest =>
    match longestAt words ((b :: rest).map view) with
    | 0 => b :: rewrite view words mark 0 rest
    | n + 1 => mark ++ rewrite view words mark n rest

/- The words that are replaced. -/
def matched (words : List (List α)) : Nat → List α → List (List α)
| _, [] => []
| skip + 1, _ :: rest => matched words skip rest
| 0, a :: rest =>
    match longestAt words (a :: rest) with
    | 0 => matched words 0 rest
    | n + 1 => (a :: rest).take (n + 1) :: matched words n rest

variable {view : β → α} {words : List (List α)} {mark : List β}

/- What items carry makes no difference to the text. -/
theorem map_rewrite (view' : γ → α) (f : β → γ)
    (hView : ∀ b, view' (f b) = view b) (skip : Nat) (text : List β) :
    (rewrite view words mark skip text).map f =
      rewrite view' words (mark.map f) skip (text.map f) := by
  have hMap : ∀ bs : List β, (bs.map f).map view' = bs.map view :=
    fun bs => by simp [map_map, Function.comp_def, hView]
  induction text generalizing skip with
  | nil => simp [rewrite]
  | cons b rest ih =>
    cases skip with
    | succ skip => exact ih skip
    | zero =>
      rw [map_cons, rewrite, rewrite, ← map_cons, hMap]
      split
      · rw [map_cons, ih]
      · rw [map_append, ih]

/- A piece apart from what stands in front of it. -/
theorem infix_of_infix_append {u front text : List β} (hApart : ∀ b ∈ u, b ∉ front) (hSome : u ≠ [])
    (hIn : u <:+: front ++ text) :
    u <:+: text := by
  induction front with
  | nil => exact hIn
  | cons m front ih =>
    rw [cons_append, infix_cons_iff] at hIn
    rcases hIn with hBegins | hIn
    · rcases exists_cons_of_ne_nil hSome with ⟨c, rest, rfl⟩
      rw [cons_prefix_cons] at hBegins
      exact absurd (hBegins.1 ▸ mem_cons_self) (hApart c mem_cons_self)
    · exact ih (fun b hB hFront => hApart b hB (mem_cons_of_mem _ hFront)) hIn

section Between

variable {u : List β} (hApart : ∀ b ∈ u, b ∉ mark) (hMark : mark ≠ [])
include hApart hMark

theorem prefix_rewrite (text : List β) (hBegins : u <+: rewrite view words mark 0 text) :
    u <+: text := by
  induction text generalizing u with
  | nil => exact hBegins
  | cons b rest ih =>
    cases u with
    | nil => exact nil_prefix
    | cons c u =>
      rw [rewrite] at hBegins
      split at hBegins
      · rw [cons_prefix_cons] at hBegins ⊢
        exact ⟨hBegins.1, ih (fun d hD => hApart d (mem_cons_of_mem _ hD)) hBegins.2⟩
      · rcases exists_cons_of_ne_nil hMark with ⟨m, ms, rfl⟩
        rw [cons_append, cons_prefix_cons] at hBegins
        exact absurd (hBegins.1 ▸ mem_cons_self) (hApart c mem_cons_self)

/- A piece between the marks stood there, and began no word. -/
theorem infix_rewrite (hSome : u ≠ []) (skip : Nat) (text : List β)
    (hIn : u <:+: rewrite view words mark skip text) :
    ∃ rest, rest <:+ text ∧ u <+: rest ∧ longestAt words (rest.map view) = 0 := by
  induction text generalizing skip with
  | nil =>
    rw [rewrite, infix_nil] at hIn
    exact absurd hIn hSome
  | cons b text ih =>
    have hLater :
        ∀ skip, u <:+: rewrite view words mark skip text →
          ∃ rest, rest <:+ b :: text ∧ u <+: rest ∧ longestAt words (rest.map view) = 0 := by
      intro skip hIn
      rcases ih skip hIn with ⟨rest, hRest, hPiece⟩
      exact ⟨rest, hRest.trans (suffix_cons b text), hPiece⟩
    cases skip with
    | succ skip => exact hLater skip hIn
    | zero =>
      cases hLongest : longestAt words ((b :: text).map view) with
      | zero =>
        have hOut :
            rewrite view words mark 0 (b :: text) = b :: rewrite view words mark 0 text := by
          rw [rewrite, hLongest]
        rw [hOut, infix_cons_iff, ← hOut] at hIn
        rcases hIn with hBegins | hIn
        · exact ⟨b :: text, suffix_refl _, prefix_rewrite hApart hMark _ hBegins, hLongest⟩
        · exact hLater 0 hIn
      | succ n =>
        rw [rewrite, hLongest] at hIn
        exact hLater n (infix_of_infix_append hApart hSome hIn)

theorem infix_of_infix_rewrite (text : List β) (hIn : u <:+: rewrite view words mark 0 text) :
    u <:+: text := by
  by_cases hSome : u = []
  · rw [hSome]
    exact nil_infix
  · rcases infix_rewrite hApart hMark hSome 0 text hIn with ⟨rest, hRest, hBegins, _⟩
    exact hBegins.isInfix.trans hRest.isInfix

theorem no_word_rewrite (hWord : u.map view ∈ words) (hSome : u ≠ []) (text : List β) :
    ¬ u <:+: rewrite view words mark 0 text := by
  intro hIn
  rcases infix_rewrite hApart hMark hSome 0 text hIn with ⟨rest, _, hBegins, hNone⟩
  have hLen := length_le_longestAt hWord (hBegins.map view)
  rw [hNone, length_map, Nat.le_zero, length_eq_zero_iff] at hLen
  exact hSome hLen

end Between

end Marking
