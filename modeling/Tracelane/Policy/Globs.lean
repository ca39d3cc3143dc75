import Tracelane.Lib.Bytes

/-
  Patterns with stars, as a key's policy matches them.

  The matcher remembers the last star only.  That is enough: what an earlier star would absorb, the
  last one can absorb as well.
-/

namespace Tracelane.Policy

open List

/- `*`. -/
def wild : UInt8 := 42

def asciiLower (b : UInt8) : UInt8 :=
  if 65 ≤ b ∧ b ≤ 90 then b + 32 else b

def eqIgnoreAsciiCase (a b : UInt8) : Bool :=
  asciiLower a == asciiLower b

/- The text is the pattern with a run for each star. -/
inductive Expands : Bytes → Bytes → Prop
| nil : Expands [] []
| star {p t : Bytes} (run : Bytes) :
    Expands p t → Expands (wild :: p) (run ++ t)
| byte {c b : UInt8} {p t : Bytes} :
    c ≠ wild → eqIgnoreAsciiCase c b → Expands p t → Expands (c :: p) (b :: t)

variable {p t : Bytes}

/- A star takes a run of its text away. -/
theorem expands_star_iff :
    Expands (wild :: p) t ↔ ∃ u, u <:+ t ∧ Expands p u := by
  constructor
  · intro hStar
    cases hStar with
    | star run hRest => exact ⟨_, suffix_append _ _, hRest⟩
    | byte hWild _ _ => exact absurd rfl hWild
  · rintro ⟨u, ⟨run, rfl⟩, hRest⟩
    exact .star run hRest

theorem Expands.star_of_suffix {u : Bytes} (hStar : Expands (wild :: p) u) (hSuffix : u <:+ t) :
    Expands (wild :: p) t := by
  rw [expands_star_iff] at hStar ⊢
  rcases hStar with ⟨v, hV, hRest⟩
  exact ⟨v, hV.trans hSuffix, hRest⟩

/- A star takes nothing, or one byte more. -/
theorem expands_star_iff_tail :
    Expands (wild :: p) t ↔ Expands p t ∨ Expands (wild :: p) t.tail := by
  constructor
  · intro hStar
    rcases expands_star_iff.mp hStar with ⟨u, hSuffix, hRest⟩
    cases t with
    | nil => exact .inr hStar
    | cons b t =>
      rcases suffix_cons_iff.mp hSuffix with rfl | hTail
      · exact .inl hRest
      · exact .inr (expands_star_iff.mpr ⟨u, hTail, hRest⟩)
  · rintro (hRest | hTail)
    · exact .star [] hRest
    · exact hTail.star_of_suffix (tail_suffix t)

theorem expands_byte_iff {c : UInt8} (hWild : c ≠ wild) :
    Expands (c :: p) t ↔ ∃ b u, t = b :: u ∧ eqIgnoreAsciiCase c b ∧ Expands p u := by
  constructor
  · intro hExpands
    cases hExpands with
    | star => exact absurd rfl hWild
    | byte _ hSame hRest => exact ⟨_, _, rfl, hSame, hRest⟩
  · rintro ⟨b, u, rfl, hSame, hRest⟩
    exact .byte hWild hSame hRest

theorem expands_nil_iff :
    Expands p [] ↔ ∀ b ∈ p, b = wild := by
  induction p with
  | nil => simpa using Expands.nil
  | cons c p ih =>
    rw [forall_mem_cons, ← ih]
    by_cases hWild : c = wild
    · simp [hWild, expands_star_iff]
    · simp [hWild, expands_byte_iff hWild]

/- A pattern in two parts takes the text in two parts. -/
theorem Expands.split {lit : Bytes} (hExpands : Expands (lit ++ p) t) :
    ∃ run u, t = run ++ u ∧ Expands lit run ∧ Expands p u := by
  induction lit generalizing t with
  | nil => exact ⟨[], t, rfl, .nil, hExpands⟩
  | cons c lit ih =>
    cases hExpands with
    | star skip hRest =>
      rcases ih hRest with ⟨run, u, rfl, hRun, hU⟩
      exact ⟨skip ++ run, u, by simp, .star skip hRun, hU⟩
    | byte hWild hSame hRest =>
      rcases ih hRest with ⟨run, u, rfl, hRun, hU⟩
      exact ⟨_ :: run, u, rfl, .byte hWild hSame hRun, hU⟩

theorem Expands.length_eq (hExpands : Expands p t) (hWild : wild ∉ p) :
    t.length = p.length := by
  induction hExpands with
  | nil => rfl
  | star => exact absurd mem_cons_self hWild
  | byte _ _ _ ih =>
    simp [ih (fun h => hWild (mem_cons_of_mem _ h))]

/-
  The exchange: where an earlier star takes more of its text,
  the bytes since then move on, and so does what follows them.
-/
theorem Expands.exchange {lit run : Bytes} (hLit : wild ∉ lit) (hLen : lit.length = run.length)
    (hStar : Expands (wild :: (lit ++ p)) (run ++ t).tail) :
    ∃ v, v <:+ t ∧ Expands p v := by
  rcases expands_star_iff.mp hStar with ⟨u, hSuffix, hU⟩
  rcases hU.split with ⟨run', v, rfl, hRun, hV⟩
  have hRun := hRun.length_eq hLit
  have hTail := hSuffix.length_le
  have hAll := (suffix_append run' v).trans (hSuffix.trans (tail_suffix _))
  refine ⟨v, ?_, hV⟩
  refine suffix_of_suffix_length_le hAll (suffix_append run t) ?_
  simp only [length_append, length_tail] at hTail
  omega

theorem Expands.refl (p : Bytes) :
    Expands p p := by
  induction p with
  | nil => exact .nil
  | cons c p ih =>
    by_cases hWild : c = wild
    · rw [hWild]
      exact .star [wild] ih
    · exact .byte hWild (by simp [eqIgnoreAsciiCase]) ih

--
-- The Matcher
--

/-
  What is left of pattern and text.  After a star, also what followed it, and the text it stopped
  before: from there on a byte of each was read at a time, and none was a star.
-/
structure Cursor where
  pat : Bytes
  text : Bytes
  star : Option (Bytes × Bytes)
  since :
    ∀ back ∈ star, ∃ lit run : Bytes,
      back = (lit ++ pat, run ++ text) ∧ lit.length = run.length ∧ wild ∉ lit

namespace Cursor

/- The rest of a pattern, just after a star. -/
def resume (pat text : Bytes) : Cursor where
  pat := pat
  text := text
  star := some (pat, text)
  since := by
    rintro _ ⟨⟩
    exact ⟨[], [], rfl, rfl, not_mem_nil⟩

/- Let the star absorb one more byte. -/
def retry : Option (Bytes × Bytes) → Option Cursor
| none => none
| some (pat, text) => some (resume pat text.tail)

/- One turn of the loop, unless it ends. -/
def next? : Cursor → Option Cursor
| ⟨_, [], _, _⟩ => none
| ⟨[], _ :: _, star, _⟩ => retry star
| ⟨c :: pat, b :: text, star, since⟩ =>
    if hWild : c = wild then
      some (resume pat (b :: text))
    else if eqIgnoreAsciiCase c b then
      some {
        pat := pat
        text := text
        star := star
        since := by
          intro back hBack
          rcases since back hBack with
            ⟨lit, run, rfl, hLen, hLit⟩
          refine ⟨lit ++ [c], run ++ [b], by simp, by simpa, ?_⟩
          simpa [hLit] using Ne.symm hWild }
    else retry star

/- What a turn of the loop can be. -/
inductive Turn (c : Cursor) : Option Cursor → Prop
| ends : c.text = [] → Turn c none
| fails :
    c.text ≠ [] → ¬ Expands c.pat c.text → c.star = none → Turn c none
| star {pat : Bytes} :
    c.pat = wild :: pat → Turn c (some (resume pat c.text))
| read {d : Cursor} {x b : UInt8} :
    x ≠ wild → eqIgnoreAsciiCase x b → c.pat = x :: d.pat →
      c.text = b :: d.text → c.star = d.star → Turn c (some d)
| retry {pat text : Bytes} :
    c.text ≠ [] → ¬ Expands c.pat c.text →
      c.star = some (pat, text) →
      Turn c (some (resume pat text.tail))

theorem turn_retry {c : Cursor} (hText : c.text ≠ []) (hStuck : ¬ Expands c.pat c.text) :
    c.Turn (retry c.star) := by
  cases hStar : c.star with
  | none => exact .fails hText hStuck hStar
  | some back => exact .retry hText hStuck hStar

theorem turn_next? : (c : Cursor) → c.Turn c.next?
| ⟨_, [], _, _⟩ => .ends rfl
| ⟨[], _ :: _, _, _⟩ => turn_retry nofun nofun
| ⟨x :: pat, b :: text, star, since⟩ => by
    simp only [next?]
    split
    · rename_i hWild
      exact .star (congrArg (· :: pat) hWild)
    · rename_i hWild
      split
      · rename_i hSame
        exact .read hWild hSame rfl rfl rfl
      · rename_i hDiffer
        refine turn_retry nofun ?_
        simp [expands_byte_iff hWild, hDiffer]

/- What is left to try after the last star. -/
def starPat (c : Cursor) : Nat :=
  c.star.elim c.pat.length (fun back => back.1.length)

def starText (c : Cursor) : Nat :=
  c.star.elim 0 (fun back => back.2.length)

/- Every turn leaves less to try. -/
def Shrinks (c d : Cursor) : Prop :=
  d.starPat < c.starPat ∨
    d.starPat = c.starPat ∧
      (d.starText < c.starText ∨ d.starText = c.starText ∧ d.pat.length < c.pat.length)

theorem next?_shrinks {c d : Cursor} (hNext : c.next? = some d) :
    c.Shrinks d := by
  have hTurn := c.turn_next?
  rw [hNext] at hTurn
  cases hTurn with
  | star hPat =>
    cases hStar : c.star with
    | none => simp [Shrinks, resume, starPat, hStar, hPat]
    | some back =>
      obtain ⟨lit, run, rfl, _, _⟩ := c.since back hStar
      simp [Shrinks, resume, starPat, hStar, hPat]
      omega
  | read _ _ hPat _ hStar =>
    cases hBack : d.star with
    | none => simp [Shrinks, starPat, hStar, hBack, hPat]
    | some back =>
      simp [Shrinks, starPat, starText, hStar, hBack, hPat]
  | retry hText _ hStar =>
    obtain ⟨lit, run, hBack, _, _⟩ := c.since _ hStar
    cases hBack
    have hLen := length_pos_iff.mpr hText
    simp [Shrinks, resume, starPat, starText, hStar]
    omega

end Cursor

def globLoop (c : Cursor) : Bool :=
  match _ : c.next? with
  | some d => globLoop d
  | none => c.text.isEmpty && c.pat.all (· == wild)
termination_by (c.starPat, c.starText, c.pat.length)
decreasing_by
  simp only [Prod.lex_def]
  exact Cursor.next?_shrinks ‹_›

def globMatch (pattern text : Bytes) : Bool :=
  globLoop ⟨pattern, text, none, by simp⟩

--
-- What It Decides
--

namespace Cursor

/- The rest fits, or it does after the star takes more. -/
def Wins (c : Cursor) : Prop :=
  Expands c.pat c.text ∨ ∃ back ∈ c.star, Expands (wild :: back.1) back.2.tail

theorem wins_resume (pat text : Bytes) :
    (resume pat text).Wins ↔ Expands (wild :: pat) text := by
  rw [expands_star_iff_tail]
  simp [Wins, resume]

/- What follows the bytes since the star fits further on. -/
theorem exists_suffix {c : Cursor} (hWins : ∃ back ∈ c.star, Expands (wild :: back.1) back.2.tail) :
    ∃ v, v <:+ c.text ∧ Expands c.pat v := by
  rcases hWins with ⟨back, hBack, hStar⟩
  rcases c.since back hBack with ⟨lit, run, rfl, hLen, hLit⟩
  exact hStar.exchange hLit hLen

/- A turn of the loop loses no match and invents none. -/
theorem next?_wins {c d : Cursor} (hNext : c.next? = some d) :
    c.Wins ↔ d.Wins := by
  have hTurn := c.turn_next?
  rw [hNext] at hTurn
  cases hTurn with
  | star hPat =>
    rw [wins_resume, ← hPat]
    refine or_iff_left_of_imp (fun hMore => ?_)
    rcases exists_suffix hMore with ⟨v, hSuffix, hV⟩
    rw [hPat] at hV ⊢
    exact hV.star_of_suffix hSuffix
  | read hWild hSame hPat hText hStar =>
    simp [Wins, hPat, hText, hStar, expands_byte_iff hWild, hSame]
  | retry _ hStuck hStar =>
    rw [wins_resume]
    simp [Wins, hStuck, hStar]

/- Where the loop ends, it answers. -/
theorem wins_of_next?_eq_none {c : Cursor} (hNext : c.next? = none) :
    c.Wins ↔ c.text.isEmpty && c.pat.all (· == wild) := by
  have hTurn := c.turn_next?
  rw [hNext] at hTurn
  cases hTurn with
  | ends hText =>
    have hStars : c.Wins ↔ Expands c.pat c.text := by
      refine or_iff_left_of_imp (fun hMore => ?_)
      rcases exists_suffix hMore with ⟨v, hSuffix, hV⟩
      rw [hText, suffix_nil] at hSuffix
      rwa [hText, ← hSuffix]
    rw [hStars, hText, expands_nil_iff]
    simp
  | fails hText hStuck hStar => simp [Wins, hStuck, hStar, hText]

end Cursor

theorem globLoop_iff (c : Cursor) :
    globLoop c ↔ c.Wins := by
  fun_induction globLoop c with
  | case1 c d hNext ih => rw [ih, Cursor.next?_wins hNext]
  | case2 c hNext => rw [Cursor.wins_of_next?_eq_none hNext]

theorem globMatch_iff (pattern text : Bytes) :
    globMatch pattern text ↔ Expands pattern text := by
  rw [globMatch, globLoop_iff]
  simp [Cursor.Wins]

end Tracelane.Policy
