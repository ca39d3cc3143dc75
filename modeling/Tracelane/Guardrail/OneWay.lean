import Tracelane.Guardrail.Detectors

/-
  One-way redaction of span attributes.

  The card rule marks every candidate run, and a second pass unmarks those whose check digit is
  wrong.  That pass finds the candidates again in the text as received and takes the n-th of them
  for the n-th marker, so a candidate that an earlier rule has taken, or a marker that was in the
  text, puts every later marker out of step.
-/

namespace Tracelane.Guardrail

namespace OneWay

open List

------------------------------------------------------------
-- The Redactor
------------------------------------------------------------

/- The three regexes that run after `RULES`. -/
inductive Pass where
| namedCredential
| authHeader
| cookieHeader
deriving DecidableEq

def Pass.marker : Pass → String
| .namedCredential => "[REDACTED:credential]"
| .authHeader => "[REDACTED:credential]"
| .cookieHeader => "[REDACTED:cookie]"

def passes : List Pass :=
  [.namedCredential, .authHeader, .cookieHeader]

/- What a pass matches behind the name it keeps: the spans of its second group. -/
abbrev Passes :=
  Pass → List Char → List (Nat × Nat)

/- Write `mark` of each match in its place. -/
def replaceSpans
    (mark : List Char → List Char) :
    List (Nat × Nat) → List Char → List Char
| [], text => text
| (gap, len) :: spans, text =>
    let rest := text.drop gap
    text.take gap ++
      (mark (rest.take len) ++ replaceSpans mark spans (rest.drop len))

def ccMarker : List Char :=
  chars Category.creditCard.marker

def cardMarker : List Char :=
  chars "[REDACTED:credit_card]"

/- The runs `CC_RE` finds, each with its Luhn verdict. -/
def candidatesOf (D : Detectors) (original : List Char) : List (List Char × Bool) :=
  (cutAt (D .creditCard original) original).1.map (fun piece => (piece.2, luhnCheck piece.2))

/- What stands in the place of a marker afterwards. -/
inductive Written where
| masked
| restored (run : List Char)
deriving DecidableEq

def Written.text : Written → List Char
| .masked => cardMarker
| .restored run => run

def writtenFor : Option (List Char × Bool) → Written
| some (_, true) => .masked
| some (orig, false) => .restored orig
| none => .masked

/-
  The loop over the markers, `skip` characters into one.  A text without a marker is left as it is.
-/
def refineLoop :
    Nat → List (List Char × Bool) → List Char → List Char
| _, _, [] => []
| skip + 1, candidates, _ :: rest =>
    refineLoop skip candidates rest
| 0, candidates, c :: rest =>
    if ccMarker.isPrefixOf (c :: rest) then
      (writtenFor candidates.head?).text ++
        refineLoop (ccMarker.length - 1) candidates.tail rest
    else c :: refineLoop 0 candidates rest

def refineCreditCards (D : Detectors) (redacted original : List Char) : List Char :=
  refineLoop 0 (candidatesOf D original) redacted

/- One rule of the table, or one of the passes behind it. -/
def applyRule (D : Detectors) (result : List Char) (rule : Category) : List Char :=
  replaceSpans (fun _ => chars rule.marker) (D rule result) result

def applyPass (P : Passes) (result : List Char) (pass : Pass) : List Char :=
  replaceSpans (fun _ => chars pass.marker) (P pass result) result

def redact (D : Detectors) (P : Passes) (value : List Char) : List Char :=
  let result := rules.foldl (applyRule D) value
  let result := passes.foldl (applyPass P) result
  refineCreditCards D result value

------------------------------------------------------------
-- Markers In Step
------------------------------------------------------------

/- What a run of the card rule calls for. -/
def decided (run : List Char) : List Char :=
  if luhnCheck run then cardMarker else run

variable {candidates : List (List Char × Bool)}

/- A stretch in which no marker begins is passed over. -/
theorem refineLoop_keep
    {stretch rest : List Char}
    (hMiss :
      ∀ j, j < stretch.length →
        ¬ccMarker <+: stretch.drop j ++ rest) :
    refineLoop 0 candidates (stretch ++ rest) =
      stretch ++ refineLoop 0 candidates rest := by
  induction stretch with
  | nil => rfl
  | cons c stretch ih =>
    have hHere := hMiss 0 (by simp)
    rw [drop_zero, cons_append, ← isPrefixOf_iff_prefix] at hHere
    rw [cons_append, refineLoop, if_neg hHere, ih]
    · rfl
    · intro j hJ
      exact hMiss (j + 1) (by simpa using hJ)

theorem refineLoop_skip (stretch rest : List Char) :
    refineLoop stretch.length candidates (stretch ++ rest) =
      refineLoop 0 candidates rest := by
  induction stretch with
  | nil => rfl
  | cons c stretch ih => exact ih

/- A marker is decided by the next candidate. -/
theorem refineLoop_hit (run rest : List Char) :
    refineLoop 0 ((run, luhnCheck run) :: candidates) (ccMarker ++ rest) =
      decided run ++ refineLoop 0 candidates rest := by
  have hMarker : ccMarker ++ rest = '[' :: (ccMarker.tail ++ rest) := rfl
  have hHit : ccMarker.isPrefixOf ('[' :: (ccMarker.tail ++ rest)) = true := by
    rw [← hMarker, isPrefixOf_iff_prefix]
    exact prefix_append _ _
  have hWritten : (writtenFor (some (run, luhnCheck run))).text = decided run := by
    unfold decided
    cases luhnCheck run with
    | true => rfl
    | false => rfl
  rw [hMarker, refineLoop, if_pos hHit, head?_cons, hWritten, tail_cons]
  exact congrArg (decided run ++ ·) (refineLoop_skip ccMarker.tail rest)

/-
  No marker begins in a text that has none and goes on into
  an inserted one, since a marker has one bracket to begin.
-/
theorem no_marker_ahead
    {gap : List Char}
    (hGap : ¬ccMarker <:+: gap)
    {j : Nat}
    (hJ : j < gap.length)
    (rest : List Char) :
    ¬ccMarker <+: gap.drop j ++ (ccMarker ++ rest) := by
  rintro ⟨tail, hTail⟩
  by_cases hLong : ccMarker.length ≤ (gap.drop j).length
  · apply hGap
    have hPrefix : ccMarker <+: gap.drop j :=
      prefix_of_prefix_length_le ⟨tail, hTail⟩ (prefix_append _ _) hLong
    exact hPrefix.isInfix.trans (drop_suffix j gap).isInfix
  · have hPos : 0 < (gap.drop j).length := by
      rw [length_drop]
      omega
    have hBracket : ccMarker[(gap.drop j).length]? = some '[' := by
      have hAt := congrArg (·[(gap.drop j).length]?) hTail
      simp only [getElem?_append_right (Nat.le_refl _), Nat.sub_self] at hAt
      rw [getElem?_append_left (by omega)] at hAt
      exact hAt
    have hOnly : ∀ k, k < ccMarker.length → 0 < k → ccMarker[k]? ≠ some '[' := by decide
    exact hOnly _ (by omega) hPos hBracket

/- Where the candidates are the runs, each run is decided. -/
theorem refineLoop_marked
    {text : List Char}
    (hText : ¬ccMarker <:+: text)
    (spans : List (Nat × Nat))
    (hRuns :
      (cutAt spans text).1.map (fun piece => (piece.2, luhnCheck piece.2)) <+: candidates) :
    refineLoop 0 candidates (replaceSpans (fun _ => ccMarker) spans text) =
      replaceSpans decided spans text := by
  induction spans generalizing text candidates with
  | nil =>
    have hKeep :
        refineLoop 0 candidates (text ++ []) =
          text ++ refineLoop 0 candidates [] := by
      refine refineLoop_keep (fun j _ hBegins => hText ?_)
      rw [append_nil] at hBegins
      exact hBegins.isInfix.trans (drop_suffix j text).isInfix
    simpa [refineLoop, replaceSpans] using hKeep
  | cons span spans ih =>
    rcases span with ⟨gap, len⟩
    have hRest : ¬ccMarker <:+: (text.drop gap).drop len := by
      intro hInfix
      rw [drop_drop] at hInfix
      exact hText (hInfix.trans (drop_suffix _ text).isInfix)
    have hGap : ¬ccMarker <:+: text.take gap := fun hInfix =>
      hText (hInfix.trans (List.take_prefix gap text).isInfix)
    rcases hRuns with ⟨more, rfl⟩
    simp only [replaceSpans]
    rw [refineLoop_keep (fun j hJ => no_marker_ahead hGap hJ _)]
    simp only [cutAt, map_cons, cons_append]
    rw [refineLoop_hit, ih hRest (prefix_append _ _)]

------------------------------------------------------------
-- One-Way Redaction
------------------------------------------------------------

/- The text in which the card rule looks for runs. -/
def textBefore (D : Detectors) (value : List Char) : List Char :=
  (rules.takeWhile (· ≠ .creditCard)).foldl (applyRule D) value

/-
  The runs the card rule matches are the first that its
  pattern finds in the text as received, no marker stands in
  its text, and nothing after it matches the marked text.
-/
structure CardsStand
    (D : Detectors)
    (P : Passes)
    (value : List Char) :
    Prop where
  runs : candidatesOf D (textBefore D value) <+: candidatesOf D value
  unmarked : ¬ccMarker <:+: textBefore D value
  after :
    let marked := applyRule D (textBefore D value) .creditCard
    D .ipv4 marked = [] ∧ D .ipv6 marked = [] ∧ ∀ pass, P pass marked = []

variable {D : Detectors} {P : Passes} {value : List Char}

theorem applyRule_unmatched
    {rule : Category}
    (hNone : D rule value = []) :
    applyRule D value rule = value := by
  rw [applyRule, hNone]
  rfl

theorem applyPass_unmatched
    {pass : Pass}
    (hNone : P pass value = []) :
    applyPass P value pass = value := by
  rw [applyPass, hNone]
  rfl

/- None of the names the passes look for is in the text. -/
def noNames : Passes :=
  fun _ _ => []

/- A card and an order number, behind an address. -/
def mailedCard : List Char :=
  chars "a@b.co 4111111111111111, 1234567890123"

end OneWay

end Tracelane.Guardrail
