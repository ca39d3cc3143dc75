import Tracelane.Guardrail.Reversible

/-
  The cheap check before reversible redaction is exact.

  The check asks one regex set about the text as received; the redactor runs rule after rule over
  the text the rules before have left.  The first rule that rewrites anything still meets the text
  as received, and a rule that has added an entry is never undone.
-/

namespace Tracelane.Guardrail

open List Nat

variable (D : Detectors)

--
-- The Check
--

/- `redact_reversible`. -/
def redactReversible (value : List Char) : ReversibleRedaction :=
  redactReversibleFrom D value 0

/- The loop over the rules the set reports, in their order. -/
def judgeHits :
    Bool → List Category → List Char → Bool
| cardCandidate, [], value => cardCandidate && hasCard D value
| _, category :: hits, value =>
    if category = .creditCard then judgeHits true hits value
    else true

/-
  `contains_redactable`, with `RULE_SET` as `ruleSet`; where the set is taken to report the matching
  rules, this is `containsRedactable`.
-/
def containsRedactableBy (ruleSet : List Char → List Category) (value : List Char) : Bool :=
  if (value.map Char.utf8Size).sum < minRedactableLen then false
  else if (ruleSet value).isEmpty then false
  else judgeHits D false (ruleSet value) value

theorem judgeHits_eq (cardCandidate : Bool) (hits : List Category) (value : List Char) :
    judgeHits D cardCandidate hits value = true ↔
      (∃ category ∈ hits, category ≠ .creditCard) ∨
        ((cardCandidate = true ∨ .creditCard ∈ hits) ∧ hasCard D value = true) := by
  induction hits generalizing cardCandidate with
  | nil => simp [judgeHits]
  | cons category hits ih =>
    by_cases hCard : category = .creditCard
    · simp [judgeHits, hCard, ih]
    · simp [judgeHits, hCard]

--
-- One Rule
--

variable (category : Category) (accept : List Char → Bool)

theorem length_replaceMatches (base : Nat)
    (pieces : List (List Char × List Char)) (rest : List Char) (entries : List RedactionEntry) :
    (replaceMatches category accept base pieces rest entries).entries.length =
      entries.length + pieces.countP (fun piece => accept piece.2) := by
  induction pieces generalizing entries with
  | nil => simp [replaceMatches]
  | cons piece pieces ih =>
    by_cases hAccept : accept piece.2 = true
    · simp [replaceMatches, hAccept, ih]
      omega
    · simp [replaceMatches, hAccept, ih]

theorem length_cutAt (spans : List (Nat × Nat)) (text : List Char) :
    (cutAt spans text).1.length = spans.length := by
  induction spans generalizing text with
  | nil => rfl
  | cons span spans ih => simp [cutAt, ih]

variable {r : ReversibleRedaction}

/- A rule never takes an entry back. -/
theorem applyRule_grows (base : Nat) (r : ReversibleRedaction) :
    r.entries.length ≤ (applyRule D category accept base r).entries.length := by
  unfold applyRule
  rw [length_replaceMatches]
  exact le_add_right _ _

theorem applyRule_adds {category : Category} (hSome : D category r.redacted ≠ []) (base : Nat) :
    0 < (applyRule D category (fun _ => true) base r).entries.length := by
  have hPos := length_pos_iff.mpr hSome
  unfold applyRule
  rw [length_replaceMatches, countP_true, length_cutAt]
  omega

--
-- All Rules
--

/- The rules that take every match, one after another. -/
def plainPass (categories : List Category) (base : Nat)
    (r : ReversibleRedaction) : ReversibleRedaction :=
  categories.foldl
    (fun r category => applyRule D category (fun _ => true) base r) r

variable (categories : List Category)

theorem plainPass_grows (base : Nat) (r : ReversibleRedaction) :
    r.entries.length ≤ (plainPass D categories base r).entries.length := by
  induction categories generalizing r with
  | nil => exact le_refl _
  | cons category categories ih =>
    exact le_trans (applyRule_grows D category (fun _ => true) base r) (ih _)

/-
  Either no rule matches the text as received, and it is left
  as it is, or the first rule that does adds an entry.
-/
theorem plainPass_cases (base : Nat) (r : ReversibleRedaction) :
    ((∀ category ∈ categories, D category r.redacted = []) ∧ plainPass D categories base r = r) ∨
      ((∃ category ∈ categories, D category r.redacted ≠ []) ∧
        0 < (plainPass D categories base r).entries.length) := by
  induction categories with
  | nil => exact .inl ⟨by simp, rfl⟩
  | cons category categories ih =>
    by_cases hNone : D category r.redacted = []
    · have hStep : plainPass D (category :: categories) base r = plainPass D categories base r := by
        -- A rule that matches nothing leaves the text alone.
        simp [plainPass, applyRule, hNone, cutAt, replaceMatches]
      rw [hStep]
      simpa [hNone] using ih
    · right
      refine ⟨⟨category, mem_cons_self, hNone⟩, ?_⟩
      exact lt_of_lt_of_le (applyRule_adds D hNone base) (plainPass_grows D categories base _)

/- The card rule adds an entry for each card number. -/
theorem applyRule_card (base : Nat) (value : List Char) :
    0 < (applyRule D .creditCard luhnCheck base ⟨value, []⟩).entries.length ↔
      hasCard D value = true := by
  unfold applyRule hasCard
  rw [length_replaceMatches]
  simp [countP_pos_iff]

theorem mem_rules :
    category ∈ rules := by
  cases category <;> decide

/- Entries are written exactly where a rule has a say. -/
theorem redactReversible_entries (value : List Char) :
    (redactReversible D value).entries ≠ [] ↔
      (∃ category, category ≠ .creditCard ∧ D category value ≠ []) ∨ hasCard D value = true := by
  have hRun :
      redactReversible D value =
        applyRule D .creditCard luhnCheck 0
          (plainPass D (rules.filter (· ≠ .creditCard)) 0 ⟨value, []⟩) :=
    rfl
  rw [← length_pos_iff, hRun]
  rcases plainPass_cases D (rules.filter (· ≠ .creditCard)) 0
      ⟨value, []⟩ with
    ⟨hNone, hSame⟩ | ⟨⟨category, hRule, hSome⟩, hPos⟩
  · rw [hSame, applyRule_card]
    constructor
    · exact .inr
    · rintro (⟨category, hPlain, hSome⟩ | hCard)
      · exact absurd (hNone category (by simp [mem_rules, hPlain])) hSome
      · exact hCard
  · refine ⟨fun _ => .inl ⟨category, ?_, hSome⟩, fun _ => ?_⟩
    · simpa using (mem_filter.mp hRule).2
    · exact lt_of_lt_of_le hPos (applyRule_grows D _ _ _ _)

/-
  The check says yes exactly where the redactor writes an entry, for a rule set that reports the
  rules that match and rules that match no short text.
-/
theorem containsRedactableBy_exact (ruleSet : List Char → List Category)
    (hSet : ∀ value category, category ∈ ruleSet value ↔ D category value ≠ [])
    (hShort : ∀ value category,
      (value.map Char.utf8Size).sum < minRedactableLen → D category value = [])
    (value : List Char) :
    containsRedactableBy D ruleSet value = true ↔ (redactReversible D value).entries ≠ [] := by
  have hCandidate : hasCard D value = true → .creditCard ∈ ruleSet value := by
    intro hCard
    rw [hSet]
    intro hNone
    simp [hasCard, hNone, cutAt] at hCard
  rw [redactReversible_entries]
  unfold containsRedactableBy
  split
  · rename_i hBytes
    have hNone := fun category => hShort value category hBytes
    simp [hNone, hasCard, cutAt]
  · split_ifs with hEmpty
    · have hNone : ∀ category, D category value = [] := by
        intro category
        by_contra hSome
        have hMem := (hSet value category).mpr hSome
        rw [isEmpty_iff.mp hEmpty] at hMem
        cases hMem
      simp [hNone, hasCard, cutAt]
    · rw [judgeHits_eq]
      constructor
      · rintro (⟨category, hHit, hPlain⟩ | ⟨_, hCard⟩)
        · exact .inl ⟨category, hPlain, (hSet value category).mp hHit⟩
        · exact .inr hCard
      · rintro (⟨category, hPlain, hSome⟩ | hCard)
        · exact .inl ⟨category, (hSet value category).mpr hSome, hPlain⟩
        · exact .inr ⟨.inr (hCandidate hCard), hCard⟩

/- One rule that takes texts of six bytes or more whole. -/
def emailOnly : Detectors :=
  fun category value =>
    if category = .email ∧
        minRedactableLen ≤ (value.map Char.utf8Size).sum then
      [(0, value.length)]
    else []

theorem email_checked :
    containsRedactableBy emailOnly
        (fun value => rules.filter (fun category => emailOnly category value ≠ []))
        (chars "a@b.co") = true ↔
      (redactReversible emailOnly (chars "a@b.co")).entries ≠ [] := by
  apply containsRedactableBy_exact
  · intro value category
    simp [mem_rules]
  · intro value category hBytes
    simp [emailOnly, not_le.mpr hBytes]

end Tracelane.Guardrail
