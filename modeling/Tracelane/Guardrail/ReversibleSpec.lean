import Tracelane.Guardrail.Placeholders

/-
  When reversible redaction can be taken back.

  The run of the rules is followed on a text whose placeholders are known as such.  As long as no
  match that is replaced touches one of them, the redacted text says what the user wrote, hole by
  hole, and a class policy keeps it so.
-/

namespace Tracelane.Guardrail

open List
open Holes Option Marked

variable (D : Detectors)

--
-- Following the Rules
--

/- A marked text and the entries so far. -/
structure Tracked where
  segs : Marked
  entries : List RedactionEntry

def Tracked.redaction (t : Tracked) : ReversibleRedaction :=
  ⟨t.segs.sent, t.entries⟩

/-
  Replace the matches of one rule in a marked text, the first `skip` characters of which are behind
  the matches.  Fails where a match that is replaced touches a placeholder.
-/
def trackMatches (category : Category) (accept : List Char → Bool) (base : Nat) :
    Nat → List (Nat × Nat) → Marked → List RedactionEntry → Option Tracked
| _, [], segs, entries => some ⟨segs, entries⟩
| skip, (gap, len) :: spans, segs, entries =>
    let original := (segs.sent.drop (skip + gap)).take len
    if accept original then
      let entry : RedactionEntry :=
        ⟨category,
          placeholder category (base + entries.length), original⟩
      (takeGap RedactionEntry.placeholder (skip + gap) segs).bind
        (fun front =>
          (takeText len front.2).bind (fun text =>
            (trackMatches category accept base 0 spans text.2 (entries ++ [entry])).map
              (fun t => ⟨front.1 ++ .inr entry :: t.segs, t.entries⟩)))
    else
      trackMatches category accept base (skip + gap + len) spans segs entries

def trackRule (category : Category) (accept : List Char → Bool) (base : Nat)
    (t : Tracked) : Option Tracked :=
  trackMatches category accept base 0 (D category t.segs.sent) t.segs t.entries

def track (value : List Char) (base : Nat) : Option Tracked :=
  let plainRules := rules.filter (· ≠ .creditCard)
  (plainRules.foldlM
    (fun t category => trackRule D category (fun _ => true) base t)
    ⟨value.map .inl, []⟩).bind (trackRule D .creditCard luhnCheck base)

/-
  No match that a rule replaces in what the rules before it
  left touches a placeholder that they put there.
-/
def intact (value : List Char) (base : Nat) : Bool :=
  (track D value base).isSome

--
-- One Rule
--

variable {segs : Marked} {base skip : Nat} {t t' : Tracked}

/- Where a match lies clear of the placeholders. -/
theorem clear_of_take {n len : Nat} {front rest rest' : Marked} {text : List Char}
    (hGap : takeGap RedactionEntry.placeholder n segs = some (front, rest))
    (hText : takeText len rest = some (text, rest')) :
    front.sent = segs.sent.take n ∧
      text = (segs.sent.drop n).take len ∧
      rest'.sent = segs.sent.drop (n + len) ∧
      segs = front ++ (text.map .inl ++ rest') := by
  rcases takeGap_eq_some _ hGap with ⟨hSplit, hFront, hBack⟩
  rcases takeText_eq_some RedactionEntry.placeholder hText with ⟨hSplit', hOriginal, hBack'⟩
  refine ⟨hFront, ?_, ?_, ?_⟩
  · rw [hOriginal, hBack]
    rfl
  · rw [sent, hBack', hBack, drop_drop]
    rfl
  · rw [hSplit, hSplit']

variable {accept : List Char → Bool} {category : Category} {t : Tracked}
variable {entries : List RedactionEntry} {spans : List (Nat × Nat)}

section

variable (hTrack : trackMatches category accept base skip spans segs entries = some t)
include hTrack

/- The marked text is the one the rule leaves. -/
theorem trackMatches_sent :
    let cut := cutAt spans (segs.sent.drop skip)
    let r := replaceMatches category accept base cut.1 cut.2 entries
    t.segs.sent = segs.sent.take skip ++ r.redacted ∧
      t.entries = r.entries ∧ t.segs.meant = segs.meant := by
  induction spans generalizing skip segs entries t with
  | nil =>
    simp only [trackMatches, Option.some.injEq] at hTrack
    subst hTrack
    simp [cutAt, replaceMatches]
  | cons span spans ih =>
    rcases span with ⟨gap, len⟩
    simp only [trackMatches] at hTrack
    simp only [cutAt, replaceMatches, drop_drop]
    split at hTrack
    · rename_i hAccept
      rw [if_pos hAccept]
      simp only [bind_eq_some_iff, map_eq_some_iff, Prod.exists] at hTrack
      rcases hTrack with ⟨front, rest, hGap, text, rest', hText, t', hRest, hT⟩
      subst hT
      rcases clear_of_take hGap hText with ⟨hFront, hOriginal, hBack, hSegs⟩
      rcases ih hRest with ⟨hSent, hEntries, hMeant⟩
      rw [drop_zero, hBack] at hSent hEntries
      refine ⟨?_, hEntries, ?_⟩
      · rw [sent, render_append, render_inr, ← sent, ← sent, hSent, hFront, take_add]
        simp only [append_assoc, take_zero, nil_append]
      · rw [← hOriginal, hSegs]
        simp only [Marked.meant, render_append, render_inr, render_raw] at hMeant ⊢
        rw [hMeant]
    · rename_i hReject
      rw [if_neg hReject]
      rcases ih hTrack with ⟨hSent, hEntries, hMeant⟩
      refine ⟨?_, hEntries, hMeant⟩
      rw [hSent]
      simp only [take_add, append_assoc, drop_drop, Nat.add_assoc]

/- The rule numbers on, and its holes are its entries. -/
theorem trackMatches_entries
    (hNumbered : Numbered base entries) (hHoles : ∀ e, .inr e ∈ segs → e ∈ entries) :
    Numbered base t.entries ∧ entries <+: t.entries ∧ ∀ e, .inr e ∈ t.segs → e ∈ t.entries := by
  induction spans generalizing skip segs entries t with
  | nil =>
    simp only [trackMatches, Option.some.injEq] at hTrack
    subst hTrack
    exact ⟨hNumbered, prefix_refl _, hHoles⟩
  | cons span spans ih =>
    rcases span with ⟨gap, len⟩
    simp only [trackMatches] at hTrack
    split at hTrack
    · simp only [bind_eq_some_iff, map_eq_some_iff, Prod.exists] at hTrack
      rcases hTrack with ⟨front, rest, hGap, text, rest', hText, t', hRest, hT⟩
      subst hT
      rcases clear_of_take hGap hText with ⟨_, _, _, hSegs⟩
      have hNext := ih hRest
        ((numbered_append_iff _ _ _).mpr ⟨hNumbered, rfl, trivial⟩)
        (fun e hMem => mem_append_left _ (hHoles e (by simp [hSegs, hMem])))
      rcases hNext with ⟨hNumbered', hPrefix, hHoles'⟩
      refine ⟨hNumbered', (prefix_append _ _).trans hPrefix, ?_⟩
      intro e hMem
      rcases mem_append.mp hMem with hFront | hTail
      · have hOld : e ∈ entries := hHoles e (by simp [hSegs, hFront])
        exact hPrefix.subset (mem_append_left _ hOld)
      · rcases mem_cons.mp hTail with hNew | hTail
        · rw [Sum.inr.injEq] at hNew
          rw [hNew]
          exact hPrefix.subset (by simp)
        · exact hHoles' e hTail
    · exact ih hTrack hNumbered hHoles

--
-- All Rules
--

end

/- Nothing is lost: the marked text says `value`, and each hole is one of the entries. -/
structure Written (base : Nat) (value : List Char) (t : Tracked) : Prop where
  meant : t.segs.meant = value
  numbered : Numbered base t.entries
  holes : ∀ e, .inr e ∈ t.segs → e ∈ t.entries

/- A text with no hole says itself. -/
theorem Written.refl (base : Nat) (value : List Char) :
    Written base value ⟨value.map .inl, []⟩ where
  meant := render_raw _ _
  numbered := trivial
  holes := by
    intro e hMem
    simp at hMem

variable {value : List Char} {base : Nat}

theorem trackRule_written (hWritten : Written base value t)
    (hTrack : trackRule D category accept base t = some t') :
    t'.redaction = applyRule D category accept base t.redaction ∧ Written base value t' := by
  rcases trackMatches_sent hTrack with ⟨hSent, hEntries, hMeant⟩
  rcases trackMatches_entries hTrack hWritten.numbered hWritten.holes with ⟨hNumbered, _, hHoles⟩
  rw [take_zero, nil_append, drop_zero] at hSent
  rw [drop_zero] at hEntries
  refine ⟨?_, ?_, hNumbered, hHoles⟩
  · rw [Tracked.redaction, hSent, hEntries]
    rfl
  · rw [hMeant, hWritten.meant]

theorem trackRules_written {categories : List Category} (hWritten : Written base value t)
    (hTrack :
      categories.foldlM (fun t category => trackRule D category (fun _ => true) base t) t =
        some t') :
    t'.redaction =
        categories.foldl
          (fun r category => applyRule D category (fun _ => true) base r)
          t.redaction ∧
      Written base value t' := by
  induction categories generalizing t with
  | nil =>
    simp only [foldlM_nil, Option.pure_def, Option.some.injEq] at hTrack
    subst hTrack
    exact ⟨rfl, hWritten⟩
  | cons category categories ih =>
    simp only [foldlM_cons, bind_eq_bind, bind_eq_some_iff] at hTrack
    rcases hTrack with ⟨mid, hFirst, hRest⟩
    rcases trackRule_written D hWritten hFirst with ⟨hMid, hWritten'⟩
    rw [foldl_cons, ← hMid]
    exact ih hWritten' hRest

/- An intact redaction loses nothing. -/
theorem written_redactReversibleFrom (hIntact : intact D value base = true) :
    ∃ t : Tracked, t.redaction = redactReversibleFrom D value base ∧ Written base value t := by
  rcases isSome_iff_exists.mp hIntact with ⟨t, hTrack⟩
  unfold track at hTrack
  rcases bind_eq_some_iff.mp hTrack with ⟨mid, hPlain, hCards⟩
  rcases trackRules_written D (Written.refl base value) hPlain with ⟨hMid, hWritten⟩
  rcases trackRule_written D hWritten hCards with ⟨hLast, hWritten'⟩
  refine ⟨t, ?_, hWritten'⟩
  rw [hLast, hMid, Tracked.redaction, sent, render_raw]
  rfl

--
-- Class Policies
--

/-
  Halfway through the entries: those kept are numbered anew,
  and their numbers stay behind those of the entries to come.
-/
structure Selecting (base n : Nat) (value : List Char) (t : Tracked)
    (es : List RedactionEntry) : Prop where
  meant : t.segs.meant = value
  numbered : Numbered base t.entries
  pending : Numbered n es
  behind : base + t.entries.length ≤ n
  holes : ∀ e, .inr e ∈ t.segs → e ∈ t.entries ∨ e ∈ es

section Entry

variable {base n : Nat} {value : List Char} {t : Tracked}
variable {entry : RedactionEntry} {es : List RedactionEntry}

theorem Selecting.placed (hSelecting : Selecting base n value t es) :
    t.segs.Placed := by
  intro e hMem
  rcases hSelecting.holes e hMem with hKept | hPending
  · rcases hSelecting.numbered.mem hKept with ⟨k, _, _, hMark⟩
    exact ⟨k, hMark⟩
  · rcases hSelecting.pending.mem hPending with ⟨k, _, _, hMark⟩
    exact ⟨k, hMark⟩

/- The holes of the next entry's placeholder are its own. -/
theorem Selecting.eq_entry (hSelecting : Selecting base n value t (entry :: es))
    {e : RedactionEntry} (hMem : .inr e ∈ t.segs) (hMark : e.placeholder = entry.placeholder) :
    e = entry := by
  rcases hSelecting.holes e hMem with hKept | hPending
  · rcases hSelecting.numbered.mem hKept with ⟨k, _, hHigh, hIndex⟩
    rw [hIndex, hSelecting.pending.1] at hMark
    have hN := placeholder_index hMark
    have hBehind := hSelecting.behind
    omega
  · exact hSelecting.pending.eq_of_placeholder hPending mem_cons_self hMark

/- Fill the next entry's holes by what it stands for. -/
theorem Selecting.fill (hSelecting : Selecting base n value t (entry :: es))
    (hFree : OpenFree value) (into : Marked) (kept : List RedactionEntry)
    (hInto : into.meant = entry.original) (hHoles : ∀ e, .inr e ∈ into → e ∈ kept)
    (hNumbered : Numbered base (t.entries ++ kept)) (hKept : kept.length ≤ 1) :
    ∃ segs : Marked,
      segs.sent = replaceAll entry.placeholder into.sent t.segs.sent ∧
        Selecting base (n + 1) value ⟨segs, t.entries ++ kept⟩ es := by
  refine ⟨Holes.fill RedactionEntry.placeholder entry.placeholder into t.segs, ?_, ?_, hNumbered,
    hSelecting.pending.2, ?_, ?_⟩
  · rw [hSelecting.pending.1, replaceAll_sent _ hSelecting.placed]
    rw [hSelecting.meant]
    exact hFree
  · rw [← hSelecting.meant]
    apply render_fill_same
    intro e hMem hMark
    rw [hSelecting.eq_entry hMem hMark, ← hInto]
    rfl
  · have hBehind := hSelecting.behind
    rw [length_append]
    omega
  · intro e hMem
    rcases hole_of_mem_fill _ _ hMem with hNew | hOld
    · exact .inl (mem_append_right _ (hHoles e hNew))
    · rcases hSelecting.holes e hOld.1 with hBefore | hPending
      · exact .inl (mem_append_left _ hBefore)
      · rcases mem_cons.mp hPending with hEntry | hLater
        · rw [hEntry] at hOld
          exact absurd rfl hOld.2
        · exact .inr hLater

theorem Selecting.step (policy : PiiPolicy) (hSelecting : Selecting base n value t (entry :: es))
    (hFree : OpenFree value) :
    ∃ t' : Tracked,
      t'.redaction = selectEntry policy base t.redaction entry ∧
        Selecting base (n + 1) value t' es := by
  unfold selectEntry
  by_cases hAction : policy.action entry = some .redact
  · rw [if_pos hAction]
    let kept : RedactionEntry :=
      ⟨entry.category, placeholder entry.category (base + t.entries.length), entry.original⟩
    have hFill :=
      hSelecting.fill hFree [.inr kept] [kept] (by simp [Marked.meant, kept])
        (by simp)
        ((numbered_append_iff _ _ _).mpr ⟨hSelecting.numbered, rfl, trivial⟩) (by simp)
    rcases hFill with ⟨segs, hSent, hNext⟩
    refine ⟨⟨segs, t.entries ++ [kept]⟩, ?_, hNext⟩
    rw [Tracked.redaction, hSent]
    simp only [sent, render_inr, render_nil, append_nil]
    rfl
  · rw [if_neg hAction]
    have hFill :=
      hSelecting.fill hFree (entry.original.map .inl) [] (render_raw _ _) (by simp)
        (by simpa using hSelecting.numbered)
        (by simp)
    rcases hFill with ⟨segs, hSent, hNext⟩
    rw [append_nil] at hNext
    refine ⟨⟨segs, t.entries⟩, ?_, hNext⟩
    rw [Tracked.redaction, hSent, sent, render_raw]
    rfl

end Entry

/- Every entry in turn. -/
theorem selectEntries_written (policy : PiiPolicy) {base n : Nat} {es : List RedactionEntry}
    (hSelecting : Selecting base n value t es) (hFree : OpenFree value) :
    ∃ t' : Tracked,
      t'.redaction = es.foldl (selectEntry policy base) t.redaction ∧ Written base value t' := by
  induction es generalizing n t with
  | nil =>
    refine ⟨t, rfl, hSelecting.meant, hSelecting.numbered, ?_⟩
    intro e hMem
    rcases hSelecting.holes e hMem with hKept | hNone
    · exact hKept
    · cases hNone
  | cons entry es ih =>
    rcases hSelecting.step policy hFree with ⟨mid, hMid, hNext⟩
    rw [foldl_cons, ← hMid]
    exact ih hNext

/- What `pii_policy::redact` returns loses nothing. -/
theorem written_redactSelective (policy : Option PiiPolicy)
    (hFree : OpenFree value) (hIntact : intact D value base = true) :
    ∃ t : Tracked, t.redaction = redactSelective D policy value base ∧ Written base value t := by
  rcases written_redactReversibleFrom D hIntact with ⟨raw, hRaw, hWritten⟩
  unfold redactSelective
  simp only
  rw [← hRaw]
  cases policy with
  | none => exact ⟨raw, rfl, hWritten⟩
  | some policy =>
    -- No entry is kept yet; every hole is one to come.
    have hSelecting : Selecting base base value ⟨raw.segs, []⟩ raw.entries := by
      refine ⟨hWritten.meant, trivial, hWritten.numbered, Nat.le_refl base, ?_⟩
      intro e hMem
      exact .inr (hWritten.holes e hMem)
    exact selectEntries_written policy hSelecting hFree

end Tracelane.Guardrail
