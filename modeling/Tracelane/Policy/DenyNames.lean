import Mathlib.Logic.Relation
import Tracelane.Lib.StrSlice
import Tracelane.Policy.Globs

/-
  Deny lists, and the names a model may carry on the wire of its provider.

  One way of removing routing segments is followed: the first slash, or else the first dot.  A
  vendor before a slash is never removed alone.
-/

namespace Tracelane.Policy

open List

--
-- Deny Lists
--

/- What follows a purely alphabetic `vendor.` segment. -/
def vendorTail (rest : List Char) : Option (List Char) :=
  match StrSlice.splitOnce '.' rest with
  | some (head, tail) =>
      if head ≠ [] ∧ head.all Char.isAlpha then some tail
      else none
  | none => none

/- Everything after the first slash, or else the first dot. -/
def nextName (rest : List Char) : Option (List Char) :=
  match StrSlice.splitOnce '/' rest with
  | some (_, tail) => some tail
  | none => vendorTail rest

variable {rest tail : List Char}

theorem vendorTail_eq_some_iff :
    vendorTail rest = some tail ↔
      ∃ head, rest = head ++ '.' :: tail ∧ head ≠ [] ∧ head.all Char.isAlpha := by
  unfold vendorTail
  constructor
  · intro hTail
    split at hTail
    · rename_i head _ hSplit
      split at hTail <;> cases hTail
      rename_i hHead
      exact ⟨head, (StrSlice.splitOnce_eq_some_iff.mp hSplit).1, hHead⟩
    · cases hTail
  · rintro ⟨head, rfl, hHead⟩
    have hDot : '.' ∉ head := by
      intro hMem
      exact absurd (all_eq_true.mp hHead.2 _ hMem) (by decide)
    rw [StrSlice.splitOnce_eq_some_iff.mpr ⟨rfl, hDot⟩]
    exact if_pos hHead

theorem nextName_eq_some (hNext : nextName rest = some tail) :
    (∃ head, rest = head ++ '/' :: tail ∧ '/' ∉ head) ∨ vendorTail rest = some tail := by
  unfold nextName at hNext
  split at hNext
  · rename_i head _ hSplit
    cases hNext
    exact .inl ⟨head, StrSlice.splitOnce_eq_some_iff.mp hSplit⟩
  · exact .inr hNext

theorem nextName_length_lt (hNext : nextName rest = some tail) :
    tail.length < rest.length := by
  rcases nextName_eq_some hNext with ⟨head, rfl, _⟩ | hVendor
  · simp
    omega
  · rcases vendorTail_eq_some_iff.mp hVendor with ⟨head, rfl, _⟩
    simp
    omega

/- The names a model may carry on the provider's wire. -/
def providerFacingNames (rest : List Char) : List (List Char) :=
  match _ : nextName rest with
  | none => []
  | some tail =>
      if tail = [] then [] else tail :: providerFacingNames tail
termination_by rest.length
decreasing_by exact nextName_length_lt ‹_›

def encode (cs : List Char) : Bytes :=
  cs.flatMap String.utf8EncodeChar

/- Whether any of the patterns matches the name. -/
def anyMatch (patterns : List (List Char)) (name : List Char) : Bool :=
  patterns.any (fun g => globMatch (encode g) (encode name))

def denyMatches (patterns : List (List Char)) (model : List Char) : Bool :=
  anyMatch patterns model || (providerFacingNames model).any (anyMatch patterns)

/- A name left by removing prefixes, in any order. -/
inductive Strips (model : List Char) : List Char → Prop
| refl : Strips model model
| slash {head tail : List Char} :
    Strips model (head ++ '/' :: tail) → tail ≠ [] → Strips model tail
| vendor {head tail : List Char} :
    Strips model (head ++ '.' :: tail) → head ≠ [] →
      head.all Char.isAlpha → tail ≠ [] →
      Strips model tail

/- No pattern that matches a stripped name is evaded. -/
def SeesThrough (model : List Char) : Prop :=
  ∀ patterns name, Strips model name → anyMatch patterns name → denyMatches patterns model

--
-- What They Miss
--

variable {model rest name tail : List Char}

/- The names that are tested: the model and those after it. -/
def tested (model : List Char) : List (List Char) :=
  model :: providerFacingNames model

def Next (rest tail : List Char) : Prop :=
  nextName rest = some tail ∧ tail ≠ []

theorem mem_tested_iff :
    name ∈ tested model ↔ Relation.ReflTransGen Next model name := by
  unfold tested
  fun_induction providerFacingNames model with
  | case1 rest hNext =>
    rw [Relation.ReflTransGen.cases_head_iff]
    simp [Next, hNext, eq_comm]
  | case2 rest hNext =>
    rw [Relation.ReflTransGen.cases_head_iff]
    simp +contextual [Next, hNext, eq_comm]
  | case3 rest tail hNext hTail ih =>
    rw [mem_cons, ih, Relation.ReflTransGen.cases_head_iff (a := rest)]
    simp [Next, hNext, hTail, eq_comm (a := name)]

/- What follows any slash is tested. -/
theorem next_of_slash {head : List Char} (hTail : tail ≠ []) :
    Relation.ReflTransGen Next (head ++ '/' :: tail) tail := by
  induction hLen : head.length using Nat.strong_induction_on generalizing head with
  | h n ih =>
    rcases eq_append_cons_of_mem
        (mem_append_right head mem_cons_self) with
      ⟨first, rest, hSplit, hFirst⟩
    have hNext : nextName (head ++ '/' :: tail) = some rest := by
      rw [nextName, StrSlice.splitOnce_eq_some_iff.mpr ⟨hSplit, hFirst⟩]
    have hLater : tail = rest ∨ ∃ mid, mid.length < n ∧ rest = mid ++ '/' :: tail := by
      rcases append_eq_append_iff.mp hSplit with ⟨mid, rfl, hMid⟩ | ⟨mid, rfl, hMid⟩
      · rcases mid with _ | ⟨c, mid⟩
        · exact .inl (cons.inj hMid).2
        · obtain ⟨rfl, _⟩ := cons.inj hMid
          exact absurd (by simp) hFirst
      · rcases mid with _ | ⟨c, mid⟩
        · exact .inl (cons.inj hMid).2.symm
        · refine .inr ⟨mid, ?_, (cons.inj hMid).2⟩
          simp at hLen
          omega
    rcases hLater with rfl | ⟨mid, hShorter, rfl⟩
    · exact .single ⟨hNext, hTail⟩
    · exact .head ⟨hNext, by simp⟩ (ih _ hShorter rfl)

variable {patterns : List (List Char)}

theorem denyMatches_iff :
    denyMatches patterns model ↔ ∃ name ∈ tested model, anyMatch patterns name := by
  simp [denyMatches, tested]

theorem anyMatch_iff :
    anyMatch patterns name ↔ ∃ g ∈ patterns, Expands (encode g) (encode name) := by
  simp [anyMatch, ← globMatch_iff]

/-
  None of the slash-separated segments but the last begins
  with a `vendor.` segment.
-/
def Unhosted (model : List Char) : Prop :=
  ∀ seg ∈ (model.splitOn '/').dropLast, vendorTail seg = none

theorem unhosted_of_not_mem
    (hSlash : '/' ∉ model) :
    Unhosted model := by
  simp [Unhosted, splitOn_eq_singleton hSlash]

variable {seg : List Char}

theorem unhosted_slash_iff (hSlash : '/' ∉ seg) :
    Unhosted (seg ++ '/' :: rest) ↔
      vendorTail seg = none ∧ Unhosted rest := by
  have hSplit : (seg ++ '/' :: rest).splitOn '/' = seg :: rest.splitOn '/' := by
    refine splitOnP_append_cons_of_forall_mem (fun c hMem => ?_) _ (by simp) _
    exact beq_false_of_ne (fun hSame => hSlash (hSame ▸ hMem))
  rw [Unhosted, hSplit, dropLast_cons_of_ne_nil (splitOn_ne_nil _ _), forall_mem_cons]
  rfl

/- A vendor stands before the first slash, if there is one. -/
theorem vendorTail_append (hSlash : '/' ∉ seg)
    (rest : List Char) :
    vendorTail (seg ++ '/' :: rest) =
      (vendorTail seg).map (fun tail => tail ++ '/' :: rest) := by
  ext tail
  rw [vendorTail_eq_some_iff, Option.map_eq_some_iff]
  constructor
  · rintro ⟨head, hSplit, hHead⟩
    rcases append_eq_append_iff.mp hSplit with ⟨mid, rfl, hMid⟩ | ⟨mid, rfl, hMid⟩
    · rcases mid with _ | ⟨c, mid⟩
      · cases (cons.inj hMid).1
      · obtain ⟨rfl, _⟩ := cons.inj hMid
        have hAlpha := all_eq_true.mp hHead.2 '/' (by simp)
        exact absurd hAlpha (by decide)
    · rcases mid with _ | ⟨c, mid⟩
      · cases (cons.inj hMid).1
      · obtain ⟨rfl, rfl⟩ := cons.inj hMid
        exact ⟨mid, vendorTail_eq_some_iff.mpr ⟨head, rfl, hHead⟩, rfl⟩
  · rintro ⟨mid, hMid, rfl⟩
    rcases vendorTail_eq_some_iff.mp hMid with ⟨head, rfl, hHead⟩
    exact ⟨head, by simp, hHead⟩

/- The names tested after such a model are such, too. -/
theorem Unhosted.next
    (hUnhosted : Unhosted model)
    (hNext : Relation.ReflTransGen Next model name) :
    Unhosted name := by
  induction hNext with
  | refl => exact hUnhosted
  | @tail rest tail _ hStep ih =>
    rcases nextName_eq_some hStep.1 with ⟨head, rfl, hHead⟩ | hVendor
    · exact ((unhosted_slash_iff hHead).mp ih).2
    · refine unhosted_of_not_mem (fun hSlash => ?_)
      rcases eq_append_cons_of_mem hSlash with ⟨first, last, rfl, hFirst⟩
      rcases vendorTail_eq_some_iff.mp hVendor with ⟨head, rfl, hHead⟩
      have hSeg : '/' ∉ head ++ '.' :: first := by
        simp only [mem_append, mem_cons, not_or]
        exact ⟨fun hMem => absurd (all_eq_true.mp hHead.2 _ hMem) (by decide), by decide, hFirst⟩
      have hNone := ((unhosted_slash_iff hSeg).mp (by simpa using ih)).1
      have hSome : vendorTail (head ++ '.' :: first) = some first :=
        vendorTail_eq_some_iff.mpr ⟨head, rfl, hHead⟩
      cases hNone.symm.trans hSome

/- Of such a model, every stripped name is tested. -/
theorem Strips.tested
    (hStrips : Strips model name)
    (hUnhosted : Unhosted model) :
    Relation.ReflTransGen Next model name := by
  induction hStrips with
  | refl => exact .refl
  | slash _ hTail ih => exact ih.trans (next_of_slash hTail)
  | @vendor head tail _ hHead hAll hTail ih =>
    have hVendor : vendorTail (head ++ '.' :: tail) = some tail :=
      vendorTail_eq_some_iff.mpr ⟨head, rfl, hHead, hAll⟩
    refine ih.tail ⟨?_, hTail⟩
    unfold nextName
    split
    · -- A slash would end a segment that a vendor begins.
      rename_i first last hSplit
      rcases StrSlice.splitOnce_eq_some_iff.mp hSplit with ⟨hCut, hFirst⟩
      rw [hCut, vendorTail_append hFirst] at hVendor
      have hNone := ((unhosted_slash_iff hFirst).mp (hCut ▸ hUnhosted.next ih)).1
      simp [hNone] at hVendor
    · exact hVendor

/- A tested name is a stripped one. -/
theorem strips_of_next
    (hNext : Relation.ReflTransGen Next model name) :
    Strips model name := by
  induction hNext with
  | refl => exact .refl
  | tail _ hStep ih =>
    rcases nextName_eq_some hStep.1 with ⟨head, rfl, _⟩ | hVendor
    · exact ih.slash hStep.2
    · rcases vendorTail_eq_some_iff.mp hVendor with ⟨head, rfl, hHead, hAll⟩
      exact ih.vendor hHead hAll hStep.2

theorem Strips.suffix
    (hStrips : Strips model name) :
    name <:+ model := by
  induction hStrips with
  | refl => exact suffix_rfl
  | slash _ _ ih => exact ((suffix_cons _ _).trans (suffix_append _ _)).trans ih
  | vendor _ _ _ _ ih => exact ((suffix_cons _ _).trans (suffix_append _ _)).trans ih

/- Else some tested name has a vendor before its slash. -/
theorem hosted_of_not_unhosted
    (hHosted : ¬Unhosted model) :
    ∃ seg rest tail,
      Relation.ReflTransGen Next model (seg ++ '/' :: rest) ∧
        '/' ∉ seg ∧ vendorTail seg = some tail := by
  induction hLen : model.length using Nat.strong_induction_on generalizing model with
  | h n ih =>
    have hSlash : '/' ∈ model := by
      by_contra hNone
      exact hHosted (unhosted_of_not_mem hNone)
    rcases eq_append_cons_of_mem hSlash with ⟨seg, rest, rfl, hSeg⟩
    cases hTail : vendorTail seg with
    | some tail => exact ⟨seg, rest, tail, .refl, hSeg, hTail⟩
    | none =>
      have hLater : ¬Unhosted rest := fun h =>
        hHosted ((unhosted_slash_iff hSeg).mpr ⟨hTail, h⟩)
      have hNext : Next (seg ++ '/' :: rest) rest := by
        refine ⟨?_, fun hNil => hLater (hNil ▸ unhosted_of_not_mem (by simp))⟩
        rw [nextName, StrSlice.splitOnce_eq_some_iff.mpr ⟨rfl, hSeg⟩]
      rcases ih rest.length (by simp at hLen; omega) hLater rfl with
        ⟨seg', rest', tail, hReach, hFound⟩
      exact ⟨seg', rest', tail, .head hNext hReach, hFound⟩

theorem length_encode_le
    (hNext : Relation.ReflTransGen Next rest tail) :
    (encode tail).length ≤ (encode rest).length := by
  induction hNext with
  | refl => exact le_rfl
  | tail _ hStep ih =>
    refine le_trans ?_ ih
    rcases nextName_eq_some hStep.1 with ⟨head, rfl, _⟩ | hVendor
    · simp [encode]
      omega
    · rcases vendorTail_eq_some_iff.mp hVendor with ⟨head, rfl, _⟩
      simp [encode]
      omega

theorem wild_not_mem_encode
    (hStar : '*' ∉ name) :
    wild ∉ encode name := by
  intro hMem
  rcases mem_flatMap.mp hMem with ⟨c, hIn, hByte⟩
  have hChar : c = '*' :=
    Char.toNat_inj.mp (toNat_eq_of_mem_utf8EncodeChar (by decide) hByte)
  exact hStar (hChar ▸ hIn)

/- A name without stars that a vendor hides is not tested. -/
theorem not_expands_tested {seen : List Char}
    (hStar : '*' ∉ tail ++ '/' :: rest)
    (hSlash : '/' ∉ seg)
    (hVendor : vendorTail seg = some tail)
    (hReach : Relation.ReflTransGen Next model (seg ++ '/' :: rest))
    (hSeen : Relation.ReflTransGen Next model seen) :
    ¬Expands (encode (tail ++ '/' :: rest)) (encode seen) := by
  intro hExpands
  have hLen := hExpands.length_eq (wild_not_mem_encode hStar)
  rcases vendorTail_eq_some_iff.mp hVendor with ⟨head, rfl, _⟩
  have hDot : '.'.utf8Size = 1 := rfl
  have hOne : '/'.utf8Size = 1 := rfl
  have hUnique : Relator.RightUnique Next := fun _ _ _ h h' =>
    Option.some.inj (h.1.symm.trans h'.1)
  -- The tested names are a chain; this one falls between two.
  rcases hReach.total_of_right_unique hUnique hSeen with hAfter | hBefore
  · rcases hAfter.cases_head with rfl | ⟨after, hNext, hRest⟩
    · simp [encode] at hLen
      omega
    · rw [Next, nextName, StrSlice.splitOnce_eq_some_iff.mpr ⟨rfl, hSlash⟩] at hNext
      obtain rfl := Option.some.inj hNext.1
      have hLe := length_encode_le hRest
      simp [encode] at hLen hLe
      omega
  · have hLe := length_encode_le hBefore
    simp [encode] at hLen hLe
    omega

/-
  A model of which no segment but the last begins with a
  vendor is seen through; of the models without stars, only
  these are.
-/
theorem seesThrough_iff (model : List Char) :
    (Unhosted model → SeesThrough model) ∧
      ('*' ∉ model → (SeesThrough model ↔ Unhosted model)) := by
  have hSees : Unhosted model → SeesThrough model := by
    intro hUnhosted patterns name hStrips hMatch
    have hTested := mem_tested_iff.mpr (hStrips.tested hUnhosted)
    exact denyMatches_iff.mpr ⟨name, hTested, hMatch⟩
  refine ⟨hSees, fun hStar => ⟨fun hThrough => ?_, hSees⟩⟩
  by_contra hHosted
  rcases hosted_of_not_unhosted hHosted with ⟨seg, rest, tail, hReach, hSlash, hVendor⟩
  have hRest : Strips model (seg ++ '/' :: rest) := strips_of_next hReach
  rcases vendorTail_eq_some_iff.mp hVendor with ⟨head, rfl, hHead, hAll⟩
  have hFront : Strips model (head ++ '.' :: (tail ++ '/' :: rest)) := by simpa using hRest
  have hStrips : Strips model (tail ++ '/' :: rest) := .vendor hFront hHead hAll (by simp)
  have hName : '*' ∉ tail ++ '/' :: rest := fun hMem =>
    hStar (hStrips.suffix.subset hMem)
  have hDeny := hThrough [tail ++ '/' :: rest] _ hStrips
    (anyMatch_iff.mpr ⟨_, mem_singleton_self _, .refl _⟩)
  rcases denyMatches_iff.mp hDeny with ⟨seen, hSeen, hMatch⟩
  rcases anyMatch_iff.mp hMatch with ⟨g, hMem, hExpands⟩
  cases mem_singleton.mp hMem
  exact not_expands_tested hName hSlash hVendor hReach (mem_tested_iff.mp hSeen) hExpands

/- A segment before the slash hides the name it stands for. -/
def hosted : List Char := "azure.openai/gpt-4o".toList

def denied : List Char := "openai/gpt-4o".toList

theorem eq_of_mem_tested_hosted (hTested : name ∈ tested hosted) :
    name = hosted ∨ name = "gpt-4o".toList := by
  have hFirst : nextName hosted = some "gpt-4o".toList := by decide
  have hLast : nextName "gpt-4o".toList = none := by decide
  rw [mem_tested_iff] at hTested
  rcases hTested.cases_head with rfl | ⟨tail, hNext, hRest⟩
  · exact .inl rfl
  · obtain rfl : _ = tail := Option.some.inj (hFirst.symm.trans hNext.1)
    rcases hRest.cases_head with rfl | ⟨_, hNext, _⟩
    · exact .inr rfl
    · cases hLast.symm.trans hNext.1

theorem hosted_evades :
    Strips hosted denied ∧ anyMatch [denied] denied ∧ ¬ denyMatches [denied] hosted := by
  refine ⟨?_, anyMatch_iff.mpr ⟨denied, mem_singleton_self _, .refl _⟩, ?_⟩
  · exact .vendor (.refl : Strips _ ("azure".toList ++ '.' :: _))
      (by decide) (by decide) (by decide)
  · rw [denyMatches_iff]
    rintro ⟨name, hTested, hMatch⟩
    rcases anyMatch_iff.mp hMatch with ⟨g, hMem, hExpands⟩
    cases mem_singleton.mp hMem
    have hHead : encode denied = 111 :: (encode denied).tail := by decide
    rw [hHead, expands_byte_iff (by decide)] at hExpands
    rcases hExpands with ⟨b, u, hText, hSame, _⟩
    rcases eq_of_mem_tested_hosted hTested with rfl | rfl
    all_goals
      cases hText
      exact absurd hSame (by decide)

/- A vendor in the last segment is seen through. -/
theorem routed_seesThrough :
    SeesThrough "openrouter/us.anthropic.claude".toList ∧ ¬SeesThrough hosted :=
  ⟨(seesThrough_iff _).1 (by unfold Unhosted; decide),
    fun hSees => absurd (((seesThrough_iff hosted).2 (by decide)).mp hSees)
      (by unfold Unhosted; decide)⟩

end Tracelane.Policy
