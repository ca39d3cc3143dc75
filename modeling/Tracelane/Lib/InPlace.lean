import Mathlib.Data.List.Forall2
import Mathlib.Data.Option.Basic

/-
  Rewriting a structure in place.

  A pass rewrites some items of a structure one after another and threads a state through them.
  What it does is the run over its items, together with a relation of the new structure to the old
  that is carried by any relation of the new items to the old.
-/

namespace InPlace

open Option List Prod

variable {σ ι β A B : Type}

--
-- Passes
--

/- A rewrite that threads a state and may not return. -/
abbrev Pass (σ A : Type) :=
  σ → Option (σ × A)

/- Leave a part as it is. -/
def keep (a : A) : Pass σ A :=
  fun s => some (s, a)

/- Put what a pass returns into its place. -/
def into (f : A → B) (p : Pass σ A) : Pass σ B :=
  fun s => (p s).map (fun r => (r.1, f r.2))

/- One pass after another. -/
def andThen (p : Pass σ A) (q : A → Pass σ B) : Pass σ B :=
  fun s => (p s).bind (fun r => q r.2 r.1)

def inEach (f : A → Pass σ A) : List A → Pass σ (List A)
| [] => keep []
| a :: as =>
    andThen (f a) (fun a' => into (fun as' => a' :: as') (inEach f as))

def inOption (f : A → Pass σ A) : Option A → Pass σ (Option A)
| none => keep none
| some a => into some (f a)

variable (visit : ι → Pass σ β)

/- Visit the items one after another. -/
def visitAll : List ι → Pass σ (List β)
| [], s => some (s, [])
| i :: is, s =>
    (visit i s).bind (fun r => (visitAll is r.1).map (fun r' => (r'.1, r.2 :: r'.2)))

theorem visitAll_append (is js : List ι) (s : σ) :
    visitAll visit (is ++ js) s =
      (visitAll visit is s).bind (fun r =>
        (visitAll visit js r.1).map (fun r' => (r'.1, r.2 ++ r'.2))) := by
  induction is generalizing s with
  | nil =>
    cases hRest : visitAll visit js s with
    | none | some _ => simp [visitAll, hRest]
  | cons i is ih =>
    simp only [cons_append, visitAll, ih]
    cases visit i s with
    | none => rfl
    | some r =>
      simp only [bind_some]
      cases visitAll visit is r.1 with
      | none => rfl
      | some r' =>
        simp only [bind_some, map_some, Option.map_map]
        rfl

theorem visitAll_map {κ : Type} (g : κ → ι) (items : List κ) (s : σ) :
    visitAll visit (items.map g) s = visitAll (fun k => visit (g k)) items s := by
  induction items generalizing s with
  | nil => rfl
  | cons k items ih => simp only [map_cons, visitAll, ih]

theorem length_of_visitAll {is : List ι} {s s' : σ} {bs : List β}
    (hVisit : visitAll visit is s = some (s', bs)) :
    is.length = bs.length := by
  induction is generalizing s bs with
  | nil =>
    simp only [visitAll, some.injEq, mk.injEq] at hVisit
    rw [← hVisit.2]
    rfl
  | cons i is ih =>
    simp only [visitAll, bind_eq_some_iff, map_eq_some_iff, Prod.exists, Prod.mk.injEq] at hVisit
    rcases hVisit with ⟨t, b, _, t', bs', hRest, hState, hBs⟩
    subst hState hBs
    rw [length_cons, length_cons, ih hRest]

--
-- What a Pass Visits
--

/-
  A pass is the run over its items; any relation of the items
  to what they became carries over to the structures.
-/
def Follows (p : Pass σ A) (items : List ι) (Rel : (ι → β → Prop) → A → Prop) : Prop :=
  ∀ s s' a, p s = some (s', a) →
    ∃ outs, visitAll visit items s = some (s', outs) ∧ ∀ R, Forall₂ R items outs → Rel R a

variable {visit} {Rel : (ι → β → Prop) → A → Prop} {p : Pass σ A}

theorem Follows.mono {items : List ι} {Rel' : (ι → β → Prop) → A → Prop}
    (hFollows : Follows visit p items Rel) (hRel : ∀ R a, Rel R a → Rel' R a) :
    Follows visit p items Rel' := by
  intro s s' a hRun
  rcases hFollows s s' a hRun with ⟨outs, hVisit, hOuts⟩
  exact ⟨outs, hVisit, fun R hR => hRel R a (hOuts R hR)⟩

theorem follows_keep (a : A) (hRel : ∀ R, Rel R a) :
    Follows visit (keep a) [] Rel := by
  intro s s' a' hRun
  simp only [keep, some.injEq, mk.injEq] at hRun
  rcases hRun with ⟨hState, hA⟩
  subst hState hA
  exact ⟨[], rfl, fun R _ => hRel R⟩

theorem follows_visit (visit : ι → Pass σ β) (i : ι) :
    Follows visit (visit i) [i] (fun R b => R i b) := by
  intro s s' b hRun
  refine ⟨[b], ?_, ?_⟩
  · simp [visitAll, hRun]
  · intro R hR
    rw [forall₂_cons] at hR
    exact hR.1

theorem Follows.into {items : List ι} (hFollows : Follows visit p items Rel) (f : A → B) :
    Follows visit (InPlace.into f p) items (fun R b => ∃ a, Rel R a ∧ b = f a) := by
  intro s s' b hRun
  rcases map_eq_some_iff.mp hRun with ⟨r, hP, hB⟩
  rw [mk.injEq] at hB
  rcases hB with ⟨hState, hB⟩
  subst hState hB
  rcases hFollows s r.1 r.2 hP with ⟨outs, hVisit, hOuts⟩
  exact ⟨outs, hVisit, fun R hR => ⟨r.2, hOuts R hR, rfl⟩⟩

/- The second pass may count on the shape the first left. -/
theorem Follows.andThen {q : A → Pass σ B} {items items' : List ι}
    {Rel' : A → (ι → β → Prop) → B → Prop} (hFirst : Follows visit p items Rel)
    (hSecond : ∀ a, Rel (fun _ _ => True) a → Follows visit (q a) items' (Rel' a)) :
    Follows visit (InPlace.andThen p q) (items ++ items')
      (fun R b => ∃ a, Rel R a ∧ Rel' a R b) := by
  intro s s' b hRun
  rcases bind_eq_some_iff.mp hRun with ⟨r, hP, hQ⟩
  rcases hFirst s r.1 r.2 hP with ⟨outs, hVisit, hOuts⟩
  have hShape : Rel (fun _ _ => True) r.2 := by
    apply hOuts
    rw [forall₂_iff_get]
    exact ⟨length_of_visitAll visit hVisit, fun _ _ _ => trivial⟩
  rcases hSecond r.2 hShape r.1 s' b hQ with ⟨outs', hVisit', hOuts'⟩
  refine ⟨outs ++ outs', ?_, ?_⟩
  · rw [visitAll_append, hVisit, bind_some, hVisit', map_some]
  · intro R hR
    have hLen := length_of_visitAll visit hVisit
    have hFront := forall₂_take_append _ _ _ hR
    have hBack := forall₂_drop_append _ _ _ hR
    rw [← hLen, take_left] at hFront
    rw [← hLen, drop_left] at hBack
    exact ⟨r.2, hOuts R hFront, hOuts' R hBack⟩

theorem follows_inEach {f : A → Pass σ A} {items : A → List ι} {Rel : A → (ι → β → Prop) → A → Prop}
    (hEach : ∀ a, Follows visit (f a) (items a) (Rel a)) (as : List A) :
    Follows visit (inEach f as) (as.flatMap items)
      (fun R as' => Forall₂ (fun a a' => Rel a R a') as as') := by
  induction as with
  | nil => exact follows_keep [] (fun _ => .nil)
  | cons a as ih =>
    have hAll := (hEach a).andThen (fun a' _ => ih.into (fun as' => a' :: as'))
    rw [flatMap_cons]
    apply hAll.mono
    rintro R _ ⟨a', hFirst, as', hAs, rfl⟩
    exact Forall₂.cons hFirst hAs

theorem follows_inOption {f : A → Pass σ A} {items : A → List ι}
    {Rel : A → (ι → β → Prop) → A → Prop}
    (hEach : ∀ a, Follows visit (f a) (items a) (Rel a)) (o : Option A) :
    Follows visit (inOption f o) (o.toList.flatMap items)
      (fun R o' => Option.Rel (fun a a' => Rel a R a') o o') := by
  cases o with
  | none => exact follows_keep none (fun _ => .none)
  | some a =>
    simp only [toList_some, flatMap_cons, flatMap_nil, append_nil]
    apply ((hEach a).into some).mono
    rintro R _ ⟨a', hFirst, rfl⟩
    exact Option.Rel.some hFirst

/- A pass over items of one kind among several. -/
theorem Follows.among {κ : Type} {g : κ → ι} {items : List κ}
    {Rel : (κ → β → Prop) → A → Prop} (hFollows : Follows (fun k => visit (g k)) p items Rel) :
    Follows visit p (items.map g) (fun R => Rel (fun k => R (g k))) := by
  intro s s' a hRun
  rcases hFollows s s' a hRun with ⟨outs, hVisit, hOuts⟩
  refine ⟨outs, ?_, ?_⟩
  · rw [visitAll_map, hVisit]
  · intro R hR
    exact hOuts _ (forall₂_map_left_iff.mp hR)

theorem forall₂_trans {C : Type} {P : A → B → Prop} {Q : B → C → Prop} {R : A → C → Prop}
    (hTrans : ∀ a b c, P a b → Q b c → R a c)
    {as : List A} {bs : List B} {cs : List C} (hFirst : Forall₂ P as bs)
    (hSecond : Forall₂ Q bs cs) :
    Forall₂ R as cs := by
  induction hFirst generalizing cs with
  | nil =>
    cases hSecond
    exact Forall₂.nil
  | cons hHead hTail ih =>
    cases hSecond with
    | cons hHead' hTail' =>
      exact Forall₂.cons (hTrans _ _ _ hHead hHead') (ih hTail')

theorem flatMap_congr_of_forall₂ {P : A → A → Prop} {f : A → List B} {as as' : List A}
    (hAs : Forall₂ P as as') (hF : ∀ a a', P a a' → f a' = f a) :
    as'.flatMap f = as.flatMap f := by
  induction hAs with
  | nil => rfl
  | cons hHead hTail ih =>
    rw [flatMap_cons, flatMap_cons, ih, hF _ _ hHead]

--
-- Conditions on the State before Each Item
--

variable (visit)

/- Each item is allowed in the state that it is visited in. -/
def allowed (ok : σ → ι → Bool) : List ι → σ → Bool
| [], _ => true
| i :: is, s =>
    ok s i &&
      (match visit i s with
      | none => true
      | some r => allowed ok is r.1)

/-
  An allowed visit to a good item keeps the invariant, moves
  the state on, and grants something that later states keep.
-/
structure Upkeep (ok : σ → ι → Bool) (Good : ι → Prop) (Inv : σ → Prop)
    (Le : σ → σ → Prop) (Grant : σ → ι → β → Prop) : Prop where
  refl : ∀ s, Le s s
  trans : ∀ r s t, Le r s → Le s t → Le r t
  mono : ∀ s t i b, Le s t → Grant s i b → Grant t i b
  step :
    ∀ i s t b, Good i → Inv s → ok s i = true →
      visit i s = some (t, b) → Inv t ∧ Le s t ∧ Grant t i b

/- What the visits grant is granted in the last state. -/
theorem Upkeep.visitAll {ok : σ → ι → Bool} {Good : ι → Prop} {Inv : σ → Prop}
    {Le : σ → σ → Prop} {Grant : σ → ι → β → Prop} (hUpkeep : Upkeep visit ok Good Inv Le Grant)
    {is : List ι} {s t : σ} {bs : List β} (hGood : ∀ i ∈ is, Good i)
    (hAllowed : allowed visit ok is s = true) (hInv : Inv s)
    (hVisit : InPlace.visitAll visit is s = some (t, bs)) :
    Inv t ∧ Le s t ∧ Forall₂ (Grant t) is bs := by
  induction is generalizing s bs with
  | nil =>
    simp only [InPlace.visitAll, some.injEq, mk.injEq] at hVisit
    rcases hVisit with ⟨hState, hBs⟩
    subst hState hBs
    exact ⟨hInv, hUpkeep.refl s, Forall₂.nil⟩
  | cons i is ih =>
    simp only [InPlace.visitAll, bind_eq_some_iff, map_eq_some_iff, Prod.exists, Prod.mk.injEq]
      at hVisit
    rcases hVisit with ⟨mid, b, hFirst, t', bs', hRest, hState, hBs⟩
    subst hState hBs
    simp only [allowed, Bool.and_eq_true, hFirst] at hAllowed
    rcases hUpkeep.step i s mid b (hGood i (by simp)) hInv
        hAllowed.1 hFirst with ⟨hMid, hLe, hGrant⟩
    rcases ih (fun j hJ => hGood j (by simp [hJ])) hAllowed.2 hMid hRest with ⟨hLast, hLe', hGrants⟩
    have hKept := hUpkeep.mono _ _ _ _ hLe' hGrant
    exact ⟨hLast, hUpkeep.trans _ _ _ hLe hLe', Forall₂.cons hKept hGrants⟩

end InPlace
