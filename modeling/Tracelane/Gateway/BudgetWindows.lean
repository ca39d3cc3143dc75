import Mathlib.Algebra.BigOperators.Intervals
import Mathlib.Data.List.MinMax
import Tracelane.Gateway.Budgets

/-
  What a window's counter promises over many requests.

  The hours of a rolling window are dropped from the front of a queue that a late cost joins at the
  back.  A threshold that a calendar window's sink takes is fired for the period, and one it refuses
  is offered again.
-/

namespace Tracelane.Gateway

open Nat Prod

namespace Counter

open List

------------------------------------------------------------
-- Rolling Windows
------------------------------------------------------------

/- What is held for an hour, over all its entries. -/
def held (hours : List (Nat × Nat)) (h : Nat) : Nat :=
  (hours.map (fun e => if e.1 = h then e.2 else 0)).sum

/- What is held for all hours. -/
def total (hours : List (Nat × Nat)) : Nat :=
  (hours.map snd).sum

/-
  A rolling counter, when it was last read, what it was given
  for each hour, and the latest of these hours.
-/
structure Ledger where
  counter : Counter
  asOf : DateTime
  given : Nat → Nat := 0
  latest : Nat := 0

/- A counter that was given nothing. -/
def Ledger.start
    (a : Applicable)
    (instant : Instant)
    (asOf : DateTime) :
    Ledger :=
  { counter := .new a instant, asOf }

/- The calls on a rolling counter. -/
inductive Op where
| seed (read : List (Nat × Nat))
| add (now : DateTime) (micro : Nat)
| read (now : DateTime)

/- Enter amounts that took the counter to `c`. -/
def Ledger.enter
    (l : Ledger)
    (amounts : List (Nat × Nat))
    (c : Counter) :
    Ledger :=
  { l with
    counter := c
    given := fun h => l.given h + held amounts h
    latest := max l.latest ((amounts.map fst).foldr max ⊥) }

/-
  One call.  A counter is seeded once; reads are in order, and
  none is before an hour given.
-/
def Ledger.step (l : Ledger) : Op → Option Ledger
| .seed read =>
    let c := l.counter.applySeed rollingPeriod (.hours read)
    if l.counter.seededFor = some rollingPeriod then
      some { l with counter := c }
    else some (l.enter read c)
| .add now micro =>
    some (l.enter [(hourIndex now, micro)] (l.counter.add now micro))
| .read now =>
    if l.asOf ≤ now ∧ l.latest ≤ hourIndex now then
      some { l with counter := l.counter.expire now, asOf := now }
    else none

/-
  A call in order: its amounts fit beside those held, and an
  add is not for an hour before the last one held.
-/
def Ledger.inOrder (l : Ledger) : Op → Bool
| .seed read =>
    total l.counter.hours + total read < u64Size
| .add now micro =>
    total l.counter.hours + micro < u64Size &&
      l.counter.hours.getLast?.all (fun e => e.1 ≤ hourIndex now)
| .read _ => true

/- The hours of a window that ends at `now`'s. -/
def windowHours (n : Nat) (now : DateTime) : Finset Nat :=
  Finset.Icc (hourIndex now - (n - 1)) (hourIndex now)

@[simp] theorem held_cons
    (e : Nat × Nat)
    (hours : List (Nat × Nat))
    (h : Nat) :
    held (e :: hours) h =
      (if e.1 = h then e.2 else 0) + held hours h := by
  simp [held]

/- Each hour once, in ascending order. -/
abbrev Ascending (hours : List (Nat × Nat)) : Prop :=
  hours.Pairwise (fun e e' => e.1 < e'.1)

/- Add an amount to the entry of its hour. -/
def addTo (h micro : Nat) : List (Nat × Nat) → List (Nat × Nat) :=
  upsertHour h (fun old => saturatingAdd (old.getD 0) micro)

variable {hours : List (Nat × Nat)} {h micro : Nat}

theorem mem_upsertHour
    {f : Option Nat → Nat}
    {e : Nat × Nat}
    (hMem : e ∈ upsertHour h f hours) :
    e.1 = h ∨ e ∈ hours := by
  fun_induction upsertHour h f hours with
  | case1 => exact .inl (congrArg fst (mem_singleton.mp hMem))
  | case2 =>
    rcases mem_cons.mp hMem with hNew | hOld
    · exact .inl (congrArg fst hNew)
    · exact .inr hOld
  | case3 =>
    rcases mem_cons.mp hMem with hNew | hOld
    · exact .inl (congrArg fst hNew)
    · exact .inr (mem_cons_of_mem _ hOld)
  | case4 h' m rest hBefore hNe ih =>
    rcases mem_cons.mp hMem with hHead | hRest
    · exact .inr (hHead ▸ mem_cons_self)
    · exact (ih hRest).imp_right (mem_cons_of_mem _)

theorem Ascending.upsertHour
    (hAscending : Ascending hours)
    (h : Nat)
    (f : Option Nat → Nat) :
    Ascending (upsertHour h f hours) := by
  fun_induction Gateway.upsertHour h f hours with
  | case1 => exact pairwise_singleton _ _
  | case2 h' m rest hBefore =>
    refine hAscending.cons (forall_mem_cons.mpr ⟨hBefore, ?_⟩)
    exact fun e hMem => hBefore.trans (rel_of_pairwise_cons hAscending hMem)
  | case3 =>
    exact hAscending.of_cons.cons (fun e hMem => rel_of_pairwise_cons hAscending hMem)
  | case4 h' m rest hBefore hNe ih =>
    refine (ih hAscending.of_cons).cons (fun e hMem => ?_)
    rcases mem_upsertHour hMem with hNew | hOld
    · omega
    · exact rel_of_pairwise_cons hAscending hOld

/- What fits is added to its hour and to no other. -/
theorem addTo_exact
    (hFits : total hours + micro < u64Size) :
    total (addTo h micro hours) = total hours + micro ∧
      ∀ k, held (addTo h micro hours) k = held hours k + held [(h, micro)] k := by
  unfold addTo
  fun_induction upsertHour h (fun old => saturatingAdd (old.getD 0) micro) hours with
  | case1 =>
    have hNone : saturatingAdd 0 micro = micro := by
      simp [saturatingAdd, u64Max, u64Size, total] at hFits ⊢
      omega
    simp [total, held, hNone]
  | case2 h' m rest =>
    have hNone : saturatingAdd 0 micro = micro := by
      simp [saturatingAdd, u64Max, u64Size, total] at hFits ⊢
      omega
    refine ⟨?_, fun k => ?_⟩
    · simp [total, hNone]
      omega
    · simp [held, hNone]
      omega
  | case3 m rest =>
    have hSome : saturatingAdd m micro = m + micro := by
      simp [saturatingAdd, u64Max, u64Size, total] at hFits ⊢
      omega
    refine ⟨?_, fun k => ?_⟩
    · simp [total, hSome]
      omega
    · simp [held, hSome]
      split <;> omega
  | case4 h' m rest _ _ ih =>
    have hRest := ih (by simp [total] at hFits ⊢; omega)
    refine ⟨?_, fun k => ?_⟩
    · simp only [total, map_cons, sum_cons] at hRest ⊢
      omega
    · rw [held_cons, held_cons, hRest.2 k]
      omega

variable {xs read : List (Nat × Nat)} {first n spent : Nat} {call : Spend}

/- Behind earlier hours, an hour's entry is the rest's. -/
theorem upsertHour_append (hBefore : ∀ e ∈ xs, e.1 < h)
    (f : Option Nat → Nat)
    (ys : List (Nat × Nat)) :
    upsertHour h f (xs ++ ys) = xs ++ upsertHour h f ys := by
  induction xs with
  | nil => rfl
  | cons e xs ih =>
    rw [forall_mem_cons] at hBefore
    have hNot : ¬h < e.1 ∧ h ≠ e.1 := by omega
    simp [upsertHour, hNot, ih hBefore.2]

/- Put in order, an add is to the entry of its hour. -/
theorem addHour_eq_addTo
    (hAscending : Ascending hours)
    (hFits : total hours + micro < u64Size)
    (hOrder : ∀ e ∈ hours.getLast?, e.1 ≤ h) :
    addHour hours h micro = addTo h micro hours := by
  have hNone : saturatingAdd 0 micro = micro := by
    simp [saturatingAdd, u64Max, u64Size] at hFits ⊢
    omega
  unfold addHour addTo
  split
  · rename_i last m hLast
    have hHours := dropLast_append_getLast? _ hLast
    rw [← hHours, Ascending, pairwise_append] at hAscending
    have hAt : last ≤ h := hOrder _ hLast
    have hEarlier : ∀ e ∈ hours.dropLast, e.1 < h := fun e hMem =>
      (hAscending.2.2 e hMem _ (mem_singleton_self _)).trans_le hAt
    have hUpsert := upsertHour_append hEarlier
      (fun old => saturatingAdd (old.getD 0) micro) [(last, m)]
    rw [hHours] at hUpsert
    rw [hUpsert]
    split_ifs with hSame
    · simp [Gateway.upsertHour, hSame]
    · have hNot : ¬h < last ∧ h ≠ last := by omega
      rw [← hHours]
      simp [Gateway.upsertHour, hNot, hNone]
  · rename_i hEmpty
    simp [getLast?_eq_none_iff.mp hEmpty, Gateway.upsertHour, hNone]

/- A map read off ascending hours is these hours. -/
theorem foldl_upsertHour_eq {acc : List (Nat × Nat)}
    (hAscending : Ascending (read ++ acc)) :
    acc.foldl (fun m e => upsertHour e.1 (fun _ => e.2) m) read = read ++ acc := by
  induction acc generalizing read with
  | nil => simp
  | cons e acc ih =>
    have hBefore : ∀ e' ∈ read, e'.1 < e.1 := fun e' hMem =>
      (pairwise_append.mp hAscending).2.2 e' hMem e mem_cons_self
    have hOne := upsertHour_append hBefore (fun _ => e.2) []
    rw [append_nil] at hOne
    rw [append_cons] at hAscending ⊢
    rw [foldl_cons, hOne]
    exact ih hAscending

/- What entering amounts does to the hours held. -/
structure Entered (hours amounts hours' : List (Nat × Nat)) : Prop where
  ascending : Ascending hours'
  total : total hours' = total hours + total amounts
  held : ∀ k, held hours' k = held hours k + held amounts k
  known : ∀ e ∈ hours', e ∈ hours ∨ e.1 ∈ amounts.map fst

theorem entered_addTo
    (hAscending : Ascending hours)
    (hFits : total hours + micro < u64Size) :
    Entered hours [(h, micro)] (addTo h micro hours) where
  ascending := hAscending.upsertHour _ _
  total := by simpa [Counter.total] using (addTo_exact hFits).1
  held := (addTo_exact hFits).2
  known := fun e hMem => by simpa [or_comm] using mem_upsertHour hMem

theorem Entered.trans {hours' hours'' ys : List (Nat × Nat)}
    (hFirst : Entered hours xs hours')
    (hSecond : Entered hours' ys hours'') :
    Entered hours (xs ++ ys) hours'' where
  ascending := hSecond.ascending
  total := by
    have hFirst := hFirst.total
    have hSecond := hSecond.total
    simp only [Counter.total, map_append, List.sum_append] at *
    omega
  held := fun k => by
    have hFirst := hFirst.held k
    have hSecond := hSecond.held k
    simp only [Counter.held, map_append, List.sum_append] at *
    omega
  known := fun e hMem => by
    rcases hSecond.known e hMem with hOld | hNew
    · rcases hFirst.known e hOld with hOld | hNew
      · exact .inl hOld
      · exact .inr (by simp only [map_append, mem_append, hNew, true_or])
    · exact .inr (by simp only [map_append, mem_append, hNew, or_true])

/- A baseline that fits is entered whole. -/
theorem entered_mergeHours (hAscending : Ascending hours)
    (hFits : total hours + total read < u64Size) :
    Entered hours read (mergeHours hours read) := by
  have hCollect := @foldl_upsertHour_eq [] hours hAscending
  rw [nil_append] at hCollect
  unfold mergeHours
  simp only [hCollect]
  clear hCollect
  induction read generalizing hours with
  | nil => exact ⟨hAscending, rfl, fun _ => rfl, fun _ => .inl⟩
  | cons e read ih =>
    have hSplit : total (e :: read) = e.2 + total read := by simp [total]
    have hOne := @entered_addTo hours e.1 e.2 hAscending (by omega)
    have hTotal : total (addTo e.1 e.2 hours) = total hours + e.2 :=
      (addTo_exact (by omega)).1
    exact hOne.trans (ih hOne.ascending (by omega))

/- The front of ascending hours is all that expires. -/
theorem le_of_mem_dropWhile (hAscending : Ascending hours) :
    ∀ e ∈ hours.dropWhile (fun e => e.1 < first), first ≤ e.1 := by
  induction hours with
  | nil => simp
  | cons e hours ih =>
    rw [dropWhile_cons]
    split_ifs with hPast
    · exact ih hAscending.of_cons
    · have hLive : first ≤ e.1 := by simpa using hPast
      refine forall_mem_cons.mpr ⟨hLive, fun e' hMem => ?_⟩
      exact hLive.trans (rel_of_pairwise_cons hAscending hMem).le

theorem held_dropWhile (hLive : first ≤ h)
    (hours : List (Nat × Nat)) :
    held (hours.dropWhile (fun e => e.1 < first)) h = held hours h := by
  induction hours with
  | nil => rfl
  | cons e hours ih =>
    rw [dropWhile_cons]
    split_ifs with hPast
    · have hNe : e.1 ≠ h := by
        simp at hPast
        omega
      simp [hNe, ih]
    · rfl

/- Hours of a window hold what they hold one by one. -/
theorem total_eq_sum_held
    {window : Finset Nat}
    (hIn : ∀ e ∈ hours, e.1 ∈ window) :
    total hours = ∑ h ∈ window, held hours h := by
  induction hours with
  | nil => simp [total, held]
  | cons e hours ih =>
    rw [forall_mem_cons] at hIn
    have hRest := ih hIn.2
    simp only [total, map_cons, sum_cons] at hRest ⊢
    simp [Finset.sum_add_distrib, hIn.1, hRest]

/-
  The hours held ascend, fit and are known, and hold what the
  hours that have not expired were given.
-/
structure Ledger.Kept (n : Nat) (l : Ledger) : Prop where
  rolling : l.counter.spec.window.rollingHours = some n
  ascending : Ascending l.counter.hours
  fits : total l.counter.hours < u64Size
  known : ∀ e ∈ l.counter.hours, e.1 ≤ l.latest
  kept :
    ∀ h, hourIndex l.asOf - (n - 1) ≤ h →
      held l.counter.hours h = l.given h

theorem Ledger.Kept.enter {l : Ledger}
    {amounts : List (Nat × Nat)}
    {c : Counter}
    (hKept : l.Kept n)
    (hSpec : c.spec = l.counter.spec)
    (hEntered : Entered l.counter.hours amounts c.hours)
    (hFits : total l.counter.hours + total amounts < u64Size) :
    (l.enter amounts c).Kept n where
  rolling := (congrArg (fun b => b.window.rollingHours) hSpec).trans hKept.rolling
  ascending := hEntered.ascending
  fits := hEntered.total.trans_lt hFits
  known := fun e hMem => by
    rcases hEntered.known e hMem with hOld | hNew
    · exact (hKept.known e hOld).trans (le_max_left _ _)
    · exact (le_max_of_le hNew le_rfl).trans (le_max_right _ _)
  kept := fun h hLive => by
    simp only [Ledger.enter, hEntered.held, hKept.kept h hLive]

theorem Ledger.Kept.step {l l' : Ledger}
    {op : Op}
    (hKept : l.Kept n)
    (hOrder : l.inOrder op)
    (hStep : l.step op = some l') :
    l'.Kept n := by
  cases op with
  | seed read =>
    simp only [Ledger.step] at hStep
    split at hStep
    · rename_i hSeeded
      cases hStep
      simpa [applySeed, hSeeded] using
        (⟨hKept.rolling, hKept.ascending, hKept.fits, hKept.known, hKept.kept⟩ :
          Kept n { l with counter := { l.counter with seedFailedAt := none } })
    · rename_i hFresh
      cases hStep
      have hFits := of_decide_eq_true hOrder
      refine hKept.enter (applySeed_spec ..) ?_ hFits
      simpa [applySeed, hFresh] using entered_mergeHours hKept.ascending hFits
  | add now micro =>
    cases hStep
    simp only [inOrder, Bool.and_eq_true, decide_eq_true_eq] at hOrder
    have hLast : ∀ e ∈ l.counter.hours.getLast?, e.1 ≤ hourIndex now := by
      simpa [Option.all_eq_true] using hOrder.2
    refine hKept.enter (by simp [add, hKept.rolling]) ?_ (by simpa [total] using hOrder.1)
    have hAdd := addHour_eq_addTo hKept.ascending hOrder.1 hLast
    simpa [add, hKept.rolling, hAdd] using entered_addTo hKept.ascending hOrder.1
  | read now =>
    simp only [Ledger.step] at hStep
    split at hStep <;> cases hStep
    rename_i hRead
    have hMono : hourIndex l.asOf ≤ hourIndex now :=
      Nat.div_le_div_right (Int.toNat_le_toNat hRead.1)
    have hHours :
        (l.counter.expire now).hours =
          l.counter.hours.dropWhile (fun e => e.1 < hourIndex now - (n - 1)) := by
      simp [expire, hKept.rolling]
    have hSub : (l.counter.expire now).hours.Sublist l.counter.hours :=
      hHours ▸ dropWhile_sublist _
    refine ⟨by rw [expire_spec, hKept.rolling], hKept.ascending.sublist hSub,
      ((hSub.map snd).sum_le_sum (by simp)).trans_lt hKept.fits,
      fun e hMem => hKept.known e (hSub.subset hMem), fun h hLive => ?_⟩
    rw [← hKept.kept h ((Nat.sub_le_sub_right hMono _).trans hLive), hHours]
    exact held_dropWhile hLive _

/-
  After calls in order, a read tells what the hours of its
  window were given.
-/
theorem spent_eq_given
    {a : Applicable}
    {instant : Instant}
    {asOf now : DateTime}
    {n : Nat}
    {ops : List Op}
    {l l' : Ledger}
    (hRolling : a.budget.window.rollingHours = some n)
    (hRun :
      Transition.Run (fun l op l' => l.inOrder op ∧ l.step op = some l')
        (.start a instant asOf) ops l)
    (hRead : l.step (.read now) = some l') :
    l.counter.spent now = ∑ h ∈ windowHours n now, l.given h := by
  have hKept : l.Kept n :=
    hRun.invariant (fun _ _ _ hKept hStep => hKept.step hStep.1 hStep.2)
      ⟨hRolling, .nil, Nat.two_pow_pos 64, by simp [Ledger.start, new], fun _ _ => rfl⟩
  have hKept' : l'.Kept n := hKept.step rfl hRead
  simp only [Ledger.step] at hRead
  split at hRead <;> cases hRead
  rename_i hOrder
  have hIn : ∀ e ∈ (l.counter.expire now).hours, e.1 ∈ windowHours n now := by
    intro e hMem
    refine Finset.mem_Icc.mpr ⟨?_, (hKept'.known e hMem).trans hOrder.2⟩
    simp only [expire, hKept.rolling] at hMem
    exact le_of_mem_dropWhile hKept.ascending e hMem
  calc
    l.counter.spent now = total (l.counter.expire now).hours % u64Size := by
      simp [spent, hKept.rolling, total]
    _ = total (l.counter.expire now).hours := Nat.mod_eq_of_lt hKept'.fits
    _ = ∑ h ∈ windowHours n now, held (l.counter.expire now).hours h :=
      total_eq_sum_held hIn
    _ = ∑ h ∈ windowHours n now, l.given h :=
      Finset.sum_congr rfl
        (fun h hMem => hKept'.kept h (Finset.mem_Icc.mp hMem).1)

/- A workspace's hard budget over rolling windows. -/
def rollingBudget (window : BudgetWindow) : Applicable where
  origin := .workspace
  scope := .workspace
  endUser := none
  budget := ⟨10, window, .hard, [], []⟩

/- A day's baseline, costs after it, and reads between. -/
def dayInOrder : List Op :=
  [.seed [(3, 5), (9, 2)], .add 32400 1, .read 36000, .add 36000 4, .add 97200 3]

/- Of 15 given, the 5 of hour 3 have expired in hour 27. -/
theorem dayInOrder_told :
    ∃ l,
      Transition.Run
          (fun (l : Ledger) op l' => l.inOrder op ∧ l.step op = some l')
          (.start (rollingBudget .rolling24h) 0 0) dayInOrder l ∧
        (l.step (.read 97200)).isSome ∧
        l.counter.spent 97200 = ∑ h ∈ windowHours 24 97200, l.given h ∧
        l.counter.spent 97200 = 10 := by
  have hRun := Transition.Run.of_foldlM_guard
    (show dayInOrder.foldlM
        (fun (l : Ledger) op => if l.inOrder op then l.step op else none)
        (.start (rollingBudget .rolling24h) 0 0) = some _ from rfl)
  exact ⟨_, hRun, rfl, spent_eq_given rfl hRun rfl, rfl⟩

/- A cost of hour 9 that arrives after one of hour 10. -/
def lateCost : List Op :=
  [.add 36000 1, .add 35999 1, .read 36000]

/- The window of hour 10 was given 1, and 2 are told. -/
theorem lateCost_told :
    (lateCost.foldlM Ledger.step (.start (rollingBudget .rolling1h) 0 0)).map
        (fun l => (l.counter.spent 36000, ∑ h ∈ windowHours 1 36000, l.given h)) =
      some (2, 1) := by
  decide

------------------------------------------------------------
-- Alerts
------------------------------------------------------------

def taken (log : Offers) : List String :=
  (log.filter snd).map (fun e => e.1.payload.threshold)

def offersOf (label : String) (log : Offers) : Nat :=
  log.countP (fun e => e.1.payload.threshold = label)

variable (sha256 : Bytes → Hash) (tenant : TenantId) (scope : Scope)
variable (sink : Offers → Crossing → Bool)

/- `Counter.record` to a sink that remembers. -/
def recordLogged (s : Counter × Offers) (call : Spend) : Counter × Offers :=
  if !s.1.current call.now then s
  else
    let after := saturatingAdd (s.1.spent call.now) call.cost
    s.1.spec.thresholds.foldl
      (offerLogged sha256 tenant scope sink after (periodKey s.1.spec.window call.now) call.now)
      ((s.1.expire call.now).add call.now call.cost, s.2)

/- A sink without memory is the one `record` is given. -/
theorem recordLogged_fst (accepts : Crossing → Bool) (s : Counter × Offers) (call : Spend) :
    (recordLogged sha256 tenant scope (fun _ => accepts) s call).1 =
      s.1.record sha256 tenant scope call.cost call.now accepts := by
  unfold recordLogged Counter.record
  split
  · rfl
  · refine (foldl_hom fst ?_).symm
    exact fun _ _ => rfl

variable {sha256 tenant scope sink} {after period : Nat} {now : DateTime}
variable {c : Counter} {s : Counter × Offers}

/-
  What holds of a counter and its sink within a period, after
  costs of `spent` in all.
-/
structure Alerted
    (c : Counter)
    (period spent : Nat)
    (s : Counter × Offers) :
    Prop where
  spec : s.1.spec = c.spec
  seeded : s.1.seededFor = some period
  fired : s.1.fired = (taken s.2).map (fun label => (label, period)) ++ c.fired
  nodup : (taken s.2).Nodup
  fresh : ∀ e ∈ s.2, (e.1.payload.threshold, period) ∉ c.fired
  spent : saturatingAdd c.micro spent ≤ s.1.micro

theorem Alerted.offerLogged (hAlerted : Alerted c period spent s)
    (threshold : Nat × String) :
    Alerted c period spent
      (offerLogged sha256 tenant scope sink after period now s threshold) := by
  unfold Counter.offerLogged offerThreshold
  by_cases hSkip : after < threshold.1 ∨ (threshold.2, period) ∈ s.1.fired
  · simp only [if_pos hSkip]
    exact hAlerted
  · simp only [if_neg hSkip]
    rw [not_or, hAlerted.fired, mem_append, not_or] at hSkip
    cases sink s.2 (crossingFor sha256 tenant scope s.1
        threshold.2 period after now) with
    | false =>
      exact
        { hAlerted with fresh := forall_mem_cons.mpr ⟨hSkip.2.2, hAlerted.fresh⟩ }
    | true =>
      have hNew : threshold.2 ∉ taken s.2 :=
        fun hOld => hSkip.2.1 (mem_map_of_mem hOld)
      exact
        { hAlerted with
          fired := congrArg (cons (threshold.2, period)) hAlerted.fired
          nodup := hAlerted.nodup.cons hNew
          fresh := forall_mem_cons.mpr ⟨hSkip.2.2, hAlerted.fresh⟩ }

/- A record within the period adds, then offers. -/
theorem recordLogged_eq (hAlerted : Alerted c period spent s)
    (hCalendar : c.spec.window.rollingHours = none)
    (hPeriod : periodKey c.spec.window call.now = period) :
    recordLogged sha256 tenant scope sink s call =
      c.spec.thresholds.foldl
        (offerLogged sha256 tenant scope sink (saturatingAdd s.1.micro call.cost) period call.now)
        (s.1.add call.now call.cost, s.2) := by
  have hCurrent : s.1.current call.now = true := by
    simp [current, hAlerted.seeded, hAlerted.spec, hPeriod]
  simp [recordLogged, hCurrent, Counter.spent, expire, hAlerted.spec, hCalendar, hPeriod]

theorem Alerted.recordLogged (hAlerted : Alerted c period spent s)
    (hCalendar : c.spec.window.rollingHours = none)
    (hPeriod : periodKey c.spec.window call.now = period) :
    Alerted c period (spent + call.cost)
      (recordLogged sha256 tenant scope sink s call) := by
  rw [recordLogged_eq hAlerted hCalendar hPeriod]
  have hAdded :
      Alerted c period (spent + call.cost)
        (s.1.add call.now call.cost, s.2) := by
    have hSpent := hAlerted.spent
    simp only [add, hAlerted.spec, hCalendar]
    refine ⟨rfl, hAlerted.seeded, hAlerted.fired, hAlerted.nodup, hAlerted.fresh, ?_⟩
    simp only [saturatingAdd] at hSpent ⊢
    omega
  exact foldlRecOn _ _ hAdded (fun s' hKept threshold _ => hKept.offerLogged threshold)

theorem offersOf_le_foldl (label : String) (thresholds : List (Nat × String))
    (s : Counter × Offers) :
    offersOf label s.2 ≤
      offersOf label
        (thresholds.foldl (offerLogged sha256 tenant scope sink after period now) s).2 := by
  refine foldlRecOn
    (motive := fun (s' : Counter × Offers) => offersOf label s.2 ≤ offersOf label s'.2)
    _ _ le_rfl (fun s' hLe t _ => hLe.trans ?_)
  unfold offerLogged offersOf
  split
  · exact le_rfl
  · exact (sublist_cons_self _ _).countP_le

/- A threshold that was reached and has not fired is offered. -/
theorem offersOf_foldl_offerLogged {thresholds : List (Nat × String)} {t : Nat × String}
    (hMem : t ∈ thresholds) (hReached : t.1 ≤ after) (hFired : (t.2, period) ∉ s.1.fired) :
    offersOf t.2 s.2 <
      offersOf t.2
        (thresholds.foldl (offerLogged sha256 tenant scope sink after period now) s).2 := by
  induction thresholds generalizing s with
  | nil => cases hMem
  | cons t' ts ih =>
    rw [foldl_cons]
    by_cases hSkip : after < t'.1 ∨ (t'.2, period) ∈ s.1.fired
    · have hSame : offerLogged sha256 tenant scope sink after period now s t' = s := by
        simp [offerLogged, offerThreshold, hSkip]
      rw [hSame]
      refine ih (mem_of_ne_of_mem ?_ hMem) hFired
      rintro rfl
      exact hSkip.elim hReached.not_gt hFired
    · by_cases hLabel : t'.2 = t.2
      · refine lt_of_lt_of_le ?_ (offersOf_le_foldl t.2 ts _)
        simp only [offerLogged, if_neg hSkip, offersOf]
        rw [countP_cons_of_pos]
        · exact lt_succ_self _
        · exact decide_eq_true hLabel
      · have hStill :
            (t.2, period) ∉
              (offerLogged sha256 tenant scope sink after period now s t').1.fired := by
          simp only [offerLogged, offerThreshold, if_neg hSkip]
          split
          · simpa [Ne.symm hLabel] using hFired
          · exact hFired
        refine lt_of_le_of_lt (offersOf_le_foldl t.2 [t'] s) (ih (mem_of_ne_of_mem ?_ hMem) hStill)
        rintro rfl
        exact hLabel rfl

/- The invariant after any calls within the period. -/
theorem alerted_foldl
    (hCalendar : c.spec.window.rollingHours = none)
    (hSeeded : c.seededFor = some period)
    (calls : List Spend)
    (hCalls : ∀ call ∈ calls, periodKey c.spec.window call.now = period) :
    Alerted c period (calls.map Spend.cost).sum
      (calls.foldl (recordLogged sha256 tenant scope sink) (c, [])) := by
  induction calls using List.reverseRecOn with
  | nil => exact ⟨rfl, hSeeded, rfl, .nil, by simp, min_le_left _ _⟩
  | append_singleton calls call ih =>
    rw [forall_mem_append, forall_mem_singleton] at hCalls
    rw [foldl_concat, map_append, List.sum_append]
    exact (ih hCalls.1).recordLogged hCalendar hCalls.2

/-
  Within a period no label is taken twice, nor one that had
  fired before; and a threshold that the costs have reached
  and that was not taken is offered by the next record.
-/
theorem alerts_once
    (hCalendar : c.spec.window.rollingHours = none)
    (hSeeded : c.seededFor = some period)
    (calls : List Spend)
    (hCalls : ∀ call ∈ calls, periodKey c.spec.window call.now = period) :
    let s := calls.foldl (recordLogged sha256 tenant scope sink) (c, [])
    (taken s.2).Nodup ∧
      (∀ e ∈ s.2, (e.1.payload.threshold, period) ∉ c.fired) ∧
      ∀ t ∈ c.spec.thresholds,
        t.2 ∉ taken s.2 →
          (t.2, period) ∉ c.fired →
            ∀ call : Spend,
              periodKey c.spec.window call.now = period →
                t.1 ≤ saturatingAdd c.micro ((calls ++ [call]).map Spend.cost).sum →
                  offersOf t.2 s.2 <
                    offersOf t.2 (recordLogged sha256 tenant scope sink s call).2 := by
  intro s
  have hAlerted : Alerted c period (calls.map Spend.cost).sum s :=
    alerted_foldl hCalendar hSeeded calls hCalls
  refine ⟨hAlerted.nodup, hAlerted.fresh, ?_⟩
  intro t hMem hOpen hUnfired call hPeriod hReached
  have hFired : (t.2, period) ∉ s.1.fired := by
    rw [hAlerted.fired, mem_append]
    simpa [hUnfired] using hOpen
  have hAfter : t.1 ≤ saturatingAdd s.1.micro call.cost := by
    have hSpent := hAlerted.spent
    simp [saturatingAdd] at hReached hSpent ⊢
    omega
  rw [recordLogged_eq hAlerted hCalendar hPeriod]
  refine offersOf_foldl_offerLogged hMem hAfter
    (s := (s.1.add call.now call.cost, s.2)) ?_
  simpa [add, hAlerted.spec, hCalendar] using hFired

/- A soft budget of 10, alerting at half of it and at 100%. -/
def softDaily : Counter :=
  { Counter.new
      ⟨.workspace, .workspace, none, ⟨10, .daily, .soft, [50], []⟩⟩
      0 with
    seededFor := some (periodKey .daily 0) }

/- Its records to a sink with no room for the first crossing. -/
def secondTaken (calls : List Spend) : Counter × Offers :=
  calls.foldl
    (recordLogged (fun _ => .zero 32) (.zero 16) .workspace (fun log _ => !log.isEmpty))
    (softDaily, [])

/- Half is refused, offered again and taken; then it rests. -/
theorem softDaily_alerts_once :
    taken (secondTaken [⟨0, 6⟩]).2 = [] ∧
      offersOf "50%" (secondTaken [⟨0, 6⟩]).2 <
        offersOf "50%" (secondTaken [⟨0, 6⟩, ⟨1, 1⟩]).2 ∧
      taken (secondTaken [⟨0, 6⟩, ⟨1, 1⟩]).2 = ["50%"] ∧
      offersOf "50%" (secondTaken [⟨0, 6⟩, ⟨1, 1⟩, ⟨2, 3⟩]).2 = 2 ∧
      (taken (secondTaken [⟨0, 6⟩, ⟨1, 1⟩, ⟨2, 3⟩]).2).Nodup := by
  refine ⟨by decide, ?_, by decide, by decide, ?_⟩
  · have hOnce := @alerts_once (fun _ => .zero 32) (.zero 16) .workspace
      (fun log _ => !log.isEmpty) _ softDaily rfl rfl [⟨0, 6⟩] (by decide)
    exact hOnce.2.2 (5, "50%") (by decide) (by decide) (by decide) ⟨1, 1⟩ rfl (by decide)
  · have hOnce := @alerts_once (fun _ => .zero 32) (.zero 16) .workspace
      (fun log _ => !log.isEmpty) _ softDaily rfl rfl [⟨0, 6⟩, ⟨1, 1⟩, ⟨2, 3⟩] (by decide)
    exact hOnce.1

end Counter

end Tracelane.Gateway
