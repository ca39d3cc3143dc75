import Mathlib.Data.Finset.Card
import Tracelane.Gateway.Limits

/-
  How many end-user ids a principal may bring in one window,
  and when the bounded table of windows keeps that promise.
-/

namespace Tracelane.Gateway

open List Nat Function

namespace EndUserCap

/- A tenant, and one of its keys or the session. -/
abbrev Principal := TenantId × Option String

/- When a window began, and the ids counted in it. -/
abbrev Window := Instant × Finset Nat

abbrev Tracked := HashTable Principal Window

def maxTracked : Nat := 100000

/- A full map drops expired windows, then everything. -/
def makeRoom (window : Duration) (map : Tracked) (now : Instant) : Tracked :=
  if maxTracked ≤ map.entries.length then
    let kept := map.retain (fun _ e => saturatingDurationSince now e.1 < window)
    if maxTracked ≤ kept.entries.length then ∅ else kept
  else map

/- A principal's window at `now`: a fresh one if it is over. -/
def opened (window : Duration) (now : Instant) (held : Option Window) : Window :=
  let e := held.getD (now, ∅)
  if window ≤ saturatingDurationSince now e.1 then (now, ∅)
  else e

def admitUser (cap : Nat) (window : Duration) (map : Tracked)
    (tenant : TenantId) (key : Option String) (endUser : Nat)
    (now : Instant) : Except Nat Unit × Tracked :=
  let map := makeRoom window map now
  let e := opened window now (map.lookup (tenant, key))
  if endUser ∈ e.2 then
    (.ok (), map.insert (tenant, key) e)
  else if cap ≤ e.2.card then
    let left := window - saturatingDurationSince now e.1
    (.error (max (left / nanosPerSec) 1), map.insert (tenant, key) e)
  else
    (.ok (), map.insert (tenant, key) (e.1, insert endUser e.2))

structure Call where
  principal : Principal
  endUser : Nat
  now : Instant

/- The table beside every principal's window in full. -/
structure Watched where
  map : Tracked := ∅
  seen : Principal → Option Window := fun _ => none

variable (cap : Nat) (window : Duration)

def answer (s : Watched) (call : Call) : Except Nat Unit × Tracked :=
  admitUser cap window s.map call.principal.1 call.principal.2 call.endUser call.now

def Watched.current (s : Watched) (call : Call) : Window :=
  opened window call.now (s.seen call.principal)

def Watched.after (s : Watched) (call : Call) : Window :=
  let e := s.current window call
  if (answer cap window s call).1.isOk then
    (e.1, insert call.endUser e.2)
  else e

def step (s : Watched) (call : Call) : Watched where
  map := (answer cap window s call).2
  seen := update s.seen call.principal (some (s.after cap window call))

/- No more ids than the cap in the window, and an id that was admitted in it is admitted again. -/
def Kept (s : Watched) (call : Call) : Prop :=
  (s.after cap window call).2.card ≤ cap ∧
    (call.endUser ∈ (s.current window call).2 → (answer cap window s call).1.isOk)

--
-- One Call
--

variable {cap window} {s : Watched} {call : Call}

def tracked (window : Duration) (s : Watched) (call : Call) : Window :=
  opened window call.now ((makeRoom window s.map call.now).lookup call.principal)

theorem isOk_answer_iff :
    (answer cap window s call).1.isOk ↔
      call.endUser ∈ (tracked window s call).2 ∨ (tracked window s call).2.card < cap := by
  rcases call with ⟨⟨tenant, key⟩, endUser, now⟩
  simp only [answer, admitUser, tracked]
  split
  · simp [Except.isOk, Except.toBool, *]
  · split
    · simp [Except.isOk, Except.toBool, *]
    · simp [Except.isOk, Except.toBool, *]
      omega

theorem answer_snd :
    (answer cap window s call).2 =
      (makeRoom window s.map call.now).insert call.principal
        (if (answer cap window s call).1.isOk then
          ((tracked window s call).1, insert call.endUser (tracked window s call).2)
        else tracked window s call) := by
  rcases call with ⟨⟨tenant, key⟩, endUser, now⟩
  simp only [answer, admitUser, tracked]
  split
  · rename_i hKnown
    simp [Except.isOk, Except.toBool, Finset.insert_eq_of_mem hKnown]
  · split
    · rfl
    · rfl

/- A call that finds the window's ids as they are keeps it. -/
theorem kept_of_agrees (hAgrees : (tracked window s call).2 = (s.current window call).2)
    (hCap : (s.current window call).2.card ≤ cap) :
    Kept cap window s call := by
  have hOk : (answer cap window s call).1.isOk ↔ _ := isOk_answer_iff
  rw [hAgrees] at hOk
  refine ⟨?_, fun hKnown => hOk.mpr (.inl hKnown)⟩
  unfold Watched.after
  simp only
  split_ifs with hAdmitted
  · cases hOk.mp hAdmitted with
    | inl hKnown =>
      rw [Finset.insert_eq_of_mem hKnown]
      exact hCap
    | inr hBelow =>
      exact (Finset.card_insert_le _ _).trans hBelow
  · exact hCap

--
-- What Keeps It
--

def Within (cap : Nat) (held : Option Window) : Prop :=
  ∀ e, held = some e → e.2.card ≤ cap

theorem Within.opened {held : Option Window} {now : Instant} (hHeld : Within cap held) :
    (opened window now held).2.card ≤ cap := by
  unfold EndUserCap.opened
  simp only
  split
  · exact zero_le _
  · cases held with
    | none => exact zero_le _
    | some e => exact hHeld e rfl

/- What a table that never fills up is beside the windows. -/
structure Faithful (cap : Nat) (K : Finset Principal) (s : Watched) : Prop where
  same : ∀ p, s.map.lookup p = s.seen p
  keys : ∀ p ∈ s.map.keys, p ∈ K
  within : ∀ p, Within cap (s.seen p)

variable {K : Finset Principal}

section

variable (hFaithful : Faithful cap K s)
include hFaithful

section

variable (hRoom : K.card < maxTracked)
include hRoom

theorem Faithful.makeRoom (now : Instant) :
    EndUserCap.makeRoom window s.map now = s.map := by
  refine if_neg (Nat.not_le_of_lt (Nat.lt_of_le_of_lt ?_ hRoom))
  have hKeys : s.map.keys.toFinset ⊆ K := by
    intro p hMem
    exact hFaithful.keys p (mem_toFinset.mp hMem)
  have hCard := Finset.card_le_card hKeys
  rw [toFinset_card_of_nodup s.map.keys_nodup] at hCard
  simpa [AList.keys, List.keys] using hCard

theorem Faithful.tracked :
    tracked window s call = s.current window call := by
  unfold EndUserCap.tracked
  rw [hFaithful.makeRoom hRoom, hFaithful.same]
  rfl

theorem Faithful.kept :
    Kept cap window s call :=
  kept_of_agrees (by rw [hFaithful.tracked hRoom])
    (hFaithful.within call.principal).opened

theorem Faithful.step (hMem : call.principal ∈ K) :
    Faithful cap K (step cap window s call) := by
  have hMap :
      (EndUserCap.step cap window s call).map =
        s.map.insert call.principal (s.after cap window call) := by
    unfold EndUserCap.step
    rw [answer_snd, hFaithful.makeRoom hRoom, hFaithful.tracked hRoom]
    rfl
  refine ⟨?_, fun p hHeld => ?_, ?_⟩
  · rw [hMap]
    refine congrFun (eq_update_iff.mpr ⟨AList.lookup_insert _, fun p hOther => ?_⟩)
    rw [AList.lookup_insert_ne hOther, hFaithful.same]
  · rw [hMap, ← AList.mem_keys, AList.mem_insert] at hHeld
    cases hHeld with
    | inl hSame => rwa [hSame]
    | inr hOld => exact hFaithful.keys p hOld
  · refine (forall_update_iff s.seen (fun _ held => Within cap held)).mpr
      ⟨?_, fun p _ => hFaithful.within p⟩
    rintro e ⟨rfl⟩
    exact (hFaithful.kept hRoom).1

end

end

--
-- What Breaks It
--

section Full

variable (hWindow : 0 < window)

include hWindow

theorem opened_zero (held : Option Window) :
    opened window 0 held = held.getD (0, ∅) := by
  refine if_neg (Nat.not_le_of_lt ?_)
  rwa [saturatingDurationSince, Nat.zero_sub]

theorem makeRoom_of_full {map : Tracked} (hFull : maxTracked ≤ map.entries.length) :
    makeRoom window map 0 = ∅ := by
  have hKept :
      (map.retain (fun _ e => saturatingDurationSince 0 e.1 < window)).entries = map.entries := by
    refine filter_eq_self.mpr (fun e _ => ?_)
    simpa [saturatingDurationSince] using hWindow
  unfold makeRoom
  simp only [hKept, if_pos hFull]

/- The first call of a principal, while there is room. -/
theorem step_first {p : Principal} (hRoom : s.map.entries.length < maxTracked)
    (hMap : s.map.lookup p = none) (hSeen : s.seen p = none) :
    (step 1 window s ⟨p, 0, 0⟩).map = s.map.insert p (0, {0}) ∧
      (step 1 window s ⟨p, 0, 0⟩).seen = update s.seen p (some (0, {0})) := by
  have hTracked : tracked window s ⟨p, 0, 0⟩ = (0, ∅) := by
    unfold tracked
    rw [makeRoom, if_neg (Nat.not_le_of_lt hRoom), opened_zero hWindow, hMap]
    rfl
  have hOk : (answer 1 window s ⟨p, 0, 0⟩).1.isOk := by
    rw [isOk_answer_iff, hTracked]
    exact .inr one_pos
  have hCurrent : s.current window ⟨p, 0, 0⟩ = (0, ∅) := by
    rw [Watched.current, opened_zero hWindow, hSeen]
    rfl
  unfold step Watched.after
  rw [answer_snd, if_pos hOk, hTracked, hCurrent, if_pos hOk,
    makeRoom, if_neg (Nat.not_le_of_lt hRoom)]
  exact ⟨rfl, rfl⟩

/- Principals that are new to the table, one call each. -/
theorem foldl_fill {ps : List Principal} (hNodup : ps.Nodup)
    (hNew : ∀ p ∈ ps, s.map.lookup p = none ∧ s.seen p = none)
    (hRoom : s.map.entries.length + ps.length ≤ maxTracked) :
    let t := (ps.map (fun p => ⟨p, 0, 0⟩)).foldl (step 1 window) s
    t.map.entries.length = s.map.entries.length + ps.length ∧
      (∀ p ∈ ps, t.seen p = some (0, {0})) ∧
      ∀ p ∉ ps, t.seen p = s.seen p := by
  induction ps generalizing s with
  | nil => exact ⟨rfl, by simp, fun _ _ => rfl⟩
  | cons q ps ih =>
    rw [nodup_cons] at hNodup
    rw [length_cons] at hRoom
    have hHead := hNew q mem_cons_self
    rcases step_first hWindow (by omega) hHead.1 hHead.2 with
      ⟨hMap, hSeen⟩
    have hLen : (step 1 window s ⟨q, 0, 0⟩).map.entries.length = s.map.entries.length + 1 := by
      rw [hMap, AList.entries_insert_of_notMem (AList.lookup_eq_none.mp hHead.1)]
      rfl
    have hRest :=
      ih (s := step 1 window s ⟨q, 0, 0⟩) hNodup.2
        (fun p hMem => by
          have hNe : p ≠ q := by
            rintro rfl
            exact hNodup.1 hMem
          rw [hMap, hSeen, AList.lookup_insert_ne hNe, update_of_ne hNe]
          exact hNew p (mem_cons_of_mem _ hMem))
        (by omega)
    rw [hLen] at hRest
    refine ⟨hRest.1.trans (by rw [length_cons]; omega), fun p hMem => ?_, fun p hAway => ?_⟩
    · cases mem_cons.mp hMem with
      | inl hHere =>
        rw [hHere]
        refine (hRest.2.2 q hNodup.1).trans ?_
        rw [hSeen, update_self]
      | inr hLater => exact hRest.2.1 p hLater
    · rw [mem_cons, not_or] at hAway
      refine (hRest.2.2 p hAway.2).trans ?_
      rw [hSeen, update_of_ne hAway.1]

/- A full table forgets the one id a principal may bring. -/
theorem not_kept_of_full {p : Principal} (hFull : maxTracked ≤ s.map.entries.length)
    (hSeen : s.seen p = some (0, {0})) :
    ¬Kept 1 window s ⟨p, 1, 0⟩ := by
  have hOk : (answer 1 window s ⟨p, 1, 0⟩).1.isOk := by
    rw [isOk_answer_iff, tracked, makeRoom_of_full hWindow hFull, opened_zero hWindow]
    exact .inr one_pos
  intro hKept
  have hCard := hKept.1
  rw [Watched.after, if_pos hOk, Watched.current, opened_zero hWindow, hSeen] at hCard
  simp at hCard

/- All principals once, and then one of them with a second id. -/
theorem exists_not_kept (hFull : maxTracked ≤ K.card) :
    ∃ calls call,
      (∀ c ∈ calls ++ [call], c.principal ∈ K ∧ c.now = 0) ∧
        ¬Kept 1 window (calls.foldl (step 1 window) {}) call := by
  rcases Finset.exists_subset_card_eq hFull with ⟨L, hSub, hCard⟩
  rcases Finset.card_pos.mp (hCard ▸ (by decide : 0 < maxTracked)) with ⟨p, hMem⟩
  rw [← Finset.length_toList] at hCard
  have hFill :=
    foldl_fill (s := {}) hWindow L.nodup_toList
      (fun _ _ => ⟨rfl, rfl⟩) (by rw [hCard]; exact le_of_eq (zero_add _))
  refine ⟨L.toList.map (fun q => ⟨q, 0, 0⟩), ⟨p, 1, 0⟩, ?_,
    not_kept_of_full hWindow ?_ (hFill.2.1 p (Finset.mem_toList.mpr hMem))⟩
  · simp only [mem_append, mem_map, mem_singleton]
    rintro c (⟨q, hQ, rfl⟩ | rfl)
    · exact ⟨hSub (Finset.mem_toList.mp hQ), rfl⟩
    · exact ⟨hSub hMem, rfl⟩
  · rw [hFill.1, hCard]
    exact le_add_left _ _

end Full

/-
  Every cap and window keeps its promise in every run exactly
  if fewer principals call than the table can track.
-/
theorem kept_iff (K : Finset Principal) :
    (∀ cap window calls call,
      (∀ c ∈ calls ++ [call], c.principal ∈ K) →
        (calls ++ [call]).Pairwise (fun c d => c.now ≤ d.now) →
          Kept cap window (calls.foldl (step cap window) {}) call) ↔
      K.card < maxTracked := by
  constructor
  · intro hKept
    by_contra hFull
    rcases exists_not_kept one_pos (not_lt.mp hFull) with ⟨calls, call, hCalls, hBroken⟩
    refine hBroken (hKept 1 1 calls call (fun c hMem => (hCalls c hMem).1) ?_)
    refine pairwise_iff_getElem.mpr (fun i j hI _ _ => ?_)
    rw [(hCalls _ (getElem_mem hI)).2]
    exact zero_le _
  · intro hRoom cap window calls call hCalls _
    have hFaithful : Faithful cap K (calls.foldl (step cap window) {}) := by
      refine foldlRecOn calls _ ?_
        (fun s hFaithful c hMem => hFaithful.step hRoom (hCalls c (mem_append_left _ hMem)))
      exact ⟨fun _ => rfl, by simp, by simp [Within]⟩
    exact hFaithful.kept hRoom

/- As many principals of one tenant as the table can hold. -/
def crowd : Finset Principal :=
  (Finset.range maxTracked).map
    ⟨fun i => (ByteArr.zero 16,
        some (String.ofList (replicate i 'k'))), by
      intro i j hSame
      have hLen := congrArg (fun p : Principal => p.2.map String.length) hSame
      simpa using hLen⟩

theorem crowd_not_kept :
    ∃ calls call,
      (∀ c ∈ calls ++ [call], c.principal ∈ crowd ∧ c.now = 0) ∧
        ¬Kept 1 1 (calls.foldl (step 1 1) {}) call :=
  exists_not_kept one_pos (by simp [crowd])

end EndUserCap

end Tracelane.Gateway
