import Mathlib.Algebra.Order.Ring.Int
import Mathlib.Data.Nat.Log
import Mathlib.Data.Set.Function

/-
  The Merkle tree hash of RFC 6962, section 2.1: the list is cut at the largest power of two below
  its length, and the hashes of the two parts are hashed together.

  The same hash is reached from below, one level of pairs at a time with a lone last element
  promoted, since the cut of a list of three or more elements falls between two pairs.
-/

--
-- The Tree Hash
--

namespace MerkleTree

open List Nat

/- What is hashed: no data, one leaf, or two subtrees. -/
inductive Input (α β : Type)
| empty
| leaf (d : β)
| node (l r : α)

/- The largest power of two below `n`. -/
def cut (n : Nat) : Nat :=
  2 ^ log 2 (n - 1)

theorem cut_pos (n : Nat) : 0 < cut n :=
  Nat.two_pow_pos _

theorem cut_lt {n : Nat} (hTwo : 2 ≤ n) : cut n < n := by
  have hLog : 2 ^ log 2 (n - 1) ≤ n - 1 := pow_log_le_self 2 (by omega)
  unfold cut
  omega

/- Past a pair, the cut falls on a pair of the level below. -/
theorem cut_half {n : Nat} (hThree : 3 ≤ n) :
    cut n = 2 * cut ((n + 1) / 2) := by
  have hLog : log 2 (n - 1) = log 2 ((n - 1) / 2) + 1 := log_of_one_lt_of_le (by omega) (by omega)
  have hBelow : (n - 1) / 2 = (n + 1) / 2 - 1 := by omega
  unfold cut
  rw [hLog, hBelow, pow_succ, mul_comm]

theorem cut_two : cut 2 = 1 := by
  simp [cut]

variable {β : Type}

theorem length_take_cut_lt (x y : β) (rest : List β) :
    ((x :: y :: rest).take (cut (rest.length + 2))).length < (x :: y :: rest).length := by
  have hCut := cut_lt (le_add_left 2 rest.length)
  simp only [length_take, List.length_cons]
  omega

theorem length_drop_cut_lt (x y : β) (rest : List β) :
    ((x :: y :: rest).drop (cut (rest.length + 2))).length < (x :: y :: rest).length := by
  have hCut := cut_pos (rest.length + 2)
  simp only [length_drop, List.length_cons]
  omega

section Hash

variable {α β : Type} (hash : Input α β → α)

def mth : List β → α
| [] => hash .empty
| [d] => hash (.leaf d)
| x :: y :: rest =>
    hash (.node
      (mth ((x :: y :: rest).take (cut (rest.length + 2))))
      (mth ((x :: y :: rest).drop (cut (rest.length + 2)))))
termination_by xs => xs.length
decreasing_by
  · exact length_take_cut_lt x y rest
  · exact length_drop_cut_lt x y rest

/- The audit path of element `i`, from the leaf upwards. -/
def path : Nat → List β → List α
| i, x :: y :: rest =>
    let k := cut (rest.length + 2)
    if i < k then
      path i ((x :: y :: rest).take k) ++ [mth hash ((x :: y :: rest).drop k)]
    else
      path (i - k) ((x :: y :: rest).drop k) ++ [mth hash ((x :: y :: rest).take k)]
| _, _ => []
termination_by _ xs => xs.length
decreasing_by
  · exact length_take_cut_lt x y rest
  · exact length_drop_cut_lt x y rest

/- Everything that is hashed on the way to the root. -/
def inputs : List β → List (Input α β)
| [] => [.empty]
| [d] => [.leaf d]
| x :: y :: rest =>
    let k := cut (rest.length + 2)
    .node (mth hash ((x :: y :: rest).take k)) (mth hash ((x :: y :: rest).drop k)) ::
      (inputs ((x :: y :: rest).take k) ++ inputs ((x :: y :: rest).drop k))
termination_by xs => xs.length
decreasing_by
  · exact length_take_cut_lt x y rest
  · exact length_drop_cut_lt x y rest

@[simp] theorem mth_nil : mth hash [] = hash .empty := by
  rw [mth]

@[simp] theorem mth_single (d : β) :
    mth hash [d] = hash (.leaf d) := by
  rw [mth]

variable {xs : List β}

theorem mth_split (hTwo : 2 ≤ xs.length) :
    mth hash xs =
      hash (.node (mth hash (xs.take (cut xs.length))) (mth hash (xs.drop (cut xs.length)))) := by
  match xs, hTwo with
  | x :: y :: rest, _ =>
    rw [mth]
    rfl

@[simp] theorem path_single (i : Nat) (d : β) :
    path hash i [d] = [] := by
  rw [path]
  simp

theorem path_left {i : Nat} (hTwo : 2 ≤ xs.length) (hLeft : i < cut xs.length) :
    path hash i xs =
      path hash i (xs.take (cut xs.length)) ++ [mth hash (xs.drop (cut xs.length))] := by
  match xs, hTwo with
  | x :: y :: rest, _ =>
    rw [path]
    exact if_pos hLeft

theorem path_right {i : Nat} (hTwo : 2 ≤ xs.length) (hRight : ¬i < cut xs.length) :
    path hash i xs =
      path hash (i - cut xs.length) (xs.drop (cut xs.length)) ++
        [mth hash (xs.take (cut xs.length))] := by
  match xs, hTwo with
  | x :: y :: rest, _ =>
    rw [path]
    exact if_neg hRight

@[simp] theorem inputs_single (d : β) :
    inputs hash [d] = [.leaf d] := by
  rw [inputs]

theorem inputs_split (hTwo : 2 ≤ xs.length) :
    inputs hash xs =
      .node (mth hash (xs.take (cut xs.length))) (mth hash (xs.drop (cut xs.length))) ::
        (inputs hash (xs.take (cut xs.length)) ++ inputs hash (xs.drop (cut xs.length))) := by
  match xs, hTwo with
  | x :: y :: rest, _ =>
    rw [inputs]
    rfl

theorem inputs_pair (x y : β) :
    inputs hash [x, y] = [.node (hash (.leaf x)) (hash (.leaf y)), .leaf x, .leaf y] := by
  have hSplit := inputs_split hash (le_refl [x, y].length)
  simpa [cut_two] using hSplit

end Hash

/- Induction along the cuts of a list. -/
theorem splitInduction {P : List β → Prop} (hNil : P []) (hSingle : ∀ d, P [d])
    (hSplit : ∀ xs : List β, 2 ≤ xs.length →
      P (xs.take (cut xs.length)) →
      P (xs.drop (cut xs.length)) → P xs)
    (xs : List β) :
    P xs := by
  induction hLen : xs.length using Nat.strong_induction_on generalizing xs with
  | h n ih =>
    match xs with
    | [] => exact hNil
    | [d] => exact hSingle d
    | x :: y :: rest =>
      subst hLen
      apply hSplit _ (le_add_left 2 _)
      · exact ih _ (length_take_cut_lt x y rest) _ rfl
      · exact ih _ (length_drop_cut_lt x y rest) _ rfl

--
-- Binding
--

section Binding

variable {α β : Type} {hash : Input α β → α}

/- What is hashed last. -/
def top (hash : Input α β → α) : List β → Input α β
| [] => .empty
| [d] => .leaf d
| x :: y :: rest =>
    let k := cut (rest.length + 2)
    .node (mth hash ((x :: y :: rest).take k)) (mth hash ((x :: y :: rest).drop k))

variable {xs ys : List β}

theorem top_split (hTwo : 2 ≤ xs.length) :
    top hash xs =
      .node (mth hash (xs.take (cut xs.length))) (mth hash (xs.drop (cut xs.length))) := by
  match xs, hTwo with
  | x :: y :: rest, _ => rfl

theorem mth_eq_top (xs : List β) :
    mth hash xs = hash (top hash xs) := by
  match xs with
  | [] => exact mth_nil hash
  | [d] => exact mth_single hash d
  | x :: y :: rest => exact mth_split hash (by simp)

theorem top_mem_inputs (xs : List β) :
    top hash xs ∈ inputs hash xs := by
  match xs with
  | [] => simp [top, inputs]
  | [d] => simp [top]
  | x :: y :: rest =>
    rw [inputs_split hash (by simp)]
    exact mem_cons_self

section

variable (hInj : Set.InjOn hash {i | i ∈ inputs hash xs ∨ i ∈ inputs hash ys})
  (hRoot : mth hash xs = mth hash ys)
include hInj hRoot

theorem top_eq_of_mth_eq :
    top hash xs = top hash ys := by
  rw [mth_eq_top xs, mth_eq_top ys] at hRoot
  exact hInj (.inl (top_mem_inputs xs)) (.inr (top_mem_inputs ys)) hRoot

/-
  A root fixes the list below it where the hash does not collide on what the two trees hash.  The
  top inputs agree, so the lists have the same shape at the top, and the parts have equal roots in
  turn.
-/
theorem mth_injective :
    xs = ys := by
  induction xs using splitInduction generalizing ys with
  | hNil =>
    have hTop := top_eq_of_mth_eq hInj hRoot
    match ys with
    | [] => rfl
    | [_] => cases hTop
    | _ :: _ :: _ => cases hTop
  | hSingle d =>
    have hTop := top_eq_of_mth_eq hInj hRoot
    match ys with
    | [] => cases hTop
    | [_] =>
      cases hTop
      rfl
    | _ :: _ :: _ => cases hTop
  | hSplit xs hTwo ihLeft ihRight =>
    have hTop := top_eq_of_mth_eq hInj hRoot
    rw [top_split hTwo] at hTop
    have hTwo' : 2 ≤ ys.length := by
      match ys with
      | [] => cases hTop
      | [_] => cases hTop
      | _ :: _ :: _ => simp
    rw [top_split hTwo'] at hTop
    injection hTop with hLeft hRight
    rw [inputs_split hash hTwo, inputs_split hash hTwo'] at hInj
    have hTake := ihLeft (hInj.mono (by
      intro i hMem
      simp only [Set.mem_ofPred_eq, mem_cons, mem_append] at hMem ⊢
      tauto)) hLeft
    have hDrop := ihRight (hInj.mono (by
      intro i hMem
      simp only [Set.mem_ofPred_eq, mem_cons, mem_append] at hMem ⊢
      tauto)) hRight
    rw [← take_append_drop (cut xs.length) xs, hTake, hDrop, take_append_drop]

end

end Binding

--
-- Levels
--

section Levels

variable {α : Type} (hash : Input α α → α)

/- Hash adjacent pairs and keep a lone last element. -/
def level : List α → List α
| l :: r :: rest => hash (.node l r) :: level rest
| xs => xs

theorem length_level (xs : List α) :
    (level hash xs).length = (xs.length + 1) / 2 := by
  fun_induction level hash xs with
  | case1 l r rest ih =>
    simp only [List.length_cons, ih]
    omega
  | case2 xs hShort =>
    match xs with
    | [] => simp
    | [d] => simp
    | l :: r :: rest => exact absurd rfl (hShort l r rest)

theorem take_level (k : Nat) (xs : List α) :
    (level hash xs).take k = level hash (xs.take (2 * k)) := by
  induction k generalizing xs with
  | zero => simp [level]
  | succ k ih =>
    match xs with
    | [] => simp [level]
    | [d] => simp [level, mul_succ]
    | l :: r :: rest => simp [level, mul_succ, ih]

theorem drop_level (k : Nat) (xs : List α) :
    (level hash xs).drop k = level hash (xs.drop (2 * k)) := by
  induction k generalizing xs with
  | zero => simp
  | succ k ih =>
    match xs with
    | [] => simp [level]
    | [d] => simp [level, mul_succ]
    | l :: r :: rest => simp [level, mul_succ, ih]

variable {xs : List α} {l r : α} {j : Nat}

/- A pair of the list is one element of the level above. -/
theorem level_pair (hLeft : xs[2 * j]? = some l) (hRight : xs[2 * j + 1]? = some r) :
    (level hash xs)[j]? = some (hash (.node l r)) := by
  induction j generalizing xs with
  | zero =>
    match xs with
    | [] => simp at hLeft
    | [_] => simp at hRight
    | a :: b :: rest =>
      simp only [mul_zero, zero_add, getElem?_cons_zero, getElem?_cons_succ,
        Option.some.injEq] at hLeft hRight
      simp [level, hLeft, hRight]
  | succ j ih =>
    match xs with
    | [] => simp at hLeft
    | [_] => simp at hLeft
    | a :: b :: rest =>
      simp only [mul_succ, level, getElem?_cons_succ] at hLeft hRight ⊢
      exact ih hLeft hRight

/- A lone last element is promoted. -/
theorem level_lone (hLone : xs.length = 2 * j + 1) :
    (level hash xs)[j]? = xs[2 * j]? := by
  induction j generalizing xs with
  | zero =>
    match xs with
    | [d] => simp [level]
  | succ j ih =>
    match xs with
    | [] => simp at hLone
    | [_] => simp at hLone
    | a :: b :: rest =>
      simp only [mul_succ, level, getElem?_cons_succ]
      apply ih
      simp only [List.length_cons] at hLone
      omega

/-
  Induction along the cuts, where the cut of three or more
  elements lies at twice the cut of the level above.
-/
theorem levelInduction {P : List α → Prop} (hNil : P []) (hSingle : ∀ d, P [d])
    (hPair : ∀ l r, P [l, r])
    (hSplit : ∀ (xs : List α) (c : Nat),
      2 ≤ xs.length → 2 ≤ (level hash xs).length →
      cut xs.length = 2 * c → cut (level hash xs).length = c →
      P (xs.take (2 * c)) → P (xs.drop (2 * c)) → P xs)
    (xs : List α) :
    P xs := by
  induction xs using splitInduction with
  | hNil => exact hNil
  | hSingle d => exact hSingle d
  | hSplit xs hTwo ihLeft ihRight =>
    by_cases hThree : 3 ≤ xs.length
    · have hCut := cut_half hThree
      rw [← length_level hash xs] at hCut
      have hUp : 2 ≤ (level hash xs).length := by
        rw [length_level]
        omega
      rw [hCut] at ihLeft ihRight
      exact hSplit xs _ hTwo hUp hCut rfl ihLeft ihRight
    · match xs, hTwo, hThree with
      | [l, r], _, _ => exact hPair l r
      | _ :: _ :: _ :: _, _, hThree => simp at hThree

/-
  The way up the levels from one element: it is alone at the
  end of its level, or it is one half of a pair.
-/
inductive Climb : List α → Nat → Prop
| single (d : α) : Climb [d] 0
| lone
    {xs : List α}
    {j : Nat}
    (hLone : xs.length = 2 * j + 1)
    (hPos : 0 < j)
    (hUp : Climb (level hash xs) j) :
    Climb xs (2 * j)
| left
    {xs : List α}
    {j : Nat}
    {l r : α}
    (hLeft : xs[2 * j]? = some l)
    (hRight : xs[2 * j + 1]? = some r)
    (hUp : Climb (level hash xs) j) :
    Climb xs (2 * j)
| right
    {xs : List α}
    {j : Nat}
    {l r : α}
    (hLeft : xs[2 * j]? = some l)
    (hRight : xs[2 * j + 1]? = some r)
    (hUp : Climb (level hash xs) j) :
    Climb xs (2 * j + 1)

variable {i c : Nat}

/- Every element has its way up. -/
theorem climb_of_lt (hIndex : i < xs.length) :
    Climb hash xs i := by
  induction hSize : xs.length using Nat.strong_induction_on generalizing xs i with
  | h n ih =>
    subst hSize
    have hUp : ∀ j, 2 * j < xs.length → 2 ≤ xs.length → Climb hash (level hash xs) j := by
      intro j hj hTwo
      have hLen := length_level hash xs
      exact ih _ (by omega) (by omega) rfl
    have hHalf : ∃ j, i = 2 * j ∨ i = 2 * j + 1 := ⟨i / 2, by omega⟩
    rcases hHalf with ⟨j, rfl | rfl⟩
    · by_cases hPair : 2 * j + 1 < xs.length
      · exact .left (getElem?_eq_getElem hIndex) (getElem?_eq_getElem hPair)
          (hUp j hIndex (by omega))
      · by_cases hZero : j = 0
        · subst hZero
          match xs with
          | [d] => exact .single d
          | _ :: _ :: _ => simp at hPair
        · exact .lone (by omega) (by omega) (hUp j hIndex (by omega))
    · have hBelow : 2 * j < xs.length := by omega
      exact .right (getElem?_eq_getElem hBelow) (getElem?_eq_getElem hIndex)
        (hUp j hBelow (by omega))

/- The element hashed together with element `i`, if any. -/
def sibling (i : Nat) (xs : List α) : Option α :=
  if i % 2 = 1 then xs[i - 1]? else xs[i + 1]?

theorem sibling_take (xs : List α) (hLeft : i < 2 * c) :
    sibling i (xs.take (2 * c)) = sibling i xs := by
  unfold sibling
  split
  · exact getElem?_take_of_lt (by omega)
  · exact getElem?_take_of_lt (by omega)

theorem sibling_drop (xs : List α) (hRight : 2 * c ≤ i) :
    sibling (i - 2 * c) (xs.drop (2 * c)) = sibling i xs := by
  have hParity : (i - 2 * c) % 2 = i % 2 := by omega
  unfold sibling
  rw [hParity, getElem?_drop, getElem?_drop]
  split
  · congr 1
    omega
  · congr 1
    omega

variable (hLeaf : ∀ d, hash (.leaf d) = d)

include hLeaf

theorem mth_two (l r : α) :
    mth hash [l, r] = hash (.node l r) := by
  have hSplit := mth_split hash (le_refl [l, r].length)
  simpa [cut_two, hLeaf] using hSplit

/- One level up, the root is the same. -/
theorem mth_level (xs : List α) :
    mth hash (level hash xs) = mth hash xs := by
  induction xs using levelInduction hash with
  | hNil => simp [level]
  | hSingle d => simp [level]
  | hPair l r => simp [level, mth_two hash hLeaf, hLeaf]
  | hSplit xs c hTwo hUp hCut hCutUp ihLeft ihRight =>
    rw [mth_split hash hUp, mth_split hash hTwo, hCut,
      hCutUp, take_level, drop_level, ihLeft, ihRight]

/- A path is the sibling and then the path one level up. -/
theorem path_level (hIndex : i < xs.length) :
    path hash i xs = (sibling i xs).toList ++ path hash (i / 2) (level hash xs) := by
  induction xs using levelInduction hash generalizing i with
  | hNil => simp at hIndex
  | hSingle d =>
    have hZero : i = 0 := by simpa using hIndex
    simp [hZero, level, sibling]
  | hPair l r =>
    have hTwo : 2 ≤ [l, r].length := le_refl 2
    have hCases : i = 0 ∨ i = 1 := by
      simp only [List.length_cons, List.length_nil] at hIndex
      omega
    rcases hCases with rfl | rfl
    · rw [path_left hash hTwo (by simp [cut_two])]
      simp [level, sibling, cut_two, hLeaf]
    · rw [path_right hash hTwo (by simp [cut_two])]
      simp [level, sibling, cut_two, hLeaf]
  | hSplit xs c hTwo hUp hCut hCutUp ihLeft ihRight =>
    have hLt := cut_lt hTwo
    by_cases hSide : i < 2 * c
    · rw [path_left hash hTwo (by omega),
        path_left hash hUp (by omega), hCut, hCutUp,
        take_level, drop_level, mth_level hash hLeaf, ihLeft (by rw [length_take]; omega),
        sibling_take xs hSide, append_assoc]
    · have hHalf : (i - 2 * c) / 2 = i / 2 - c := by omega
      rw [path_right hash hTwo (by omega), path_right hash hUp (by omega), hCut, hCutUp, take_level,
        drop_level, mth_level hash hLeaf, ihRight (by rw [length_drop]; omega), hHalf,
        sibling_drop xs (by omega), append_assoc]

/- The nodes of the level above are nodes of the tree. -/
theorem mem_inputs_of_level (hMem : .node l r ∈ inputs hash (level hash xs)) :
    .node l r ∈ inputs hash xs := by
  induction xs using levelInduction hash with
  | hNil => exact hMem
  | hSingle d => exact hMem
  | hPair a b => simp [level] at hMem
  | hSplit xs c hTwo hUp hCut hCutUp ihLeft ihRight =>
    rw [inputs_split hash hUp, hCutUp, take_level, drop_level, mth_level hash hLeaf,
      mth_level hash hLeaf] at hMem
    rw [inputs_split hash hTwo, hCut]
    rcases mem_cons.mp hMem with hTop | hBelow
    · exact hTop ▸ mem_cons_self
    · apply mem_cons_of_mem
      rcases mem_append.mp hBelow with hIn | hIn
      · exact mem_append_left _ (ihLeft hIn)
      · exact mem_append_right _ (ihRight hIn)

/- Every pair of the list is a node of the tree. -/
theorem pair_mem_inputs (hLeft : xs[2 * j]? = some l) (hRight : xs[2 * j + 1]? = some r) :
    .node l r ∈ inputs hash xs := by
  induction xs using levelInduction hash generalizing j with
  | hNil => simp at hLeft
  | hSingle d => simp at hRight
  | hPair a b =>
    have hZero : j = 0 := by
      have hLt := (List.getElem?_eq_some_iff.mp hRight).1
      simp only [List.length_cons, List.length_nil] at hLt
      omega
    subst hZero
    rw [inputs_pair]
    simp_all
  | hSplit xs c hTwo hUp hCut hCutUp ihLeft ihRight =>
    rw [inputs_split hash hTwo, hCut]
    apply mem_cons_of_mem
    by_cases hSide : j < c
    · apply mem_append_left
      have hAt : (xs.take (2 * c))[2 * j]? = some l := by rw [getElem?_take_of_lt (by omega), hLeft]
      apply ihLeft hAt
      rw [getElem?_take_of_lt (by omega), hRight]
    · apply mem_append_right
      have hShift : 2 * c + 2 * (j - c) = 2 * j := by omega
      have hAt : (xs.drop (2 * c))[2 * (j - c)]? = some l := by rw [getElem?_drop, hShift, hLeft]
      apply ihRight hAt
      rw [getElem?_drop, ← add_assoc, hShift, hRight]

end Levels

end MerkleTree
