import Tracelane.Audit.Merkle
import Tracelane.Audit.Rekor

/-
  Inclusion proofs are exact: the verifier's bit loop rebuilds the root of a tree from an element of
  it and the element's audit path, and from nothing else.

  The loop walks the levels of the tree.  Its index and last index are halved with each level; an
  element that is alone at the end of its level has no sibling there, and the inner loop skips those
  levels.
-/

--
-- The Inner Loop
--

namespace Tracelane.Verifier

open MerkleTree List

variable (C : Crypto)

variable {fuel fnv j sn i : Nat} {l r : Hash} {proof : List Hash} {pairs : List (Hash × Hash)}

/- On a 64-bit index the inner loop ends in 64 turns. -/
theorem skipZeroBits_ends (sn : Nat) (hFuel : fnv < 2 ^ fuel) :
    ¬((skipZeroBits fuel fnv sn).1 ≠ 0 ∧ (skipZeroBits fuel fnv sn).1 % 2 = 0) := by
  induction fuel generalizing fnv sn with
  | zero =>
    simp only [skipZeroBits]
    omega
  | succ fuel ih =>
    unfold skipZeroBits
    split
    · apply ih
      omega
    · assumption

theorem skipZeroBits_succ (sn : Nat) (hFuel : fnv < 2 ^ fuel) :
    skipZeroBits (fuel + 1) fnv sn = skipZeroBits fuel fnv sn := by
  induction fuel generalizing fnv sn with
  | zero =>
    have hZero : fnv = 0 := by omega
    simp [skipZeroBits, hZero]
  | succ fuel ih =>
    by_cases hEven : fnv ≠ 0 ∧ fnv % 2 = 0
    · rw [skipZeroBits, if_pos hEven, ih _ (by omega)]
      rw [skipZeroBits, if_pos hEven]
    · rw [skipZeroBits, if_neg hEven, skipZeroBits, if_neg hEven]

variable {j : Nat}

/- An index with a zero bit at the end loses it first. -/
theorem skipZeroBits_even (sn : Nat) (hPos : 0 < j) (hU64 : 2 * j < u64Size) :
    skipZeroBits 64 (2 * j) sn = skipZeroBits 64 j (sn / 2) := by
  have hHalf : 2 * j / 2 = j := by omega
  have hFew : j < 2 ^ 63 := by
    unfold u64Size at hU64
    omega
  rw [skipZeroBits, if_pos (by omega), hHalf, skipZeroBits_succ _ hFew]

theorem skipZeroBits_odd (j sn : Nat) :
    skipZeroBits 64 (2 * j + 1) sn = (2 * j + 1, sn) := by
  rw [skipZeroBits, if_neg (by omega)]

--
-- One Level of the Loop
--

/- The pairs `rfc6962Loop` hashes. -/
def hashedPairs :
    Nat → Nat → Hash → List Hash → List (Hash × Hash)
| _, _, _, [] => []
| fnv, sn, r, p :: proof =>
    if sn = 0 then []
    else if fnv % 2 = 1 ∨ fnv = sn then
      let (fnv, sn) := skipZeroBits 64 fnv sn
      (p, r) ::
        hashedPairs (fnv / 2) (sn / 2) (nodeHash C p r) proof
    else
      (r, p) ::
        hashedPairs (fnv / 2) (sn / 2) (nodeHash C r p) proof

/- A lone last element is carried to the level above. -/
theorem rfc6962Loop_lone (r : Hash) (proof : List Hash) (hPos : 0 < j) (hU64 : 2 * j < u64Size) :
    rfc6962Loop C (2 * j) (2 * j) r proof = rfc6962Loop C j j r proof ∧
      hashedPairs C (2 * j) (2 * j) r proof = hashedPairs C j j r proof := by
  have hZero : 2 * j ≠ 0 := by omega
  have hHalf : 2 * j / 2 = j := by omega
  have hSkip := skipZeroBits_even (2 * j) hPos hU64
  cases proof with
  | nil => simp [rfc6962Loop, hashedPairs, hPos.ne']
  | cons p proof =>
    rw [hHalf] at hSkip
    simp [rfc6962Loop, hashedPairs, hPos.ne', hSkip]

/- The right half of a pair is hashed after its sibling. -/
theorem rfc6962Loop_right (r p : Hash) (proof : List Hash) (hSn : sn ≠ 0) :
    rfc6962Loop C (2 * j + 1) sn r (p :: proof) = rfc6962Loop C j (sn / 2) (nodeHash C p r) proof ∧
      hashedPairs C (2 * j + 1) sn r (p :: proof) =
        (p, r) :: hashedPairs C j (sn / 2) (nodeHash C p r) proof := by
  have hHalf : (2 * j + 1) / 2 = j := by omega
  have hOdd : (2 * j + 1) % 2 = 1 := by omega
  simp [rfc6962Loop, hashedPairs, hSn, hOdd, hHalf, skipZeroBits_odd]

/- The left half of a pair is hashed before its sibling. -/
theorem rfc6962Loop_left (r p : Hash) (proof : List Hash) (hSn : 2 * j < sn) :
    rfc6962Loop C (2 * j) sn r (p :: proof) = rfc6962Loop C j (sn / 2) (nodeHash C r p) proof ∧
      hashedPairs C (2 * j) sn r (p :: proof) =
        (r, p) :: hashedPairs C j (sn / 2) (nodeHash C r p) proof := by
  have hHalf : 2 * j / 2 = j := by omega
  have hZero : sn ≠ 0 := by omega
  have hSide : ¬(2 * j % 2 = 1 ∨ 2 * j = sn) := by omega
  simp only [rfc6962Loop, hashedPairs, if_neg hZero, if_neg hSide, hHalf, and_self]

--
-- The Whole Loop
--

/- The halves of the last index follow the levels. -/
theorem last_of_level (hashes : List Hash) :
    (level (hashedLeaf C) hashes).length - 1 = (hashes.length - 1) / 2 := by
  rw [length_level]
  omega

theorem length_level_le (hashes : List Hash) :
    (level (hashedLeaf C) hashes).length ≤ hashes.length := by
  rw [length_level]
  omega

variable {hashes : List Hash}

theorem path_of_pair (hLeft : hashes[2 * j]? = some l) (hRight : hashes[2 * j + 1]? = some r) :
    path (hashedLeaf C) (2 * j) hashes = r :: path (hashedLeaf C) j (level (hashedLeaf C) hashes) ∧
      path (hashedLeaf C) (2 * j + 1) hashes =
        l :: path (hashedLeaf C) j (level (hashedLeaf C) hashes) := by
  have hLast := (List.getElem?_eq_some_iff.mp hRight).1
  have hEven : 2 * j / 2 = j := by omega
  have hOdd : (2 * j + 1) / 2 = j := by omega
  constructor
  · rw [path_level _ (hashedLeaf_leaf C) (by omega), hEven]
    simp [sibling, hRight]
  · rw [path_level _ (hashedLeaf_leaf C) hLast, hOdd]
    simp [sibling, hLeft]

theorem path_of_lone (hLone : hashes.length = 2 * j + 1) :
    path (hashedLeaf C) (2 * j) hashes = path (hashedLeaf C) j (level (hashedLeaf C) hashes) := by
  have hEven : 2 * j / 2 = j := by omega
  have hNone : hashes[2 * j + 1]? = none := getElem?_eq_none (by omega)
  rw [path_level _ (hashedLeaf_leaf C) (by omega), hEven]
  simp [sibling, hNone]

/- A proof is used up at the root and not before. -/
theorem rfc6962Loop_length (hClimb : Climb (hashedLeaf C) hashes i)
    (hU64 : hashes.length < u64Size) {root : Hash}
    (hOk : rfc6962Loop C i (hashes.length - 1) r proof = .ok root) :
    proof.length = (path (hashedLeaf C) i hashes).length := by
  induction hClimb generalizing r proof with
  | single d =>
    cases proof with
    | nil => simp
    | cons p proof => simp [rfc6962Loop] at hOk
  | @lone hashes j hLone hPos _ ih =>
    have hUp := length_level_le C hashes
    have hLast : hashes.length - 1 = 2 * j := by omega
    have hLastUp := last_of_level C hashes
    rw [hLast, (rfc6962Loop_lone C r proof hPos (by omega)).1] at hOk
    rw [path_of_lone C hLone]
    rw [hLast, Nat.mul_div_cancel_left _ Nat.two_pos] at hLastUp
    exact ih (by omega) (by rw [hLastUp, hOk])
  | @left hashes j l m hLeft hRight _ ih =>
    have hUp := length_level_le C hashes
    have hLt := (List.getElem?_eq_some_iff.mp hRight).1
    rw [(path_of_pair C hLeft hRight).1]
    cases proof with
    | nil =>
      have hSn : hashes.length - 1 ≠ 0 := by omega
      simp [rfc6962Loop, hSn] at hOk
    | cons p proof =>
      rw [(rfc6962Loop_left C r p proof (by omega)).1, ← last_of_level C hashes] at hOk
      simp [ih (by omega) hOk]
  | @right hashes j l m hLeft hRight _ ih =>
    have hUp := length_level_le C hashes
    have hLt := (List.getElem?_eq_some_iff.mp hRight).1
    have hSn : hashes.length - 1 ≠ 0 := by omega
    rw [(path_of_pair C hLeft hRight).2]
    cases proof with
    | nil => simp [rfc6962Loop, hSn] at hOk
    | cons p proof =>
      rw [(rfc6962Loop_right C r p proof hSn).1, ← last_of_level C hashes] at hOk
      simp [ih (by omega) hOk]

/- Node hashing tells apart what the tree hashed from what the loop hashes. -/
def TellsApart (hashes : List Hash) (pairs : List (Hash × Hash)) : Prop :=
  ∀ l r, .node l r ∈ inputs (hashedLeaf C) hashes →
    ∀ l' r', (l', r') ∈ pairs → nodeHash C l r = nodeHash C l' r' → l = l' ∧ r = r'

theorem TellsApart.up {pairs' : List (Hash × Hash)}
    (hApart : TellsApart C hashes pairs) (hPairs : pairs' ⊆ pairs) :
    TellsApart C (level (hashedLeaf C) hashes) pairs' := by
  intro l r hNode l' r' hPair
  exact hApart l r (mem_inputs_of_level _ (hashedLeaf_leaf C) hNode) l' r' (hPairs hPair)

/- The element above a pair is hashed from the pair only. -/
theorem TellsApart.pair_iff {a b : Hash} (hApart : TellsApart C hashes ((a, b) :: pairs))
    (hLeft : hashes[2 * j]? = some l) (hRight : hashes[2 * j + 1]? = some r) :
    (level (hashedLeaf C) hashes)[j]? = some (nodeHash C a b) ↔ l = a ∧ r = b := by
  have hNode := pair_mem_inputs (hashedLeaf C) (hashedLeaf_leaf C) hLeft hRight
  rw [level_pair _ hLeft hRight, Option.some.injEq]
  constructor
  · exact hApart l r hNode a b mem_cons_self
  · rintro ⟨rfl, rfl⟩
    rfl

/-
  Up the levels, the loop ends at the root exactly when the hash it carries is the element of the
  level and each proof hash is its sibling.
-/
theorem rfc6962Loop_exact (hClimb : Climb (hashedLeaf C) hashes i) (hU64 : hashes.length < u64Size)
    (hApart : TellsApart C hashes (hashedPairs C i (hashes.length - 1) r proof)) :
    rfc6962Loop C i (hashes.length - 1) r proof = .ok (mth (hashedLeaf C) hashes) ↔
      hashes[i]? = some r ∧ proof = path (hashedLeaf C) i hashes := by
  induction hClimb generalizing r proof with
  | single d =>
    cases proof with
    | nil => simp [rfc6962Loop, hashedLeaf, eq_comm]
    | cons p proof => simp [rfc6962Loop]
  | @lone hashes j hLone hPos _ ih =>
    have hUp := length_level_le C hashes
    have hLast : hashes.length - 1 = 2 * j := by omega
    have hLastUp := last_of_level C hashes
    rw [hLast, Nat.mul_div_cancel_left _ Nat.two_pos] at hLastUp
    rcases rfc6962Loop_lone C r proof hPos (by omega) with
      ⟨hLoop, hPairs⟩
    rw [hLast, hPairs] at hApart
    have hApartUp := hApart.up C (Subset.refl _)
    rw [hLastUp] at ih
    have hIff := ih (by omega) hApartUp
    rw [ mth_level _ (hashedLeaf_leaf C), level_lone _ hLone] at hIff
    rw [hLast, hLoop, path_of_lone C hLone, hIff]
  | @left hashes j l m hLeft hRight _ ih =>
    have hUp := length_level_le C hashes
    have hLt := (List.getElem?_eq_some_iff.mp hRight).1
    rw [(path_of_pair C hLeft hRight).1, hLeft]
    cases proof with
    | nil =>
      have hSn : hashes.length - 1 ≠ 0 := by omega
      simp [rfc6962Loop, hSn]
    | cons p proof =>
      rcases rfc6962Loop_left C r p proof (Nat.lt_sub_of_add_lt hLt) with ⟨hLoop, hPairs⟩
      rw [hPairs, ← last_of_level C hashes] at hApart
      rw [hLoop, ← last_of_level C hashes, ← mth_level (hashedLeaf C) (hashedLeaf_leaf C) hashes,
        ih (by omega) (hApart.up C (subset_cons_self _ _)), hApart.pair_iff C hLeft hRight]
      simp only [Option.some.injEq, cons.injEq]
      grind
  | @right hashes j l m hLeft hRight _ ih =>
    have hUp := length_level_le C hashes
    have hLt := (List.getElem?_eq_some_iff.mp hRight).1
    have hSn : hashes.length - 1 ≠ 0 := by omega
    rw [(path_of_pair C hLeft hRight).2, hRight]
    cases proof with
    | nil => simp [rfc6962Loop, hSn]
    | cons p proof =>
      rcases rfc6962Loop_right C r p proof hSn with ⟨hLoop, hPairs⟩
      rw [hPairs, ← last_of_level C hashes] at hApart
      rw [hLoop, ← last_of_level C hashes, ← mth_level (hashedLeaf C) (hashedLeaf_leaf C) hashes,
        ih (by omega) (hApart.up C (subset_cons_self _ _)), hApart.pair_iff C hLeft hRight]
      simp only [Option.some.injEq, cons.injEq]
      grind

--
-- Inclusion Proofs
--

/-
  Against the root of a tree, a leaf hash and a proof pass exactly when they are the element and its
  audit path, where node hashing is injective on what the tree and the proof hash.  A proof of
  another length is an error whatever the hashes, and the inner loop ends on every 64-bit index.
-/
theorem rfc6962Root_exact {hashes : List Hash} {i : Nat} (leaf : Hash) (proof : List Hash)
    (hIndex : i < hashes.length) (hU64 : hashes.length < u64Size) :
    (Set.InjOn (fun pair => nodeHash C pair.1 pair.2)
        {pair |
          .node pair.1 pair.2 ∈ inputs (hashedLeaf C) hashes ∨
          pair ∈ hashedPairs C i (hashes.length - 1) leaf proof} →
      (rfc6962Root C leaf i hashes.length proof = .ok (mth (hashedLeaf C) hashes) ↔
        hashes[i]? = some leaf ∧ proof = path (hashedLeaf C) i hashes)) ∧
      (proof.length ≠ (path (hashedLeaf C) i hashes).length →
        ∃ e, rfc6962Root C leaf i hashes.length proof = .error e) ∧
      ∀ fnv sn, fnv < u64Size →
        ¬((skipZeroBits 64 fnv sn).1 ≠ 0 ∧ (skipZeroBits 64 fnv sn).1 % 2 = 0) := by
  have hClimb := climb_of_lt (hashedLeaf C) hIndex
  have hRoot :
      rfc6962Root C leaf i hashes.length proof = rfc6962Loop C i (hashes.length - 1) leaf proof :=
    if_neg (by omega)
  rw [hRoot]
  refine ⟨?_, ?_, ?_⟩
  · intro hInj
    apply rfc6962Loop_exact C hClimb hU64
    intro l r hNode l' r' hPair hSame
    have hEq : (l, r) = (l', r') := hInj (.inl hNode) (.inr hPair) hSame
    exact Prod.mk.inj hEq
  · intro hLen
    cases hOk :
        rfc6962Loop C i (hashes.length - 1) leaf proof with
    | error e => exact ⟨e, rfl⟩
    | ok root =>
      exact absurd (rfc6962Loop_length C hClimb hU64 hOk) hLen
  · intro fnv sn hFnv
    exact skipZeroBits_ends sn hFnv

/- Three leaves; the last one is promoted once. -/
def threeLeaves : List Hash :=
  [constHash 2, constHash 3, constHash 4]

def firstTwo : Hash :=
  nodeHash sha256Only (constHash 2) (constHash 3)

theorem lone_leaf_included :
    rfc6962Root sha256Only (constHash 4) 2 3 [firstTwo] =
      .ok (mth (hashedLeaf sha256Only) threeLeaves) := by
  have hLeaf := hashedLeaf_leaf sha256Only
  have hCut : cut 3 = 2 := by simp [cut_half, cut_two]
  have hThree : 2 ≤ threeLeaves.length := by simp [threeLeaves]
  have hTwo : mth (hashedLeaf sha256Only) [constHash 2, constHash 3] = firstTwo := by
    rw [mth_two _ hLeaf]
    rfl
  have hPath : path (hashedLeaf sha256Only) 2 threeLeaves = [firstTwo] := by
    rw [path_right _ hThree (by simp [threeLeaves, hCut])]
    simp [threeLeaves, hCut, hTwo]
  refine ((rfc6962Root_exact sha256Only (constHash 4) [firstTwo]
    (show 2 < threeLeaves.length by simp [threeLeaves]) (by decide)).1 ?_).mpr ⟨rfl, hPath.symm⟩
  have hInputs :
      inputs (hashedLeaf sha256Only) threeLeaves =
        [.node firstTwo (constHash 4), .node (constHash 2) (constHash 3), .leaf (constHash 2),
          .leaf (constHash 3), .leaf (constHash 4)] := by
    rw [inputs_split _ hThree]
    simp [threeLeaves, hCut, hTwo, inputs_pair]
  have hPairs :
      hashedPairs sha256Only 2 2 (constHash 4) [firstTwo] = [(firstTwo, constHash 4)] := by
    simp [hashedPairs]
  have hBoth :
      ∀ pair : Hash × Hash,
        .node pair.1 pair.2 ∈ inputs (hashedLeaf sha256Only) threeLeaves ∨
          pair ∈ hashedPairs sha256Only 2 2 (constHash 4) [firstTwo] →
        pair ∈ [(firstTwo, constHash 4), (constHash 2, constHash 3)] := by
    intro pair hPair
    rw [hInputs, hPairs] at hPair
    simp at hPair
    grind
  have hApart :
      ([(firstTwo, constHash 4), (constHash 2, constHash 3)].map
        (fun pair => nodeHash sha256Only pair.1 pair.2)).Nodup := by
    decide +kernel
  exact fun a hA b hB hSame => inj_on_of_nodup_map hApart (hBoth a hA) (hBoth b hB) hSame

end Tracelane.Verifier
