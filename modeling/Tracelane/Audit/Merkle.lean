import Tracelane.Gateway.AuditFormat
import Tracelane.Lib.MerkleTree

/-
  The Merkle roots of the gateway and the verifier are the
  tree hash of RFC 6962, and a root fixes the rows below it.
-/

--
-- The RFC 6962 Hash
--

namespace Tracelane.Verifier

open MerkleTree List

variable (C : Crypto)

/- The bytes RFC 6962 hashes, with its prefixes. -/
def rfc6962Input : Input Hash Hash → Bytes
| .empty => []
| .leaf d => 0x00 :: d.bytes
| .node l r => 0x01 :: l.bytes ++ r.bytes

def rfc6962Hash (input : Input Hash Hash) : Hash :=
  C.sha256 (rfc6962Input input)

/- The hash of a tree whose leaves are hashed already. -/
def hashedLeaf : Input Hash Hash → Hash
| .leaf d => d
| input => rfc6962Hash C input

@[simp] theorem hashedLeaf_leaf (d : Hash) :
    hashedLeaf C (.leaf d) = d :=
  rfl

theorem rfc6962Input_injective :
    Function.Injective rfc6962Input := by
  intro a b hSame
  cases a with
  | empty => cases b <;> simp_all [rfc6962Input]
  | leaf d =>
    cases b with
    | empty => simp [rfc6962Input] at hSame
    | leaf e =>
      have hBytes : d.bytes = e.bytes := by simpa [rfc6962Input] using hSame
      rw [ByteArr.bytes_injective hBytes]
    | node l r => simp [rfc6962Input] at hSame
  | node l r =>
    cases b with
    | empty | leaf _ => simp [rfc6962Input] at hSame
    | node l' r' =>
      have hBytes : l.bytes ++ r.bytes = l'.bytes ++ r'.bytes := by simpa [rfc6962Input] using hSame
      rcases append_inj hBytes (by simp) with
        ⟨hLeft, hRight⟩
      rw [ByteArr.bytes_injective hLeft, ByteArr.bytes_injective hRight]

--
-- The Loop
--

theorem merkleLevel_eq_level (hashes : List Hash) :
    merkleLevel C hashes = level (hashedLeaf C) hashes := by
  fun_induction merkleLevel C hashes with
  | case1 l r rest ih =>
    rw [level, ih]
    rfl
  | case2 hashes hShort =>
    rcases hashes with _ | ⟨l, _ | ⟨r, rest⟩⟩
    · rfl
    · rfl
    · exact absurd rfl (hShort l r rest)

/- Hashing the leaves first gives the same tree. -/
theorem mth_map_leafHash (leaves : List Hash) :
    mth (hashedLeaf C) (leaves.map (leafHash C)) = mth (rfc6962Hash C) leaves := by
  induction leaves using splitInduction with
  | hNil => simp [hashedLeaf]
  | hSingle d =>
    simp [hashedLeaf, rfc6962Hash, rfc6962Input, leafHash]
  | hSplit leaves hTwo ihLeft ihRight =>
    rw [mth_split _ hTwo, mth_split _ (by simpa using hTwo), length_map, ← map_take, ← map_drop,
      ihLeft, ihRight]
    rfl

/- Each turn keeps the root of the level and halves it, so the loop ends at the root alone. -/
theorem merkleLoop_eq_mth {fuel : Nat} {hashes : List Hash}
    (hFuel : hashes.length ≤ fuel + 1) (hSome : hashes ≠ []) :
    merkleLoop C fuel hashes = [mth (hashedLeaf C) hashes] := by
  have hLone : ∀ hs : List Hash, hs ≠ [] → hs.length ≤ 1 → hs = [mth (hashedLeaf C) hs] := by
    intro hs hHs hShort
    match hs with
    | [d] => simp [hashedLeaf]
    | _ :: _ :: _ => simp at hShort
  induction fuel generalizing hashes with
  | zero => exact hLone hashes hSome hFuel
  | succ fuel ih =>
    unfold merkleLoop
    split_ifs with hMany
    · have hLen := length_level (hashedLeaf C) hashes
      rw [merkleLevel_eq_level, ih (by omega), mth_level _ (hashedLeaf_leaf C)]
      intro hEmpty
      rw [hEmpty, length_nil] at hLen
      omega
    · exact hLone hashes hSome (by omega)

theorem merkleRootV2_eq (leaves : List Hash) :
    merkleRootV2 C leaves = mth (rfc6962Hash C) leaves := by
  unfold merkleRootV2
  by_cases hEmpty : leaves = []
  · simp [hEmpty, merkleLoop, rfc6962Hash, rfc6962Input]
  · rw [merkleLoop_eq_mth C (by simp) (by simpa using hEmpty), mth_map_leafHash]

/- Both copies compute the RFC 6962 root of any leaves. -/
theorem merkleRootV2_eq_mth (leaves : List Hash) :
    merkleRootV2 C leaves = mth (rfc6962Hash C) leaves ∧
      Gateway.merkleRootV2 C.sha256 leaves = mth (rfc6962Hash C) leaves := by
  rw [Gateway.merkleRootV2_eq_verifier, merkleRootV2_eq]
  exact ⟨rfl, rfl⟩

--
-- Binding
--

/- The byte strings hashed for the root of `leaves`. -/
def hashedBytes (leaves : List Hash) : Set Bytes :=
  {b | ∃ input ∈ inputs (rfc6962Hash C) leaves,
    b = rfc6962Input input}

/-
  Where SHA-256 does not collide on what two trees hash, equal
  roots mean equal rows, in number and in order.
-/
theorem merkleRootV2_binds {leaves leaves' : List Hash}
    (hSha : Set.InjOn C.sha256 (hashedBytes C leaves ∪ hashedBytes C leaves'))
    (hRoot : Gateway.merkleRootV2 C.sha256 leaves = Gateway.merkleRootV2 C.sha256 leaves') :
    leaves = leaves' := by
  rw [Gateway.merkleRootV2_eq_verifier, Gateway.merkleRootV2_eq_verifier, merkleRootV2_eq,
    merkleRootV2_eq] at hRoot
  refine mth_injective ?_ hRoot
  intro i hi j hj hSame
  apply rfc6962Input_injective
  have hBytes :
      ∀ k, k ∈ inputs (rfc6962Hash C) leaves ∨ k ∈ inputs (rfc6962Hash C) leaves' →
        rfc6962Input k ∈ hashedBytes C leaves ∪ hashedBytes C leaves' := by
    intro k hk
    rcases hk with hk | hk
    · exact .inl ⟨k, hk, rfl⟩
    · exact .inr ⟨k, hk, rfl⟩
  exact hSha (hBytes i hi) (hBytes j hj) hSame

def constHash (byte : UInt8) : Hash :=
  ⟨replicate 32 byte, by simp⟩

theorem two_leaves_bound :
    Set.InjOn sha256Only.sha256
        (hashedBytes sha256Only [constHash 1, constHash 2] ∪
          hashedBytes sha256Only [constHash 1, constHash 2]) ∧
      [constHash 1, constHash 2] = [constHash 1, constHash 2] := by
  have hApart :
      (((inputs (rfc6962Hash sha256Only) [constHash 1, constHash 2]).map rfc6962Input).map
        sha256Only.sha256).Nodup := by
    rw [inputs_pair]
    decide +kernel
  have hSha : Set.InjOn sha256Only.sha256
      (hashedBytes sha256Only [constHash 1, constHash 2] ∪
        hashedBytes sha256Only [constHash 1, constHash 2]) := by
    rw [Set.union_self]
    rintro x ⟨i, hI, rfl⟩ y ⟨j, hJ, rfl⟩ hSame
    exact inj_on_of_nodup_map hApart (mem_map_of_mem hI) (mem_map_of_mem hJ) hSame
  exact ⟨hSha, merkleRootV2_binds sha256Only hSha rfl⟩

end Tracelane.Verifier
