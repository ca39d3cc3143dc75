import Tracelane.Audit.PortSpec
import Tracelane.Audit.Rekor

/-
  The TypeScript verifier next to the Rust one: the chain pass, and the root of an inclusion proof.

  JavaScript's bitwise operators work on 32 bits, whatever the number.  The walk up an inclusion
  proof is that of the Rust verifier for trees of at most `2 ^ 31` leaves, and for no larger size.
-/

namespace Tracelane.Verifier

open List Nat

variable (C : Crypto)

--
-- Numbers
--

/- `ToInt32`, which every bitwise operator applies. -/
def toInt32 (x : Int) : Int :=
  if x % 2 ^ 32 < 2 ^ 31 then x % 2 ^ 32
  else x % 2 ^ 32 - 2 ^ 32

theorem toInt32_of_mem {x : Int} (hInt32 : -(2 ^ 31) ≤ x ∧ x < 2 ^ 31) :
    toInt32 x = x := by
  unfold toInt32
  split
  · omega
  · omega

/- `x & 1`. -/
def lowBit (x : Int) : Int :=
  toInt32 x % 2

/- `x >> 1`. -/
def shiftRight (x : Int) : Int :=
  toInt32 x / 2

--
-- The Root Of A Proof
--

/- The inner loop.  A shift leaves a number of at most 31 bits that the next ones halve. -/
def tsSkipZeroBits : Nat → Int → Int → Int × Int
| 0, fnv, sn => (fnv, sn)
| fuel + 1, fnv, sn =>
    if fnv ≠ 0 ∧ lowBit fnv = 0 then
      tsSkipZeroBits fuel (shiftRight fnv) (shiftRight sn)
    else (fnv, sn)

def tsRfc6962Loop :
    Int → Int → Hash → List Hash → Except String Hash
| _, sn, r, [] =>
    if sn ≠ 0 then .error "inclusion proof too short" else .ok r
| fnv, sn, r, p :: proof =>
    if sn = 0 then .error "inclusion proof too long"
    else if lowBit fnv = 1 ∨ fnv = sn then
      let (fnv, sn) := tsSkipZeroBits 64 fnv sn
      tsRfc6962Loop (shiftRight fnv) (shiftRight sn) (nodeHash C p r) proof
    else
      tsRfc6962Loop (shiftRight fnv) (shiftRight sn) (nodeHash C r p) proof

def tsRfc6962Root (leaf : Hash) (index size : Nat) (proof : List Hash) : Except String Hash :=
  if index ≥ size then .error "leaf index >= tree size"
  else tsRfc6962Loop C index (size - 1) leaf proof

variable {C}

--
-- Within 31 Bits
--

variable {n : Nat}

theorem toInt32_of_lt (hSmall : n < 2 ^ 31) :
    toInt32 (n : Int) = n :=
  toInt32_of_mem (by omega)

theorem shiftRight_of_lt (hSmall : n < 2 ^ 31) :
    shiftRight (n : Int) = ((n / 2 : Nat) : Int) := by
  unfold shiftRight
  rw [toInt32_of_lt hSmall]
  omega

theorem lowBit_of_lt (hSmall : n < 2 ^ 31) :
    lowBit (n : Int) = ((n % 2 : Nat) : Int) := by
  unfold lowBit
  rw [toInt32_of_lt hSmall]
  omega

theorem tsSkipZeroBits_of_lt (fuel : Nat) {fnv sn : Nat} (hFn : fnv < 2 ^ 31) (hSn : sn < 2 ^ 31) :
    tsSkipZeroBits fuel fnv sn =
        (((skipZeroBits fuel fnv sn).1 : Int), ((skipZeroBits fuel fnv sn).2 : Int)) ∧
      (skipZeroBits fuel fnv sn).1 < 2 ^ 31 ∧
      (skipZeroBits fuel fnv sn).2 < 2 ^ 31 := by
  induction fuel generalizing fnv sn with
  | zero => exact ⟨rfl, hFn, hSn⟩
  | succ fuel ih =>
    unfold tsSkipZeroBits skipZeroBits
    rw [lowBit_of_lt hFn, shiftRight_of_lt hFn, shiftRight_of_lt hSn]
    by_cases hEven : fnv ≠ 0 ∧ fnv % 2 = 0
    · have hEven' : (fnv : Int) ≠ 0 ∧ ((fnv % 2 : Nat) : Int) = 0 := by omega
      rw [if_pos hEven, if_pos hEven']
      exact ih (by omega) (by omega)
    · have hEven' : ¬ ((fnv : Int) ≠ 0 ∧ ((fnv % 2 : Nat) : Int) = 0) := by omega
      rw [if_neg hEven, if_neg hEven']
      exact ⟨rfl, hFn, hSn⟩

variable (proof : List Hash)

theorem tsRfc6962Loop_of_lt {fnv sn : Nat} (hFn : fnv < 2 ^ 31) (hSn : sn < 2 ^ 31) (r : Hash) :
    tsRfc6962Loop C fnv sn r proof = rfc6962Loop C fnv sn r proof := by
  induction proof generalizing fnv sn r with
  | nil =>
    unfold tsRfc6962Loop rfc6962Loop
    simp only [ne_eq, Int.natCast_eq_zero]
  | cons p proof ih =>
    unfold tsRfc6962Loop rfc6962Loop
    rcases tsSkipZeroBits_of_lt 64 hFn hSn with ⟨hSkip, hFn', hSn'⟩
    have hTurn : (lowBit (fnv : Int) = 1 ∨ (fnv : Int) = sn) ↔ (fnv % 2 = 1 ∨ fnv = sn) := by
      rw [lowBit_of_lt hFn]
      omega
    simp only [Int.natCast_eq_zero, hTurn, hSkip, shiftRight_of_lt hFn', shiftRight_of_lt hSn',
      shiftRight_of_lt hFn, shiftRight_of_lt hSn]
    rw [ih (by omega) (by omega), ih (by omega) (by omega)]

--
-- Past 31 Bits
--

/- A proof as long as the path of the first leaf. -/
theorem rfc6962Loop_first {sn : Nat} (hPath : sn < 2 ^ proof.length)
    (hLeast : proof = [] ∨ 2 ^ (proof.length - 1) ≤ sn) (r : Hash) :
    (rfc6962Loop C 0 sn r proof).toOption.isSome = true := by
  induction proof generalizing sn r with
  | nil =>
    unfold rfc6962Loop
    have hZero : sn = 0 := by simpa using hPath
    rw [if_neg (by simpa using hZero)]
    rfl
  | cons p proof ih =>
    have hSn : 2 ^ proof.length ≤ sn := by
      rcases hLeast with hNil | hLeast
      · cases hNil
      · simpa using hLeast
    have hPos : 0 < 2 ^ proof.length := Nat.two_pow_pos _
    rw [length_cons, pow_succ] at hPath
    unfold rfc6962Loop
    rw [if_neg (by omega), if_neg (by omega)]
    apply ih
    · omega
    · cases proof with
      | nil => exact .inl rfl
      | cons q proof =>
        right
        simp only [length_cons, Nat.add_sub_cancel, Nat.pow_succ] at hSn ⊢
        omega

/- A negative size never comes down to 0. -/
theorem tsRfc6962Loop_neg {sn : Int} (hNeg : sn < 0) (hInt32 : -(2 ^ 31) ≤ sn) (r : Hash) :
    (tsRfc6962Loop C 0 sn r proof).toOption = none := by
  induction proof generalizing sn r with
  | nil =>
    unfold tsRfc6962Loop
    rw [if_pos (by omega)]
    rfl
  | cons p proof ih =>
    have hSame : toInt32 sn = sn := toInt32_of_mem (by omega)
    have hZero : lowBit 0 = 0 := rfl
    unfold tsRfc6962Loop
    rw [if_neg (by omega), hZero, if_neg (by omega)]
    unfold shiftRight
    rw [hSame]
    exact ih (by omega) (by omega) _

/- A proof longer than the path is refused. -/
theorem tsRfc6962Loop_long {k : Nat} (hBits : k ≤ 31) (hPath : n < 2 ^ k)
    (hLong : k < proof.length) (r : Hash) :
    (tsRfc6962Loop C 0 n r proof).toOption = none := by
  induction proof generalizing k n r with
  | nil => simp at hLong
  | cons p proof ih =>
    have hSmall : n < 2 ^ 31 := Nat.lt_of_lt_of_le hPath (Nat.pow_le_pow_right (by decide) hBits)
    have hZero : lowBit 0 = 0 := rfl
    have hShift : shiftRight 0 = ((0 : Nat) : Int) := rfl
    unfold tsRfc6962Loop
    split
    · rfl
    · rename_i hNonzero
      rw [hZero, if_neg (by omega), hShift, shiftRight_of_lt hSmall]
      cases k with
      | zero =>
        simp only [pow_zero] at hPath
        omega
      | succ k =>
        rw [pow_succ] at hPath
        rw [length_cons] at hLong
        exact ih (k := k) (by omega) (by omega) (by omega) _

/- The first leaf of a tree of more than `2 ^ 31` leaves. -/
theorem tsRfc6962Loop_first {sn : Nat}
    (hLarge : 2 ^ 31 ≤ sn) (hPath : sn < 2 ^ proof.length) (r : Hash) :
    (tsRfc6962Loop C 0 sn r proof).toOption = none := by
  cases proof with
  | nil =>
    simp only [length_nil, pow_zero] at hPath
    omega
  | cons p proof =>
    have hZero : lowBit 0 = 0 := rfl
    have hShift : shiftRight 0 = 0 := rfl
    unfold tsRfc6962Loop
    rw [if_neg (by omega), hZero, if_neg (by omega), hShift]
    unfold shiftRight toInt32
    split
    · -- The bits past the 32nd are lost, and with them the
      -- end of the path.
      rename_i hPositive
      have hLong : 30 < proof.length := by
        by_contra hShort
        have hBound : 2 ^ (proof.length + 1) ≤ 2 ^ 31 := Nat.pow_le_pow_right (by decide) (by omega)
        rw [length_cons] at hPath
        omega
      have hCast : ((sn : Int) % 2 ^ 32) / 2 = ((sn % 2 ^ 32 / 2 : Nat) : Int) := by omega
      rw [hCast]
      exact tsRfc6962Loop_long proof (k := 30) (by decide) (by omega) hLong _
    · -- The 32nd bit is a sign.
      rename_i hNegative
      exact tsRfc6962Loop_neg proof (by omega) (by omega) _

/- The two verifiers agree on the proofs of a tree. -/
theorem tsRfc6962Root_agrees_iff (C : Crypto) (size : Nat) :
    (∀ leaf index proof,
        index < 2 ^ 53 →
          (tsRfc6962Root C leaf index size proof).toOption =
            (rfc6962Root C leaf index size proof).toOption) ↔
      size ≤ 2 ^ 31 := by
  constructor
  · intro hAgree
    by_contra hLarge
    have hSn : 2 ^ 31 ≤ size - 1 := by omega
    have hBits := lt_log2_self (n := size - 1)
    have hLeast := log2_self_le (n := size - 1) (by omega)
    have hSame := hAgree (.zero 32) 0 (replicate ((size - 1).log2 + 1) (.zero 32)) (by decide)
    unfold tsRfc6962Root rfc6962Root at hSame
    rw [if_neg (by omega), if_neg (by omega)] at hSame
    have hCast : ((size : Int) - 1) = ((size - 1 : Nat) : Int) := by omega
    have hTs :=
      tsRfc6962Loop_first (C := C) (replicate ((size - 1).log2 + 1) (.zero 32)) hSn
        (by simpa using hBits) (.zero 32)
    have hRust :=
      rfc6962Loop_first (C := C) (replicate ((size - 1).log2 + 1) (.zero 32)) (by simpa using hBits)
        (.inr (by simpa using hLeast)) (.zero 32)
    have hZero : ((0 : Nat) : Int) = 0 := rfl
    rw [← hSame, hCast, hZero, hTs] at hRust
    cases hRust
  · intro hSmall leaf index proof _
    unfold tsRfc6962Root rfc6962Root
    split_ifs
    · rfl
    · have hCast : ((size : Int) - 1) = ((size - 1 : Nat) : Int) := by omega
      rw [hCast, tsRfc6962Loop_of_lt proof (by omega) (by omega)]

--
-- Agreement
--

open Std

/- Every window is rooted at a hash of 64 digits. -/
def RootedAtHashes (rows : List AuditRow) (includedStarts : TreeMap String Nat) : Prop :=
  ∀ tenant s, startIn rows includedStarts tenant = some s →
    s ≠ 0 → ∀ first ∈ (inScope s (rowsOf tenant rows)).head?, first.prevHash.utf8ByteSize = 64

theorem rootedAtHashes_iff_legible (rows : List AuditRow) (includedStarts : TreeMap String Nat) :
    RootedAtHashes rows includedStarts ↔
      ∀ tenant,
        Legible (fun _ => true) (fun s => s.utf8ByteSize = 64)
          (startIn rows includedStarts tenant)
          (rowsOf tenant rows) := by
  unfold RootedAtHashes Legible plainRow
  simp only [decide_eq_true_eq, Bool.and_self, and_self, implies_true, true_and]

/-
  The TypeScript verifier roots a window at whatever digits its first row declares, and its tree
  sizes have 31 bits; nothing else sets the two apart.
-/
theorem typescript_agrees_iff (C : Crypto) (S : Serde) (L : TsLib) (opts : VerifyOptions)
    (rows : List AuditRow) (includedStarts : TreeMap String Nat) (report : VerifyReport)
    (hFormat : ∀ row ∈ rows, row.format = some "v2.1") (hSeq : ∀ row ∈ rows, row.seq < 2 ^ 53 - 1) :
    let ts := (typescript L).verifyChain C opts rows includedStarts report
    let rust := verifyChain C S opts rows includedStarts report
    (ts.trustEstablished = rust.trustEstablished ∧
      ts.verifiedFromSeq = rust.verifiedFromSeq ∧
      (ts.hashChainValid = rust.hashChainValid ↔
        (report.hashChainValid = true →
          (∀ tenant,
            (typescript L).ChainFrom C opts tenant (startIn rows includedStarts tenant)
              (rowsOf tenant rows)) →
          RootedAtHashes rows includedStarts))) ∧
      ∀ size, size < 2 ^ 53 →
        ((∀ leaf index proof,
            index < 2 ^ 53 →
              (tsRfc6962Root C leaf index size proof).toOption =
                (rfc6962Root C leaf index size proof).toOption) ↔
          size ≤ 2 ^ 31) := by
  rw [rootedAtHashes_iff_legible]
  refine ⟨?_, fun size _ => tsRfc6962Root_agrees_iff C size⟩
  apply Port.agrees_iff rows includedStarts report (typescript_reads L) hFormat
  right
  intro row hRow
  have hLt := hSeq row hRow
  have hFits : 2 ^ 53 < u64Size := by decide
  omega

def sampleTsLib : TsLib where
  hexToBytesError _ := "hex string expected, got non-hex character"
  stringifySorted := Value.canonical

/- A window that starts at 5, with its hashes as given. -/
def windowRow (prevHash rowHash : String) : AuditRow :=
  { sampleRow rowHash with
    seq := 5
    seq_lt := by decide
    prevHash := prevHash }

def windowStarts : TreeMap String Nat :=
  (∅ : TreeMap String Nat).insert "00000000000000000000000000000000" 5

/-
  A window whose first row declares one byte, and the first leaf of a tree of `2 ^ 31 + 1` leaves.
-/
theorem shortSeed_disagrees :
    ((typescript sampleTsLib).verifyChain sha256Only {}
        [windowRow "ab" "f6bc4a9c435f80aeb1211e22aa51aaf7570331827e4aece5f1c877c20166af13"]
        windowStarts sampleReport).hashChainValid = true ∧
      (verifyChain sha256Only jsonSerde {}
        [windowRow "ab" "f6bc4a9c435f80aeb1211e22aa51aaf7570331827e4aece5f1c877c20166af13"]
        windowStarts sampleReport).hashChainValid = false ∧
      (tsRfc6962Root sha256Only (.zero 32) 0 (2 ^ 31 + 1)
        (replicate 32 (.zero 32))).toOption.isSome = false ∧
      (rfc6962Root sha256Only (.zero 32) 0 (2 ^ 31 + 1)
        (replicate 32 (.zero 32))).toOption.isSome = true := by
  decide

/- The same row under a whole hash. -/
def seededRows : List AuditRow :=
  [windowRow "abababababababababababababababababababababababababababababababab"
    "df30221898d94b952188e2d1023c997da152bc4592e7d3db00b287ea4ba77b64"]

theorem fullSeed_agrees :
    ((typescript sampleTsLib).verifyChain sha256Only {} seededRows windowStarts
        sampleReport).hashChainValid =
      (verifyChain sha256Only jsonSerde {} seededRows windowStarts sampleReport).hashChainValid ∧
      ∀ leaf index proof,
        index < 2 ^ 53 →
          (tsRfc6962Root sha256Only leaf index 7 proof).toOption =
            (rfc6962Root sha256Only leaf index 7 proof).toOption := by
  have hRooted : RootedAtHashes seededRows windowStarts := by
    intro tenant s _ _ first hFirst
    have hMem := (mem_filter.mp (mem_inScope_iff.mp (mem_of_mem_head? hFirst)).1).1
    rw [mem_singleton.mp hMem]
    decide
  have hBoth :=
    typescript_agrees_iff sha256Only jsonSerde sampleTsLib {} seededRows windowStarts sampleReport
      (by
        intro row hRow
        rw [mem_singleton.mp hRow]
        rfl)
      (by
        intro row hRow
        rw [mem_singleton.mp hRow]
        decide)
  exact ⟨hBoth.1.2.2.mpr (fun _ _ => hRooted), (hBoth.2 7 (by decide)).mpr (by decide)⟩

end Tracelane.Verifier
