import Tracelane.Guardrail.Media
import Tracelane.Lib.BigEndian

/-
  What the lenient base64 decoder returns: the bytes of the
  six-bit groups, and so the bytes of every encoding of them.
-/

namespace Tracelane.Guardrail

open List BigEndian

variable {url : Bool} {acc bits count v : Nat} {payload : List Char} {vs : List Nat} {out : Bytes}

theorem lenientVal_lt {c : Char} (hVal : lenientVal url c = some v) : v < 64 := by
  unfold lenientVal Verifier.base64Val at hVal
  simp only [Char.le_def, UInt32.le_iff_toNat_le] at hVal
  have hCode : c.val.toNat = c.toNat := rfl
  split_ifs at hVal <;> cases hVal <;> simp_all <;> omega

/- The pending bits stay below eight, and `acc` within them. -/
theorem pending_step (hAcc : acc < 2 ^ bits) (hBits : bits < 8) (hV : v < 64) :
    (acc * 64 + v) % 2 ^ 32 = acc * 64 + v ∧
      acc * 64 + v < 2 ^ (bits + 6) ∧
      (8 ≤ bits + 6 → (acc * 64 + v) / 2 ^ (bits + 6 - 8) < 2 ^ 8) := by
  interval_cases bits <;> omega

theorem lenientLoop_skips (padded : Bool)
    (hNone : payload.filterMap (lenientVal url) = []) :
    lenientLoop url acc bits padded count payload = some [] := by
  induction payload generalizing padded with
  | nil => rfl
  | cons c rest ih =>
    rw [filterMap_eq_nil_iff, forall_mem_cons, ← filterMap_eq_nil_iff] at hNone
    rw [lenientLoop, hNone.1]
    exact ih _ hNone.2

/-
  The bytes of the pending bits and then of the groups, six bits each; what is left over is dropped.
-/
def Groups (acc bits : Nat) (vs : List Nat) (out : Bytes) : Prop :=
  out.length = (bits + 6 * vs.length) / 8 ∧
    ofBytes out = (acc * 64 ^ vs.length + value 64 vs) / 2 ^ ((bits + 6 * vs.length) % 8)

theorem Groups.none (hAcc : acc < 2 ^ bits) (hBits : bits < 8) : Groups acc bits [] [] := by
  simp [Groups, ofBytes, value, Nat.mod_eq_of_lt hBits, Nat.div_eq_of_lt hAcc,
    Nat.div_eq_of_lt hBits]

theorem Groups.pend (hGroups : Groups (acc * 64 + v) (bits + 6) vs out) :
    Groups acc bits (v :: vs) out := by
  have hBits : bits + 6 * (v :: vs).length = bits + 6 + 6 * vs.length := by
    rw [length_cons]
    omega
  rw [Groups, hBits, value_cons, length_cons, pow_succ', ← Nat.add_assoc]
  rwa [Groups, Nat.add_mul, Nat.mul_assoc] at hGroups

theorem Groups.byte {byte : UInt8} (hByte : byte.toNat = acc / 2 ^ bits)
    (hGroups : Groups (acc % 2 ^ bits) bits vs out) :
    Groups acc (bits + 8) vs (byte :: out) := by
  rcases hGroups with ⟨hLen, hValue⟩
  have hAll : bits + 8 + 6 * vs.length = bits + 6 * vs.length + 8 := by omega
  have hPow : 2 ^ bits * 64 ^ vs.length = 2 ^ (bits + 6 * vs.length) := by
    rw [show 64 = 2 ^ 6 by rfl, ← pow_mul, ← pow_add]
  rw [Groups, hAll, Nat.add_mod_right, Nat.add_div_right _ (by decide), length_cons, hLen,
    ofBytes_cons, hByte, hLen, hValue]
  generalize bits + 6 * vs.length = total at *
  have hSplit : 2 ^ total = 2 ^ (total % 8) * 256 ^ (total / 8) := by
    rw [show 256 = 2 ^ 8 by rfl, ← pow_mul, ← pow_add, Nat.mod_add_div]
  have hWhole : acc * 64 ^ vs.length + value 64 vs =
      2 ^ (total % 8) * (acc / 2 ^ bits * 256 ^ (total / 8)) +
        (acc % 2 ^ bits * 64 ^ vs.length + value 64 vs) := by
    nth_rewrite 1 [← Nat.div_add_mod' acc (2 ^ bits)]
    rw [Nat.add_mul, Nat.mul_assoc, hPow, hSplit]
    ring
  rw [hWhole, Nat.mul_add_div (by positivity)]
  exact ⟨rfl, rfl⟩

/- The loop returns the bytes of the groups. -/
theorem lenientLoop_groups (hVs : payload.filterMap (lenientVal url) = vs)
    (hAcc : acc < 2 ^ bits) (hBits : bits < 8) (hSix : 6 ∣ 8 * count + bits)
    (hPad : (payload.dropWhile (· ≠ '=')).filterMap (lenientVal url) = [])
    (hCap : (8 * count + bits + 6 * vs.length) / 8 ≤ maxDecodedTextMedia) :
    ∃ out, lenientLoop url acc bits false count payload = some out ∧ Groups acc bits vs out := by
  induction payload generalizing acc bits count vs with
  | nil =>
    subst hVs
    exact ⟨[], rfl, Groups.none hAcc hBits⟩
  | cons c rest ih =>
    cases hVal : lenientVal url c with
    | none =>
      rw [filterMap_cons_none hVal] at hVs
      rw [lenientLoop, hVal]
      by_cases hEquals : c = '='
      · rw [dropWhile_cons_of_neg (by simpa using hEquals), filterMap_cons_none hVal] at hPad
        rw [← hVs, hPad]
        exact ⟨[], lenientLoop_skips _ hPad, Groups.none hAcc hBits⟩
      · rw [dropWhile_cons_of_pos (by simpa using hEquals)] at hPad
        simp only [hEquals, decide_false, Bool.or_false]
        exact ih hVs hAcc hBits hSix hPad hCap
    | some v =>
      have hEquals : c ≠ '=' := by
        rintro rfl
        cases url <;> cases hVal
      rw [dropWhile_cons_of_pos (by simpa using hEquals)] at hPad
      rw [filterMap_cons_some hVal] at hVs
      subst hVs
      rcases pending_step hAcc hBits (lenientVal_lt hVal) with ⟨hMod, hLt, hByte⟩
      rw [length_cons] at hCap
      have hRoom : ¬ maxDecodedTextMedia ≤ count := by
        unfold maxDecodedTextMedia at hCap ⊢
        omega
      simp only [lenientLoop, hVal, hMod, hRoom, decide_false, Bool.or_self, Bool.false_eq_true,
        if_false]
      split_ifs with hGroup hFits
      · rcases @ih ((acc * 64 + v) % 2 ^ (bits + 6 - 8)) (bits + 6 - 8) (count + 1) _ rfl
            (Nat.mod_lt _ (by positivity)) (by omega) (by omega) hPad (by omega) with
          ⟨out, hOut, hGroups⟩
        rw [hOut]
        refine ⟨_, rfl, Groups.pend ?_⟩
        have hNext := hGroups.byte (UInt8.toNat_ofNat_of_lt' (hByte hGroup))
        rwa [Nat.sub_add_cancel hGroup] at hNext
      · exact absurd (hByte hGroup) hFits
      · rcases @ih _ _ count _ rfl hLt (by omega) (by omega) hPad (by omega) with
          ⟨out, hOut, hGroups⟩
        exact ⟨out, hOut, hGroups.pend⟩

--
-- Encodings
--

/- Three bytes are four groups; a shorter end is filled with zeros. -/
def sextets : Bytes → List Nat
| [] => []
| [a] => [a.toNat / 4, a.toNat % 4 * 16]
| [a, b] => [a.toNat / 4, a.toNat % 4 * 16 + b.toNat / 16, b.toNat % 16 * 4]
| a :: b :: c :: rest =>
    a.toNat / 4 :: (a.toNat % 4 * 16 + b.toNat / 16) :: (b.toNat % 16 * 4 + c.toNat / 64) ::
      c.toNat % 64 :: sextets rest

def standard : List Char :=
  "ABCDEFGHIJKLMNOPQRSTUVWXYZabcdefghijklmnopqrstuvwxyz0123456789+/".toList

def urlSafe : List Char :=
  standard.take 62 ++ ['-', '_']

def encode (alphabet : List Char) (bytes : Bytes) : List Char :=
  (sextets bytes).map (alphabet.getD · '=')

theorem sextets_groups (bytes : Bytes) : Groups 0 0 (sextets bytes) bytes := by
  induction bytes using sextets.induct with
  | case1 => exact .none (by decide) (by decide)
  | case2 a => exact .pend (.pend (.byte (by omega) (.none (by omega) (by decide))))
  | case3 a b =>
    have hB := b.toNat_lt
    exact .pend (.pend (.byte (by omega) (.pend (.byte (by omega) (.none (by omega) (by decide))))))
  | case4 a b c rest ih =>
    have hB := b.toNat_lt
    have hC := c.toNat_lt
    refine .pend (.pend (.byte (by omega) (.pend (.byte (by omega) (.pend (.byte (by omega) ?_))))))
    rwa [pow_zero, Nat.mod_one]

theorem sextets_lt (bytes : Bytes) : ∀ v ∈ sextets bytes, v < 64 := by
  fun_induction sextets bytes <;> grind [UInt8.toNat_lt]

/- The alphabets that the decoder reads. -/
def alphabets (urlAlphabet : Bool) : List (List Char) :=
  standard :: if urlAlphabet then [urlSafe] else []

theorem lenientVal_encode (url : Bool) :
    ∀ alphabet ∈ alphabets url, ∀ v < 64, lenientVal url (alphabet.getD v '=') = some v := by
  revert url
  decide +kernel

theorem filterMap_encode {alphabet : List Char} (hAlphabet : alphabet ∈ alphabets url)
    (bytes : Bytes) :
    (encode alphabet bytes).filterMap (lenientVal url) = sextets bytes := by
  have hEach : ∀ v ∈ sextets bytes, lenientVal url (alphabet.getD v '=') = some v :=
    fun v hMem => lenientVal_encode url alphabet hAlphabet v (sextets_lt bytes v hMem)
  rw [encode, filterMap_map]
  exact (filterMap_congr hEach).trans filterMap_some

theorem Groups.inj {out' : Bytes} (hOut : Groups 0 0 vs out) (hOut' : Groups 0 0 vs out') :
    out = out' :=
  ofBytes_inj (hOut.1.trans hOut'.1.symm) (hOut.2.trans hOut'.2.symm)

/-
  Where no character of the alphabet follows a `=` and the cap holds what is decoded, no conversion
  fails and the bytes are those of the groups in order.  So every encoding is inverted, padded or
  not, whatever else is in between.
-/
theorem lenientBase64_inverts (payload : List Char) (url : Bool)
    (hPad : (payload.dropWhile (· ≠ '=')).filterMap (lenientVal url) = [])
    (hCap : 6 * (payload.filterMap (lenientVal url)).length / 8 ≤ maxDecodedTextMedia) :
    ∃ out,
      lenientBase64 payload url = some out ∧
        Groups 0 0 (payload.filterMap (lenientVal url)) out ∧
        ∀ alphabet ∈ alphabets url, ∀ bytes,
          payload.filter (fun c => (lenientVal url c).isSome) = encode alphabet bytes →
            out = bytes := by
  rcases @lenientLoop_groups url 0 0 0 payload _ rfl (by decide) (by decide) (by decide) hPad
    (by simpa using hCap) with ⟨out, hOut, hGroups⟩
  refine ⟨out, hOut, hGroups, fun alphabet hAlphabet bytes hEncoded => ?_⟩
  have hVs : payload.filterMap (lenientVal url) = sextets bytes := by
    rw [← filterMap_encode hAlphabet, ← hEncoded, filterMap_filter]
    refine filterMap_congr (fun c _ => ?_)
    cases lenientVal url c <;> rfl
  rw [hVs] at hGroups
  exact hGroups.inj (sextets_groups bytes)

theorem spaced_inverted :
    ("Q Q==".toList.dropWhile (· ≠ '=')).filterMap (lenientVal false) = [] ∧
      lenientBase64 "Q Q==".toList false = some [65] := by
  have hPad : ("Q Q==".toList.dropWhile (· ≠ '=')).filterMap (lenientVal false) = [] := by decide
  rcases lenientBase64_inverts "Q Q==".toList false hPad (by decide) with ⟨out, hOut, _, hInverts⟩
  rw [hOut, hInverts standard (by decide) [65] (by decide)]
  exact ⟨hPad, rfl⟩

end Tracelane.Guardrail
