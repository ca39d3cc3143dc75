import Tracelane.Lib.BigEndian

/- The body of a minted key: 32 random bytes as one big-endian integer in base 62. -/

namespace Tracelane.Gateway.KeyBody

open List Nat BigEndian

def base62 : List Char :=
  "0123456789ABCDEFGHIJKLMNOPQRSTUVWXYZabcdefghijklmnopqrstuvwxyz".toList

def keyBodyLen : Nat := 43

/-
  One pass of the division by 62, in place.  It is `none`
  where a shifted `u16` or a cast to `u8` would lose bits.
-/
def divide : Nat → Bytes → Option (Bytes × Nat)
| remainder, [] => some ([], remainder)
| remainder, byte :: rest =>
    let acc := remainder <<< 8 ||| byte.toNat
    if acc < 2 ^ 16 ∧ acc / 62 < 2 ^ 8 then
      (divide (acc % 62) rest).map (fun r => (UInt8.ofNat (acc / 62) :: r.1, r.2))
    else none

/- The digits, least significant first. -/
def digitsOf : Nat → Bytes → Option (List Char)
| fuel, num =>
    if num.all (· = 0) then some []
    else
      match fuel with
      | 0 => none
      | fuel + 1 => do
          let (num, remainder) ← divide 0 num
          let digit ← base62[remainder]?
          let rest ← digitsOf fuel num
          return digit :: rest

def toBase62 (fuel : Nat) (bytes : ByteArr 32) : Option (List Char) :=
  (digitsOf fuel bytes.bytes).map (fun digits =>
    (digits ++ replicate (keyBodyLen - digits.length) '0').reverse)

def ofBase62 (body : List Char) : Nat :=
  value 62 (body.map (base62.idxOf ·))

/- A pass divides, and loses nothing. -/
theorem divide_eq {remainder : Nat} (num : Bytes) (hSmall : remainder < 62) :
    ∃ quotient remainder',
      divide remainder num = some (quotient, remainder') ∧
        remainder' < 62 ∧
        quotient.length = num.length ∧
        remainder * 256 ^ num.length + ofBytes num = ofBytes quotient * 62 + remainder' := by
  induction num generalizing remainder with
  | nil => exact ⟨[], remainder, rfl, hSmall, rfl, by simp [ofBytes, value]⟩
  | cons byte rest ih =>
    have hByte := byte.toNat_lt
    rw [divide, ← shiftLeft_add_eq_or_of_lt hByte, shiftLeft_eq]
    generalize hAcc : remainder * 2 ^ 8 + byte.toNat = acc
    have hFits : acc < 2 ^ 16 ∧ acc / 62 < 2 ^ 8 := by omega
    rcases ih (mod_lt acc (by decide : 62 > 0)) with
      ⟨quotient, remainder', hRest, hLess, hLen, hSum⟩
    refine ⟨UInt8.ofNat (acc / 62) :: quotient, remainder', ?_, hLess, by simp [hLen], ?_⟩
    · simp only [if_pos hFits, hRest, Option.map_some]
    · have hWhole : (62 * (acc / 62) + acc % 62) * 256 ^ rest.length =
          (remainder * 2 ^ 8 + byte.toNat) * 256 ^ rest.length := by
        rw [div_add_mod, hAcc]
      rw [ofBytes_cons, ofBytes_cons, hLen, UInt8.toNat_ofNat_of_lt' hFits.2, length_cons, pow_succ]
      linarith

theorem all_zero_iff (num : Bytes) : num.all (· = 0) = true ↔ ofBytes num = 0 := by
  induction num with
  | nil => simp [ofBytes, value]
  | cons byte rest ih =>
    rw [all_cons, Bool.and_eq_true, ih, ofBytes_cons]
    simp [← UInt8.toNat_inj]

theorem base62_nodup : base62.Nodup := by
  decide

theorem exists_digit {d : Nat} (hDigit : d < base62.length) :
    ∃ c ∈ base62, base62[d]? = some c ∧ base62.idxOf c = d :=
  ⟨base62[d], getElem_mem hDigit, getElem?_eq_getElem hDigit, base62_nodup.idxOf_getElem d hDigit⟩

/- The loop ends, with the digits of the integer. -/
theorem digitsOf_eq {fuel : Nat} (num : Bytes) (hFuel : ofBytes num < 62 ^ fuel) :
    ∃ ds, digitsOf fuel num = some ds ∧
      (∀ c ∈ ds, c ∈ base62) ∧
      ds.map (base62.idxOf ·) = digits 62 (ofBytes num) := by
  induction fuel generalizing num with
  | zero =>
    have hZero : ofBytes num = 0 := by omega
    exact ⟨[], by simp [digitsOf, (all_zero_iff num).mpr hZero], by simp [hZero]⟩
  | succ fuel ih =>
    by_cases hZero : ofBytes num = 0
    · exact ⟨[], by simp [digitsOf, (all_zero_iff num).mpr hZero], by simp [hZero]⟩
    rcases divide_eq num (by decide : 0 < 62) with ⟨quotient, d, hDivide, hDigit, _, hSum⟩
    rcases ih quotient (by omega) with ⟨ds, hRest, hIn, hDigits⟩
    rcases exists_digit hDigit with ⟨c, hMem, hChar, hIdx⟩
    have hNonzero := mt (all_zero_iff num).mp hZero
    refine ⟨c :: ds, ?_, forall_mem_cons.mpr ⟨hMem, hIn⟩, ?_⟩
    · simp [digitsOf, hNonzero, hDivide, hRest, hChar]
    · have hSplit : ofBytes num = d + 62 * ofBytes quotient := by omega
      rw [map_cons, hIdx, hDigits, hSplit, digits_add 62 (by decide) d _ hDigit (by omega)]

/- A body of 43 characters that denotes the bytes. -/
def Denotes (body : List Char) (bytes : ByteArr 32) : Prop :=
  body.length = keyBodyLen ∧ (∀ c ∈ body, c ∈ base62) ∧ ofBase62 body = ofBytes bytes.bytes

theorem toBase62_denotes (more : Nat) (bytes : ByteArr 32) :
    ∃ body, toBase62 (keyBodyLen + more) bytes = some body ∧ Denotes body bytes := by
  have hLt : ofBytes bytes.bytes < 62 ^ keyBodyLen := by
    have hBound := ofBytes_lt bytes.bytes
    rw [bytes.size] at hBound
    exact hBound.trans (by decide)
  rcases digitsOf_eq bytes.bytes
    (hLt.trans_le (Nat.pow_le_pow_right (by decide) (Nat.le_add_right _ more))) with
    ⟨ds, hDigits, hIn, hMap⟩
  have hLen : ds.length ≤ keyBodyLen := by
    rw [← length_map (base62.idxOf ·), hMap]
    exact (digits_length_le_iff (by decide) _).mpr hLt
  refine ⟨_, by rw [toBase62, hDigits, Option.map_some], ?_, ?_, ?_⟩
  · rw [length_reverse, length_append, length_replicate]
    omega
  · intro c hMem
    rcases mem_append.mp (mem_reverse.mp hMem) with hDigit | hPad
    · exact hIn c hDigit
    · rw [eq_of_mem_replicate hPad]
      decide
  · have hZero : base62.idxOf '0' = 0 := by decide
    rw [ofBase62, value, map_reverse, reverse_reverse, map_append, map_replicate, hZero,
      ofDigits_append_replicate_zero, hMap, ofDigits_digits]

/-
  A key body is exact: the loop ends within 43 passes, no shift or cast loses bits, and the
  characters denote the integer of the bytes; so different bytes give different keys.
-/
theorem toBase62_exact (more : Nat) (bytes : ByteArr 32) :
    (∃ body, toBase62 (keyBodyLen + more) bytes = some body ∧ Denotes body bytes) ∧
      ∀ bytes',
        toBase62 (keyBodyLen + more) bytes = toBase62 (keyBodyLen + more) bytes' →
          bytes = bytes' := by
  rcases toBase62_denotes more bytes with ⟨body, hBody, hDenotes⟩
  refine ⟨⟨body, hBody, hDenotes⟩, fun bytes' hSame => ?_⟩
  rcases toBase62_denotes more bytes' with ⟨body', hBody', hDenotes'⟩
  have hBodies : body = body' := by rwa [hBody, hBody', Option.some_inj] at hSame
  subst hBodies
  exact ByteArr.bytes_injective (ofBytes_inj (bytes.size.trans bytes'.size.symm)
    (hDenotes.2.2.symm.trans hDenotes'.2.2))

end Tracelane.Gateway.KeyBody
