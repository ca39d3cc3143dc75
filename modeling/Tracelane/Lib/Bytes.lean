import Mathlib.Algebra.Order.Ring.Int
import Mathlib.Data.List.Sort
import Mathlib.Data.List.DropRight

/-
  Byte strings and the encodings a hashed record is built from: fixed-size arrays, big-endian words,
  length-prefixed fields, and hexadecimal text.
-/

--
-- Byte Strings and Fixed-Size Arrays
--

abbrev Bytes := List UInt8

/- A byte array of one fixed size. -/
structure ByteArr (n : Nat) where
  bytes : Bytes
  size : bytes.length = n
deriving DecidableEq

open List

namespace ByteArr

variable {n : Nat}

@[simp] theorem length_bytes (a : ByteArr n) :
    a.bytes.length = n :=
  a.size

theorem bytes_injective {a b : ByteArr n} (h : a.bytes = b.bytes) :
    a = b := by
  cases a
  cases b
  simp_all

/- Read a slice as an array of size `n`. -/
def ofBytes? (n : Nat) (b : Bytes) : Option (ByteArr n) :=
  if h : b.length = n then some ⟨b, h⟩ else none

theorem ofBytes?_eq_some_iff {b : Bytes} {a : ByteArr n} :
    ofBytes? n b = some a ↔ b = a.bytes := by
  unfold ofBytes?
  constructor
  · intro h
    split at h
    · cases h
      rfl
    · cases h
  · rintro rfl
    simp

/- The all-zero array. -/
def zero (n : Nat) : ByteArr n :=
  ⟨replicate n 0, by simp⟩

end ByteArr

/- The UTF-8 bytes of a string. -/
def utf8 (s : String) : Bytes :=
  s.toByteArray.data.toList

theorem utf8_injective {s t : String} (h : utf8 s = utf8 t) :
    s = t := by
  apply String.toByteArray_inj.mp
  apply ByteArray.ext
  exact Array.toList_inj.mp h

variable (s : String)

@[simp] theorem length_utf8 :
    (utf8 s).length = s.utf8ByteSize := by
  rw [utf8, Array.length_toList, ByteArray.size_data, String.size_toByteArray]

variable (cs : List Char)

theorem utf8_ofList :
    utf8 (String.ofList cs) = cs.flatMap String.utf8EncodeChar := by
  simp [utf8, String.toByteArray_ofList, utf8Encode]

theorem utf8_append (s t : String) :
    utf8 (s ++ t) = utf8 s ++ utf8 t := by
  simp [utf8]

--
-- Characters of UTF-8 Text
--

/- The characters of UTF-8 bytes. -/
def decodeUtf8 : Bytes → List Char
| [] => []
| a :: rest =>
    if a.toNat < 0x80 then
      Char.ofNat a.toNat :: decodeUtf8 rest
    else
      match rest with
      | [] => []
      | b :: rest =>
          if a.toNat < 0xe0 then
            Char.ofNat (a.toNat % 32 * 64 + b.toNat % 64) ::
              decodeUtf8 rest
          else
            match rest with
            | [] => []
            | c :: rest =>
                if a.toNat < 0xf0 then
                  Char.ofNat (a.toNat % 16 * 4096 + b.toNat % 64 * 64 + c.toNat % 64) ::
                    decodeUtf8 rest
                else
                  match rest with
                  | [] => []
                  | d :: rest =>
                      Char.ofNat (a.toNat % 8 * 262144 +
                        b.toNat % 64 * 4096 +
                        c.toNat % 64 * 64 + d.toNat % 64) ::
                        decodeUtf8 rest

/- Decoding undoes the encoding of one character. -/
theorem decodeUtf8_char (c : Char) (rest : Bytes) :
    decodeUtf8 (String.utf8EncodeChar c ++ rest) = c :: decodeUtf8 rest := by
  have hChar : ∀ n, n = c.val.toNat → Char.ofNat n = c := by
    intro n hN
    subst hN
    exact Char.ofNat_toNat c
  have hValid : c.val.toNat < 0x110000 := by
    have hChar := c.valid
    simp only [UInt32.isValidChar, Nat.isValidChar] at hChar
    omega
  unfold String.utf8EncodeChar
  simp only
  split
  · rw [cons_append, decodeUtf8.eq_def]
    simp only [UInt8.toNat_ofNat']
    rw [if_pos (by omega), hChar _ (by omega)]
    rfl
  · split
    · rw [cons_append, decodeUtf8.eq_def]
      simp only [UInt8.toNat_ofNat', cons_append, nil_append]
      rw [if_neg (by omega), if_pos (by omega), hChar _ (by omega)]
    · split
      · rw [cons_append, decodeUtf8.eq_def]
        simp only [UInt8.toNat_ofNat', cons_append, nil_append]
        rw [if_neg (by omega), if_neg (by omega), if_pos (by omega), hChar _ (by omega)]
      · rw [cons_append, decodeUtf8.eq_def]
        simp only [UInt8.toNat_ofNat', cons_append, nil_append]
        rw [if_neg (by omega), if_neg (by omega), if_neg (by omega), hChar _ (by omega)]

/- An ASCII byte is only in the encoding of its character. -/
theorem toNat_eq_of_mem_utf8EncodeChar
    {c : Char}
    {b : UInt8}
    (hAscii : b < 128)
    (hMem : b ∈ String.utf8EncodeChar c) :
    c.toNat = b.toNat := by
  have hSmall : b.toNat < 128 := hAscii
  have hVal : c.toNat = c.val.toNat := rfl
  unfold String.utf8EncodeChar at hMem
  simp only at hMem
  split at hMem
  · have hOnly := congrArg UInt8.toNat (mem_singleton.mp hMem)
    rw [UInt8.toNat_ofNat'] at hOnly
    omega
  · -- Every byte of a longer encoding is past ASCII.
    suffices hPast : 128 ≤ b.toNat by omega
    clear hSmall hAscii
    revert b
    split
    · simp only [forall_mem_cons, UInt8.toNat_ofNat', not_mem_nil, false_implies, implies_true,
        and_true]
      omega
    · split
      · simp only [forall_mem_cons, UInt8.toNat_ofNat', not_mem_nil, false_implies, implies_true,
          and_true]
        omega
      · simp only [forall_mem_cons, UInt8.toNat_ofNat', not_mem_nil, false_implies, implies_true,
          and_true]
        omega

/- Decoding undoes the encoding of what comes first. -/
theorem decodeUtf8_append (rest : Bytes) :
    decodeUtf8 (utf8 s ++ rest) = s.toList ++ decodeUtf8 rest := by
  have hChars :
      ∀ cs : List Char,
        decodeUtf8 (cs.flatMap String.utf8EncodeChar ++ rest) = cs ++ decodeUtf8 rest := by
    intro cs
    induction cs with
    | nil => rfl
    | cons c cs ih =>
      rw [flatMap_cons, append_assoc, decodeUtf8_char, ih, cons_append]
  have hUtf8 := utf8_ofList s.toList
  rw [String.ofList_toList] at hUtf8
  rw [hUtf8, hChars]

/- The characters of a string, read off its bytes, which the kernel evaluates in linear time. -/
def chars (s : String) : List Char :=
  decodeUtf8 (utf8 s)

@[simp] theorem chars_eq_toList :
    chars s = s.toList := by
  have hDecode := decodeUtf8_append s []
  rw [append_nil] at hDecode
  rw [chars, hDecode]
  exact append_nil _

/- What is left of a text after a text is a text. -/
theorem utf8_of_append {s t : String} {rest : Bytes} (hEq : utf8 s = utf8 t ++ rest) :
    rest = utf8 (String.ofList (decodeUtf8 rest)) := by
  have hChars : s.toList = t.toList ++ decodeUtf8 rest := by
    have hDecode := decodeUtf8_append s []
    rw [append_nil, hEq, decodeUtf8_append] at hDecode
    rw [hDecode]
    exact (append_nil _).symm
  have hText : s = t ++ String.ofList (decodeUtf8 rest) := by
    apply String.toList_injective
    rw [hChars, String.toList_append, String.toList_ofList]
  rw [hText, utf8_append] at hEq
  exact (append_cancel_left hEq).symm

/- The string of some characters, concatenated from short pieces for the kernel's sake. -/
def ofCharsLoop : Nat → List Char → String
| 0, cs => String.ofList cs
| fuel + 1, cs =>
    let half := cs.length / 2
    if half < 8 then String.ofList cs
    else
      ofCharsLoop fuel (cs.take half) ++ ofCharsLoop fuel (cs.drop half)

def ofChars (cs : List Char) : String :=
  ofCharsLoop 16 cs

theorem ofChars_eq_ofList :
    ofChars cs = String.ofList cs := by
  have hLoop : ∀ fuel cs, ofCharsLoop fuel cs = String.ofList cs := by
    intro fuel
    induction fuel with
    | zero =>
      intro cs
      rfl
    | succ fuel ih =>
      intro cs
      unfold ofCharsLoop
      simp only
      split
      · rfl
      · rw [ih, ih, ← String.ofList_append, take_append_drop]
  exact hLoop 16 cs

instance (priority := high) stringDecidableEq :
    DecidableEq String :=
  fun s t =>
    decidable_of_iff (utf8 s = utf8 t) ⟨utf8_injective, congrArg utf8⟩

instance (priority := high) stringOrd : Ord String where
  compare s t := compare (utf8 s) (utf8 t)

instance instTransOrdString : Std.TransOrd String where
  eq_swap := by
    intro s t
    exact Std.OrientedOrd.eq_swap (α := Bytes)
  isLE_trans := by
    intro s t u hFirst hSecond
    exact Std.TransOrd.isLE_trans (α := Bytes) hFirst hSecond

instance instLawfulEqOrdString :
    Std.LawfulEqOrd String where
  compare_self := Std.compare_self (α := Bytes)
  eq_of_compare := by
    intro s t hEq
    exact utf8_injective (Std.LawfulEqOrd.eq_of_compare (α := Bytes) hEq)

/- The eight big-endian bytes of a 64-bit word. -/
def u64Be (n : Nat) : Bytes :=
  [UInt8.ofNat (n / 2 ^ 56), UInt8.ofNat (n / 2 ^ 48),
    UInt8.ofNat (n / 2 ^ 40), UInt8.ofNat (n / 2 ^ 32),
    UInt8.ofNat (n / 2 ^ 24), UInt8.ofNat (n / 2 ^ 16),
    UInt8.ofNat (n / 2 ^ 8), UInt8.ofNat n]

@[simp] theorem length_u64Be (n : Nat) :
    (u64Be n).length = 8 := rfl

theorem ofNat_eq_iff (m n : Nat) :
    UInt8.ofNat m = UInt8.ofNat n ↔ m % 256 = n % 256 := by
  constructor
  · intro h
    have hNat := congrArg UInt8.toNat h
    simpa using hNat
  · intro h
    apply UInt8.toNat_inj.mp
    simpa using h

/- Distinct words have distinct encodings. -/
theorem u64Be_injOn {m n : Nat} (hm : m < 2 ^ 64) (hn : n < 2 ^ 64) (h : u64Be m = u64Be n) :
    m = n := by
  simp only [u64Be, cons.injEq, ofNat_eq_iff, and_true] at h
  omega

/- A field preceded by its own length. -/
def lengthPrefixed (b : Bytes) : Bytes :=
  u64Be b.length ++ b

/- A length-prefixed field can be read off the front of a byte string in one way only. -/
theorem lengthPrefixed_append_inj
    {a b x y : Bytes} (ha : a.length < 2 ^ 64) (hb : b.length < 2 ^ 64)
    (h : lengthPrefixed a ++ x = lengthPrefixed b ++ y) :
    a = b ∧ x = y := by
  unfold lengthPrefixed at h
  rw [append_assoc, append_assoc] at h
  obtain ⟨hLen, hRest⟩ := append_inj h (by simp)
  have hLength : a.length = b.length := u64Be_injOn ha hb hLen
  exact append_inj hRest hLength

--
-- Hexadecimal Text
--

/- The value of one hexadecimal digit, in either case. -/
def hexNibble (b : UInt8) : Option UInt8 :=
  if 48 ≤ b ∧ b ≤ 57 then some (b - 48)
  else if 97 ≤ b ∧ b ≤ 102 then some (b - 97 + 10)
  else if 65 ≤ b ∧ b ≤ 70 then some (b - 65 + 10)
  else none

/- Read pairs of hexadecimal digits as bytes. -/
def hexPairs : Bytes → Option Bytes
| [] => some []
| [_] => none
| hi :: lo :: rest =>
    match hexNibble hi, hexNibble lo with
    | some h, some l => (hexPairs rest).map (fun tail => (h <<< 4 ||| l) :: tail)
    | _, _ => none

/- The lower-case digit of a nibble. -/
def hexDigit (n : UInt8) : Char :=
  if n < 10 then Char.ofNat (48 + n.toNat)
  else Char.ofNat (87 + n.toNat)

/- The two digits of one byte. -/
def hexByte (b : UInt8) : List Char :=
  [hexDigit (b >>> 4), hexDigit (b &&& 15)]

/- Lower-case hexadecimal text of a byte string. -/
def hexEncode (b : Bytes) : String :=
  String.ofList (b.flatMap hexByte)

/- Every byte is read back from its two digits. -/
theorem hexByte_spec :
    ∀ i : Fin 256,
      ∃ hi lo h l : UInt8,
        (hexByte (UInt8.ofNat i)).flatMap String.utf8EncodeChar = [hi, lo] ∧
          hexNibble hi = some h ∧ hexNibble lo = some l ∧
          h <<< 4 ||| l = UInt8.ofNat i := by
  intro i
  let d := (hexByte (UInt8.ofNat i)).flatMap String.utf8EncodeChar
  refine ⟨d[0]!, d[1]!, (hexNibble d[0]!).getD 0, (hexNibble d[1]!).getD 0, ?_⟩
  revert i
  decide +kernel

theorem length_hexPairs {d b : Bytes} (h : hexPairs d = some b) :
    2 * b.length = d.length := by
  induction d using hexPairs.induct generalizing b with
  | case1 =>
    cases h
    rfl
  | case2 x => cases h
  | case3 hi lo rest x y hHi hLo ih =>
    simp only [hexPairs, hHi, hLo, Option.map_eq_some_iff] at h
    obtain ⟨tail, hTail, rfl⟩ := h
    have := ih hTail
    simp only [length_cons]
    omega
  | case4 hi lo rest hNone =>
    unfold hexPairs at h
    split at h
    · next x y hHi hLo =>
        exact (hNone x y hHi hLo).elim
    · cases h

/- Hexadecimal text decodes to the bytes it was made of. -/
theorem hexPairs_utf8_hexEncode (b : Bytes) :
    hexPairs (utf8 (hexEncode b)) = some b := by
  unfold hexEncode
  rw [utf8_ofList]
  induction b with
  | nil => rfl
  | cons x xs ih =>
    obtain ⟨hi, lo, h, l, hDigits, hHi, hLo, hByte⟩ := hexByte_spec ⟨x.toNat, x.toNat_lt⟩
    simp only [UInt8.ofNat_toNat] at hDigits hByte
    rw [flatMap_cons, flatMap_append, hDigits]
    simp [hexPairs, hHi, hLo, ih, hByte]

@[simp] theorem utf8ByteSize_hexEncode (b : Bytes) :
    (hexEncode b).utf8ByteSize = 2 * b.length := by
  rw [← length_utf8]
  exact (length_hexPairs (hexPairs_utf8_hexEncode b)).symm
