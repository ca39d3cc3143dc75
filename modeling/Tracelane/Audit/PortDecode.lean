import Tracelane.Audit.Ports

/-
  What the ports' decoders make of a text, next to the Rust decoders.

  Where the Rust decoders read a text, so do the others, with the same bytes.  The TypeScript ones
  read hashes of other lengths as well, and the Python ones pass over white space.
-/

namespace Tracelane.Verifier

open List Option

--
-- Digits
--

theorem hexNibble_byte :
    ∀ i : Fin 256,
      (hexNibble (UInt8.ofNat i)).isSome = true →
        pySpace (UInt8.ofNat i) = false ∧ UInt8.ofNat i < 128 := by
  decide +kernel

/- A digit is neither white space nor outside ASCII. -/
theorem hexNibble_plain {b n : UInt8} (hDigit : hexNibble b = some n) :
    pySpace b = false ∧ b < 128 := by
  have hByte := hexNibble_byte ⟨b.toNat, b.toNat_lt⟩
  simp only [UInt8.ofNat_toNat, hDigit, isSome_some, true_implies] at hByte
  exact hByte

variable {b : Bytes} {d : Bytes}

theorem pyFromHex_of_hexPairs (hPairs : hexPairs d = some b) :
    pyFromHex d = some b ∧ ∀ x ∈ d, pySpace x = false ∧ x < 128 := by
  induction d using hexPairs.induct generalizing b with
  | case1 => exact ⟨hPairs, forall_mem_nil _⟩
  | case2 x => cases hPairs
  | case3 hi lo rest h l hLo hHi ih =>
    simp only [hexPairs, hHi, hLo, map_eq_some_iff] at hPairs
    rcases hPairs with ⟨tail, hTail, rfl⟩
    have hPlain := hexNibble_plain hHi
    rcases ih hTail with ⟨hRead, hRest⟩
    simp only [forall_mem_cons]
    exact ⟨by simp [pyFromHex, hPlain.1, hHi, hLo, hRead], hPlain, hexNibble_plain hLo, hRest⟩
  | case4 hi lo rest hNone =>
    unfold hexPairs at hPairs
    split at hPairs
    · rename_i h l hHi hLo
      exact absurd hLo (hNone h l hHi)
    · cases hPairs

theorem hexPairs_of_pyFromHex (hRead : pyFromHex d = some b) (hFree : ∀ x ∈ d, pySpace x = false) :
    hexPairs d = some b := by
  induction d using pyFromHex.induct generalizing b with
  | case1 => exact hRead
  | case2 x hSpace =>
    rw [hFree x (by simp)] at hSpace
    cases hSpace
  | case3 x hSpace => simp [pyFromHex, hSpace] at hRead
  | case4 hi lo rest hSpace ih =>
    rw [hFree hi (by simp)] at hSpace
    cases hSpace
  | case5 hi lo rest hSpace h l hHi hLo ih =>
    simp only [pyFromHex, hSpace, Bool.false_eq_true, if_false, hHi, hLo, map_eq_some_iff] at hRead
    rcases hRead with ⟨tail, hTail, rfl⟩
    have hRest :=
      ih hTail (fun x hMem => hFree x (by simp [hMem]))
    simp [hexPairs, hHi, hLo, hRest]
  | case6 hi lo rest hSpace hNone =>
    unfold pyFromHex at hRead
    simp only [hSpace, Bool.false_eq_true, if_false] at hRead
    cases hRead

--
-- Texts
--

/- A text without ASCII white space. -/
def spaceFree (s : String) : Bool :=
  (utf8 s).all (fun b => !pySpace b)

/- Outside ASCII a character has a byte past 127. -/
theorem utf8EncodeChar_ascii {c : Char} (hAscii : ∀ x ∈ String.utf8EncodeChar c, x < 128) :
    (String.utf8EncodeChar c).length = 1 ∧ c.toNat < 128 := by
  have hVal : c.toNat = c.val.toNat := rfl
  unfold String.utf8EncodeChar at hAscii ⊢
  simp only at hAscii ⊢
  split at hAscii
  · rename_i hSmall
    rw [if_pos hSmall]
    exact ⟨rfl, by omega⟩
  · have hLast : ¬ UInt8.ofNat (c.val.toNat % 64 + 128) < 128 := by
      rw [UInt8.lt_iff_toNat_lt, UInt8.toNat_ofNat']
      simp only [UInt8.reduceToNat]
      omega
    split at hAscii
    · exact absurd (hAscii _ (by simp)) hLast
    · split at hAscii
      · exact absurd (hAscii _ (by simp)) hLast
      · exact absurd (hAscii _ (by simp)) hLast

/- An ASCII text is as long in every unit. -/
theorem length_of_ascii {cs : List Char} (hAscii : ∀ x ∈ utf8 (String.ofList cs), x < 128) :
    cs.length = (utf8 (String.ofList cs)).length ∧ utf16Length cs = cs.length := by
  rw [utf8_ofList] at hAscii ⊢
  unfold utf16Length
  induction cs with
  | nil => exact ⟨rfl, rfl⟩
  | cons c cs ih =>
    simp only [flatMap_cons, mem_append] at hAscii
    rcases utf8EncodeChar_ascii (fun x hMem => hAscii x (.inl hMem)) with ⟨hOne, hSmall⟩
    rcases ih (fun x hMem => hAscii x (.inr hMem)) with ⟨hBytes, hUnits⟩
    simp only [flatMap_cons, length_append, length_cons, map_cons, sum_cons]
    rw [if_pos (by omega), hUnits]
    omega

/- Hyphens are no white space. -/
theorem spaceFree_cleanedId (s : String) :
    spaceFree (String.ofList (cleanedId s)) = spaceFree s := by
  have hBytes : utf8 s = (s.toList).flatMap String.utf8EncodeChar := by
    rw [← utf8_ofList, String.ofList_toList]
  unfold spaceFree cleanedId
  rw [utf8_ofList, hBytes, chars_eq_toList]
  induction s.toList with
  | nil => rfl
  | cons c cs ih =>
    by_cases hHyphen : c = '-'
    · rw [hHyphen, filter_cons_of_neg (by simp), ih, flatMap_cons, all_append]
      rfl
    · rw [filter_cons_of_pos (by simpa using hHyphen),
        flatMap_cons, flatMap_cons, all_append, all_append, ih]

--
-- Decoders
--

/- Reading an array is reading as many bytes. -/
theorem arrayOfHex_eq_some_iff {n : Nat} {a : ByteArr n} :
    (hexPairs d).bind (ByteArr.ofBytes? n) = some a ↔ hexPairs d = some a.bytes := by
  rw [bind_eq_some_iff]
  constructor
  · rintro ⟨b, hPairs, hArr⟩
    rw [hPairs, ByteArr.ofBytes?_eq_some_iff.mp hArr]
  · intro hPairs
    exact ⟨a.bytes, hPairs, ByteArr.ofBytes?_eq_some_iff.mpr rfl⟩

variable {s : String}

theorem hexDecode32_eq_ok_iff {h : Hash} :
    hexDecode32 s = .ok h ↔ hexPairs (utf8 s) = some h.bytes := by
  rw [← arrayOfHex_eq_some_iff]
  unfold hexDecode32
  split_ifs with hSize
  · constructor
    · intro hOk
      cases hOk
    · intro hRead
      have hTwice := length_hexPairs (arrayOfHex_eq_some_iff.mp hRead)
      rw [h.length_bytes, length_utf8] at hTwice
      omega
  · cases (hexPairs (utf8 s)).bind (ByteArr.ofBytes? 32) with
    | none => simp
    | some h' => simp

theorem uuidStrToBytes_eq_ok_iff {id : ByteArr 16} :
    uuidStrToBytes s = .ok id ↔ hexPairs (utf8 (String.ofList (cleanedId s))) = some id.bytes := by
  rw [← arrayOfHex_eq_some_iff]
  unfold uuidStrToBytes cleanedId
  simp only
  split_ifs with hSize
  · constructor
    · intro hOk
      cases hOk
    · intro hRead
      have hTwice := length_hexPairs (arrayOfHex_eq_some_iff.mp hRead)
      rw [id.length_bytes, length_utf8] at hTwice
      omega
  · cases (hexPairs (utf8 (String.ofList
        ((chars s).filter (· ≠ '-'))))).bind (ByteArr.ofBytes? 16) with
    | none => simp
    | some id' => simp

/-
  The decoders of a port, on the texts that are `plain`, read what the Rust ones read.  Only a
  `sound` text roots a window at a hash.
-/
structure Reads (P : Port) (plain sound : String → Bool) : Prop where
  empty : plain "" = true
  hash : ∀ s h, hexDecode32 s = .ok h ↔ plain s = true ∧ P.hexBytes s = some h.bytes
  uuid : ∀ s id, uuidStrToBytes s = .ok id ↔ plain s = true ∧ P.uuidBytes s = .ok id.bytes
  uuidLength : ∀ s b, plain s = true → P.uuidBytes s = .ok b → b.length = 16
  seed : ∀ s h, hexDecode32 s = .ok h → sound s = true ∧ P.windowSeed s = h.bytes
  seedLength :
    ∀ s, P.hexBytes s = some (P.windowSeed s) → sound s = true → (P.windowSeed s).length = 32

theorem python_hexBytes_iff :
    hexPairs (utf8 s) = some b ↔ spaceFree s = true ∧ pyFromHex (utf8 s) = some b := by
  simp only [spaceFree, List.all_eq_true, Bool.not_eq_true']
  constructor
  · intro hPairs
    rcases pyFromHex_of_hexPairs hPairs with ⟨hRead, hPlain⟩
    exact ⟨fun x hMem => (hPlain x hMem).1, hRead⟩
  · rintro ⟨hFree, hRead⟩
    exact hexPairs_of_pyFromHex hRead hFree

/- A text of digits has as many characters as bytes. -/
theorem length_of_hexPairs {cs : List Char} (hPairs : hexPairs (utf8 (String.ofList cs)) = some b) :
    cs.length = 2 * b.length ∧ utf16Length cs = cs.length := by
  have hAscii := length_of_ascii (fun x hMem => ((pyFromHex_of_hexPairs hPairs).2 x hMem).2)
  rw [length_hexPairs hPairs]
  exact hAscii

theorem pyUuidBytes_eq_ok_iff {L : PyLib} :
    pyUuidBytes L s = .ok b ↔
      (cleanedId s).length = 32 ∧ pyFromHex (utf8 (String.ofList (cleanedId s))) = some b := by
  unfold pyUuidBytes
  simp only
  split_ifs with hLen
  · simp [hLen]
  · rw [Decidable.not_not] at hLen
    cases pyFromHex (utf8 (String.ofList (cleanedId s))) with
    | none => simp
    | some id => simp [hLen]

theorem tsUuidBytes_eq_ok_iff {L : TsLib} :
    tsUuidBytes L s = .ok b ↔
      utf16Length (cleanedId s) = 32 ∧ hexPairs (utf8 (String.ofList (cleanedId s))) = some b := by
  unfold tsUuidBytes hexToBytes
  simp only
  split_ifs with hLen
  · simp [hLen]
  · rw [Decidable.not_not] at hLen
    cases hexPairs (utf8 (String.ofList (cleanedId s))) with
    | none => simp
    | some id => simp [hLen]

theorem length_pyWindowSeed (s : String) :
    (pyWindowSeed s).length = 32 := by
  unfold pyWindowSeed
  split
  · split
    · simp
    · rename_i hLen
      rw [Decidable.not_not] at hLen
      exact hLen
  · simp

theorem python_reads (L : PyLib) :
    Reads (python L) spaceFree (fun _ => true) where
  empty := rfl
  hash s h := by
    rw [hexDecode32_eq_ok_iff]
    exact python_hexBytes_iff
  uuid s id := by
    rw [uuidStrToBytes_eq_ok_iff, python_hexBytes_iff, spaceFree_cleanedId]
    refine and_congr_right (fun hFree => ?_)
    refine Iff.trans ?_ pyUuidBytes_eq_ok_iff.symm
    refine (and_iff_right_of_imp (fun hRead => ?_)).symm
    rw [← spaceFree_cleanedId] at hFree
    rw [(length_of_hexPairs (python_hexBytes_iff.mpr ⟨hFree, hRead⟩)).1, id.length_bytes]
  uuidLength s b hFree hRead := by
    rcases pyUuidBytes_eq_ok_iff.mp hRead with ⟨hLen, hBytes⟩
    rw [← spaceFree_cleanedId] at hFree
    have hTwice := (length_of_hexPairs (python_hexBytes_iff.mpr ⟨hFree, hBytes⟩)).1
    omega
  seed s h hOk := by
    refine ⟨rfl, ?_⟩
    have hRead := (python_hexBytes_iff.mp (hexDecode32_eq_ok_iff.mp hOk)).2
    unfold python pyWindowSeed
    simp [hRead]
  seedLength s _ _ := length_pyWindowSeed s

theorem typescript_reads (L : TsLib) :
    Reads (typescript L) (fun _ => true)
      (fun s => s.utf8ByteSize = 64) where
  empty := rfl
  hash s h := by
    rw [hexDecode32_eq_ok_iff]
    unfold typescript hexToBytes
    simp
  uuid s id := by
    rw [uuidStrToBytes_eq_ok_iff]
    unfold typescript
    simp only [true_and]
    rw [tsUuidBytes_eq_ok_iff]
    refine (and_iff_right_of_imp (fun hRead => ?_)).symm
    rcases length_of_hexPairs hRead with ⟨hTwice, hUnits⟩
    rw [hUnits, hTwice, id.length_bytes]
  uuidLength s b _ hRead := by
    rcases tsUuidBytes_eq_ok_iff.mp hRead with ⟨hLen, hBytes⟩
    rcases length_of_hexPairs hBytes with ⟨hTwice, hUnits⟩
    omega
  seed s h hOk := by
    have hRead := hexDecode32_eq_ok_iff.mp hOk
    have hTwice := length_hexPairs hRead
    rw [h.length_bytes, length_utf8] at hTwice
    refine ⟨by simp [← hTwice], ?_⟩
    unfold typescript tsWindowSeed hexToBytes
    simp [hRead]
  seedLength s hSeed hSound := by
    have hTwice := length_hexPairs hSeed
    rw [length_utf8, of_decide_eq_true hSound] at hTwice
    omega

end Tracelane.Verifier
