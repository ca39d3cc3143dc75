import Mathlib.Data.Nat.Digits.Lemmas
import Tracelane.Lib.Bytes

/- Numbers written with the most significant digit first, and the integer that a byte string is. -/

namespace Tracelane.BigEndian

open List Nat

def value (base : Nat) (ds : List Nat) : Nat :=
  ofDigits base ds.reverse

theorem value_cons (base d : Nat) (ds : List Nat) :
    value base (d :: ds) = d * base ^ ds.length + value base ds := by
  simp [value, ofDigits_append, Nat.mul_comm, Nat.add_comm]

def ofBytes (num : Bytes) : Nat :=
  value 256 (num.map UInt8.toNat)

theorem ofBytes_cons (byte : UInt8) (num : Bytes) :
    ofBytes (byte :: num) = byte.toNat * 256 ^ num.length + ofBytes num := by
  rw [ofBytes, map_cons, value_cons, length_map]
  rfl

theorem toNat_lt_of_mem (num : Bytes) : ∀ d ∈ (num.map UInt8.toNat).reverse, d < 256 := by
  intro d hMem
  rcases mem_map.mp (mem_reverse.mp hMem) with ⟨byte, _, rfl⟩
  exact byte.toNat_lt

theorem ofBytes_lt (num : Bytes) : ofBytes num < 256 ^ num.length := by
  have hLt := ofDigits_lt_base_pow_length (by decide) (toNat_lt_of_mem num)
  rwa [length_reverse, length_map] at hLt

theorem ofBytes_inj {num num' : Bytes} (hLen : num.length = num'.length)
    (hSame : ofBytes num = ofBytes num') :
    num = num' := by
  have hDigits := ofDigits_inj_of_len_eq (by decide) (by simpa using hLen) (toNat_lt_of_mem num)
    (toNat_lt_of_mem num') hSame
  exact map_injective_iff.mpr (fun _ _ => UInt8.toNat_inj.mp) (reverse_injective hDigits)

end Tracelane.BigEndian
