import Tracelane.Lib.Bytes
import Mathlib.Data.Set.Basic

/-
  Byte streams that can be taken apart again: codes that end where their value ends, and fields that
  may be left out.

  A stream of optional fields is read field by field.  What may go wrong is the free text that
  follows them: it can look like a field that was left out.
-/

namespace Framing

open List

--
-- Little-Endian Words
--

/- The lowest `k` bytes of a number, the lowest first. -/
def leBytes : Nat → Nat → Bytes
| 0, _ => []
| k + 1, n => UInt8.ofNat n :: leBytes k (n / 256)

@[simp] theorem length_leBytes (k n : Nat) :
    (leBytes k n).length = k := by
  induction k generalizing n with
  | zero => rfl
  | succ k ih => simp [leBytes, ih]

/- Numbers of `k` bytes have distinct bytes. -/
theorem leBytes_injOn {k m n : Nat} (hM : m < 256 ^ k) (hN : n < 256 ^ k)
    (hEq : leBytes k m = leBytes k n) :
    m = n := by
  induction k generalizing m n with
  | zero =>
    rw [Nat.pow_zero] at hM hN
    omega
  | succ k ih =>
    rw [Nat.pow_succ] at hM hN
    simp only [leBytes, cons.injEq] at hEq
    have hLow : m % 256 = n % 256 := by simpa using congrArg UInt8.toNat hEq.1
    have hHigh : m / 256 = n / 256 := ih (by omega) (by omega) hEq.2
    omega

--
-- Codes That End With Their Value
--

section Delimits

variable {α β : Type} {S : Set α} {encode : α → Bytes}

/- Of these values the code can be read off the front of a stream in one way only. -/
def Delimits (S : Set α) (encode : α → Bytes) : Prop :=
  ∀ u ∈ S, ∀ v ∈ S, ∀ x y, encode u ++ x = encode v ++ y → u = v

theorem Delimits.append_inj (hCode : Delimits S encode) {u v : α} {x y : Bytes}
    (hU : u ∈ S) (hV : v ∈ S) (hEq : encode u ++ x = encode v ++ y) :
    u = v ∧ x = y := by
  have hSame := hCode u hU v hV x y hEq
  subst hSame
  exact ⟨rfl, append_cancel_left hEq⟩

theorem Delimits.inj (hCode : Delimits S encode) {u v : α} (hU : u ∈ S)
    (hV : v ∈ S) (hEq : encode u = encode v) :
    u = v :=
  hCode u hU v hV [] [] (by rw [hEq])

/- A code of one length only has to be injective. -/
theorem delimits_of_length {n : Nat} (hLen : ∀ u ∈ S, (encode u).length = n)
    (hInj : Set.InjOn encode S) :
    Delimits S encode := by
  intro u hU v hV x y hEq
  have hSame := append_inj hEq ((hLen u hU).trans (hLen v hV).symm)
  exact hInj hU hV hSame.1

section

variable (hCode : Delimits S encode)
include hCode

theorem Delimits.mono {T : Set α} (hLess : T ⊆ S) :
    Delimits T encode :=
  fun u hU v hV => hCode u (hLess hU) v (hLess hV)

theorem Delimits.tagged (tag : Bytes) :
    Delimits S (fun u => tag ++ encode u) := by
  intro u hU v hV x y hEq
  rw [append_assoc, append_assoc] at hEq
  exact hCode u hU v hV x y (append_cancel_left hEq)

theorem Delimits.comp {T : Set β} {f : β → α} (hMaps : ∀ b ∈ T, f b ∈ S) (hInj : Set.InjOn f T) :
    Delimits T (fun b => encode (f b)) := by
  intro b hB c hC x y hEq
  exact hInj hB hC (hCode _ (hMaps b hB) _ (hMaps c hC) x y hEq)

variable {us vs : List α}

/- Lists of one length, written one value after the other. -/
theorem Delimits.flatMap_append_inj {x y : Bytes} (hUs : ∀ u ∈ us, u ∈ S)
    (hVs : ∀ v ∈ vs, v ∈ S) (hLen : us.length = vs.length)
    (hEq : us.flatMap encode ++ x = vs.flatMap encode ++ y) :
    us = vs ∧ x = y := by
  induction us generalizing vs with
  | nil =>
    cases vs with
    | nil => exact ⟨rfl, hEq⟩
    | cons v vs => cases hLen
  | cons u us ih =>
    cases vs with
    | nil => cases hLen
    | cons v vs =>
      rw [flatMap_cons, flatMap_cons, append_assoc, append_assoc] at hEq
      rcases hCode.append_inj (hUs u (by simp)) (hVs v (by simp)) hEq with ⟨rfl, hRest⟩
      rcases ih (fun w hW => hUs w (by simp [hW]))
        (fun w hW => hVs w (by simp [hW]))
        (Nat.succ.inj hLen) hRest with ⟨rfl, hEnd⟩
      exact ⟨rfl, hEnd⟩

/- Lists of any length, written to the end of the stream. -/
theorem Delimits.flatMap_inj (hSome : ∀ u ∈ S, encode u ≠ []) (hUs : ∀ u ∈ us, u ∈ S)
    (hVs : ∀ v ∈ vs, v ∈ S) (hEq : us.flatMap encode = vs.flatMap encode) :
    us = vs := by
  induction us generalizing vs with
  | nil =>
    cases vs with
    | nil => rfl
    | cons v vs =>
      rw [flatMap_cons, flatMap_nil] at hEq
      exact absurd (append_eq_nil_iff.mp hEq.symm).1 (hSome v (hVs v (by simp)))
  | cons u us ih =>
    cases vs with
    | nil =>
      rw [flatMap_cons, flatMap_nil] at hEq
      exact absurd (append_eq_nil_iff.mp hEq).1 (hSome u (hUs u (by simp)))
    | cons v vs =>
      rw [flatMap_cons, flatMap_cons] at hEq
      rcases hCode.append_inj (hUs u (by simp)) (hVs v (by simp)) hEq with ⟨rfl, hRest⟩
      rw [ih (fun w hW => hUs w (by simp [hW])) (fun w hW => hVs w (by simp [hW])) hRest]

end

/- A list after the number of its values. -/
def counted (k : Nat) (encode : α → Bytes) (us : List α) : Bytes :=
  leBytes k us.length ++ us.flatMap encode

theorem delimits_counted (k : Nat) (hCode : Delimits S encode) :
    Delimits {us | us.length < 256 ^ k ∧ ∀ u ∈ us, u ∈ S} (counted k encode) := by
  intro us hUs vs hVs x y hEq
  unfold counted at hEq
  rw [append_assoc, append_assoc] at hEq
  rcases append_inj hEq (by simp) with ⟨hCount, hRest⟩
  exact (hCode.flatMap_append_inj hUs.2 hVs.2 (leBytes_injOn hUs.1 hVs.1 hCount) hRest).1

/- Two values that may be missing. -/
def either (p q : Option α) : Set α :=
  {u | p = some u ∨ q = some u}

variable {p q : Option α}

theorem Delimits.map_self (hCode : Delimits (either p q) encode) {b c x y : Bytes}
    (hB : p.map encode = some b) (hC : q.map encode = some c) (hEq : b ++ x = c ++ y) :
    b = c := by
  rcases Option.map_eq_some_iff.mp hB with ⟨u, hU, rfl⟩
  rcases Option.map_eq_some_iff.mp hC with ⟨v, hV, rfl⟩
  rw [hCode u (.inl hU) v (.inr hV) x y hEq]

theorem Delimits.map_inj (hCode : Delimits (either p q) encode)
    (hEq : p.map encode = q.map encode) :
    p = q := by
  cases p with
  | none =>
    cases q with
    | none => rfl
    | some v => cases hEq
  | some u =>
    cases q with
    | none => cases hEq
    | some v =>
      have hSame := hCode.inj (.inl rfl) (.inr rfl) (Option.some.inj hEq)
      rw [hSame]

/- A byte string after its length in eight bytes. -/
def framed (b : Bytes) : Bytes :=
  leBytes 8 b.length ++ b

theorem delimits_framed :
    Delimits {b | b.length < 256 ^ 8} framed := by
  intro b hB c hC x y hEq
  unfold framed at hEq
  rw [append_assoc, append_assoc] at hEq
  rcases append_inj hEq (by simp) with ⟨hCount, hRest⟩
  exact (append_inj hRest (leBytes_injOn hB hC hCount)).1

end Delimits

--
-- Optional Fields
--

section Joined

variable {ι : Type}

/- The fields that are there, one after the other. -/
def joined (kinds : List ι) (field : ι → Option Bytes) : Bytes :=
  kinds.flatMap (fun i => (field i).getD [])

/- The stream starts with its first field, if it has one. -/
theorem joined_opens (kinds : List ι) (field : ι → Option Bytes) (tail : Bytes) :
    joined kinds field ++ tail = tail ∨
      ∃ i ∈ kinds, ∃ v x, field i = some v ∧ joined kinds field ++ tail = v ++ x := by
  induction kinds with
  | nil => exact .inl rfl
  | cons i rest ih =>
    have hCons : joined (i :: rest) field = (field i).getD [] ++ joined rest field := rfl
    rw [hCons]
    cases hField : field i with
    | some v =>
      exact .inr ⟨i, by simp, v, joined rest field ++ tail,
        hField, append_assoc _ _ _⟩
    | none =>
      rcases ih with hTail | ⟨j, hJ, v, x, hV, hEq⟩
      · exact .inl hTail
      · exact .inr ⟨j, by simp [hJ], v, x, hV, hEq⟩

variable {Opens : ι → Bytes → Prop} {f g : ι → Option Bytes} {s t : Bytes}

variable {kinds : List ι}

/- A field only one side has must be the other side's tail. -/
theorem opens_tail {i : ι} {u x : Bytes}
    (hApart : ∀ i j b, Opens i b → Opens j b → i = j) (hOther : i ∉ kinds)
    (hU : Opens i (u ++ x)) (hOpens : ∀ j v y, g j = some v → Opens j (v ++ y))
    (hEq : u ++ x = joined kinds g ++ t) :
    u ++ x = t := by
  rcases joined_opens kinds g t with hTail | ⟨j, hJ, v, y, hV, hJoin⟩
  · exact hEq.trans hTail
  · have hSame := hApart i j _ hU (by
      rw [hEq, hJoin]
      exact hOpens j v y hV)
    rw [hSame] at hOther
    exact absurd hJ hOther

/-
  Two streams of the same kinds of fields agree field by field and in their tails, unless a tail
  looks like a field that only the other one has.
-/
theorem joined_append_inj (hNodup : kinds.Nodup) (hApart : ∀ i j b, Opens i b → Opens j b → i = j)
    (hF : ∀ i u x, f i = some u → Opens i (u ++ x)) (hG : ∀ i v x, g i = some v → Opens i (v ++ x))
    (hSelf : ∀ i u v x y, f i = some u → g i = some v → u ++ x = v ++ y → u = v)
    (hS : ∀ i v x, g i = some v → f i = none → v ++ x ≠ s)
    (hT : ∀ i u x, f i = some u → g i = none → u ++ x ≠ t)
    (hEq : joined kinds f ++ s = joined kinds g ++ t) :
    (∀ i ∈ kinds, f i = g i) ∧ s = t := by
  induction kinds with
  | nil =>
    refine ⟨?_, hEq⟩
    intro i hI
    cases hI
  | cons i rest ih =>
    rw [nodup_cons] at hNodup
    have hCons : ∀ h : ι → Option Bytes, joined (i :: rest) h = (h i).getD [] ++ joined rest h :=
      fun _ => rfl
    rw [hCons f, hCons g, append_assoc, append_assoc] at hEq
    have hHead : f i = g i ∧ joined rest f ++ s = joined rest g ++ t := by
      cases hFi : f i with
      | none =>
        cases hGi : g i with
        | none =>
          rw [hFi, hGi] at hEq
          exact ⟨rfl, hEq⟩
        | some v =>
          rw [hFi, hGi] at hEq
          exact absurd (opens_tail hApart hNodup.1 (hG i v _ hGi) hF hEq.symm) (hS i v _ hGi hFi)
      | some u =>
        cases hGi : g i with
        | none =>
          rw [hFi, hGi] at hEq
          exact absurd (opens_tail hApart hNodup.1 (hF i u _ hFi) hG hEq) (hT i u _ hFi hGi)
        | some v =>
          rw [hFi, hGi] at hEq
          have hSame := hSelf i u v _ _ hFi hGi hEq
          subst hSame
          exact ⟨rfl, append_cancel_left hEq⟩
    rcases ih hNodup.2 hHead.2 with ⟨hRest, hTail⟩
    refine ⟨?_, hTail⟩
    intro j hJ
    rcases mem_cons.mp hJ with rfl | hJ
    · exact hHead.1
    · exact hRest j hJ

end Joined

end Framing
