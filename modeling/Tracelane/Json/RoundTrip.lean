import Mathlib.Data.List.Sort
import Mathlib.Data.String.Basic
import Tracelane.Json.Parse
import Tracelane.Lib.Dict

/-
  The canonical text of a JSON value says all of the value but the order of its keys.

  The reader gives the value back with the keys in order; what a value says is what each path of
  keys and indices leads to.
-/

namespace Tracelane

namespace Json

open List
open Option Value

--
-- Tokens
--

def isWs (c : Char) : Bool :=
  c = ' ' || c = '\t' || c = '\n' || c = '\r'

variable {c : Char}

theorem skipWs_cons (hMark : isWs c = false) (cs : List Char) :
    skipWs (c :: cs) = c :: cs := by
  unfold isWs at hMark
  simp [skipWs, dropWhile, hMark]

theorem unit4_hex4 :
    ∀ n < 0x20, Json.unit4 (Value.hex4 n) = some n := by
  decide

theorem unescape_escapeChar (c : Char) (rest : List Char) :
    unescape (Value.escapeChar c ++ rest) = (unescape rest).map (fun r => (c :: r.1, r.2)) := by
  have hChar : ∀ n, c.toNat = n → c = Char.ofNat n := by
    rintro n rfl
    exact (Char.ofNat_toNat c).symm
  unfold escapeChar
  split_ifs with hQuote hSlash hLf hCr hTab hBs hFf hControl
  · subst hQuote
    simp [unescape, Json.escaped, map_eq_bind]
  · subst hSlash
    simp [unescape, Json.escaped, map_eq_bind]
  · subst hLf
    simp [unescape, Json.escaped, map_eq_bind]
  · subst hCr
    simp [unescape, Json.escaped, map_eq_bind]
  · subst hTab
    simp [unescape, Json.escaped, map_eq_bind]
  · rw [hChar _ hBs]
    simp [unescape, Json.escaped, map_eq_bind]
  · rw [hChar _ hFf]
    simp [unescape, Json.escaped, map_eq_bind]
  · have hUnit := unit4_hex4 c.toNat hControl
    have hPlain : ¬(0xd800 ≤ c.toNat ∧ c.toNat < 0xe000) := by omega
    unfold hex4 at hUnit ⊢
    simp only [cons_append, nil_append]
    rw [unescape, hUnit]
    simp only [bind_eq_bind, Option.bind_some, if_neg hPlain, Char.ofNat_toNat]
    cases unescape rest <;> rfl
  · rw [singleton_append, unescape, if_neg hControl]
    · cases unescape rest <;> rfl
    · exact hQuote
    · simp [hSlash]
    · simp [hSlash]

theorem unescape_quote (s : String) (rest : List Char) :
    unescape (s.toList.flatMap Value.escapeChar ++ '"' :: rest) = some (s.toList, rest) := by
  induction s.toList with
  | nil => rfl
  | cons c cs ih =>
    rw [flatMap_cons, append_assoc, unescape_escapeChar, ih]
    rfl

/- What may follow a number. -/
def Stops (rest : List Char) : Prop :=
  ∀ c ∈ rest.head?, isNumberChar c = false

/- The text of a value, followed by anything, is read as `v`. -/
def Reads (printed : List Char) (v : Value) : Prop :=
  ∀ fuel rest, printed.length < fuel → Stops rest → value fuel (printed ++ rest) = some (v, rest)

theorem reads_string (t : Text) :
    Reads (Value.quote t.str) (.string t) := by
  intro fuel rest hFuel _
  cases fuel with
  | zero => cases hFuel
  | succ fuel =>
    have hText : text (t.str.toList.flatMap escapeChar ++ '"' :: rest) = some (t, rest) := by
      rw [text, unescape_quote, Option.bind_some, text?]
      simpa [ofChars_eq_ofList] using t.fits
    simp [quote, value, skipWs_cons, isWs, hText]

/- No number begins as a blank or another token does. -/
theorem mark_of_isNumberChar (hNumber : isNumberChar c = true) :
    isWs c = false ∧ c ≠ '"' ∧ c ≠ '[' ∧ c ≠ '\x7b' ∧ c ≠ ']' := by
  have hOther : ∀ d ∈ [' ', '\t', '\n', '\r', '"', '[', '\x7b', ']'], c ≠ d := by
    have hNone : ∀ d ∈ [' ', '\t', '\n', '\r', '"', '[', '\x7b', ']'], isNumberChar d = false := by
      simp only [forall_mem_cons, not_mem_nil, false_imp_iff, implies_true, and_true]
      decide
    rintro d hD rfl
    rw [hNone c hD] at hNumber
    cases hNumber
  simp only [forall_mem_cons] at hOther
  simp [isWs, hOther]

theorem reads_number {token : String} (hToken : isNumber token.toList = true) :
    Reads token.toList (.number token) := by
  intro fuel rest hFuel hStops
  cases fuel with
  | zero => cases hFuel
  | succ fuel =>
    have hAll : token.toList.all isNumberChar = true := by
      unfold isNumber at hToken
      simp_all
    have hEnd : rest.takeWhile isNumberChar = [] ∧ rest.dropWhile isNumberChar = rest := by
      cases rest with
      | nil => simp
      | cons c rest => simp [hStops c rfl]
    have hTake : (token.toList ++ rest).takeWhile isNumberChar = token.toList := by
      rw [takeWhile_append_of_pos (all_eq_true.mp hAll), hEnd.1, append_nil]
    have hDrop : (token.toList ++ rest).dropWhile isNumberChar = rest := by
      rw [dropWhile_append_of_pos (all_eq_true.mp hAll), hEnd.2]
    cases hChars : token.toList with
    | nil =>
      rw [hChars] at hToken
      simp [isNumber] at hToken
    | cons c cs =>
      have hC : isNumberChar c = true := by
        simp_all
      have hMark := mark_of_isNumberChar hC
      rw [hChars] at hTake hDrop hToken
      rw [cons_append] at hTake hDrop ⊢
      rw [value, skipWs_cons hMark.1]
      simp only [if_neg hMark.2.1, if_neg hMark.2.2.1, if_neg hMark.2.2.2.1, if_pos hC, number,
        hTake, hDrop, if_pos hToken]
      rw [← hChars, String.ofList_toList]

theorem reads_null : Reads (chars "null") .null := by
  have hChars : chars "null" = ['n', 'u', 'l', 'l'] := by decide
  intro fuel rest hFuel _
  cases fuel with
  | zero => cases hFuel
  | succ fuel =>
    simp only [hChars, cons_append, nil_append]
    rw [value, skipWs_cons (by decide)]
    simp [isNumberChar, literal]

theorem reads_bool (b : Bool) :
    Reads (chars (if b then "true" else "false")) (.bool b) := by
  have hTrue : chars "true" = ['t', 'r', 'u', 'e'] := by decide
  have hFalse : chars "false" = ['f', 'a', 'l', 's', 'e'] := by decide
  intro fuel rest hFuel _
  cases fuel with
  | zero => cases hFuel
  | succ fuel =>
    cases b with
    | true =>
      simp only [if_true, hTrue, cons_append, nil_append]
      rw [value, skipWs_cons (by decide)]
      simp [isNumberChar, literal]
    | false =>
      simp only [Bool.false_eq_true, if_false, hFalse, cons_append, nil_append]
      rw [value, skipWs_cons (by decide)]
      simp [isNumberChar, literal]

--
-- Lists
--

theorem intercalate_cons (x y : List Char) (rest : List (List Char)) :
    [','].intercalate (x :: y :: rest) = x ++ ',' :: [','].intercalate (y :: rest) := by
  simp [intercalate]

theorem stops_cons (hC : isNumberChar c = false) (rest : List Char) :
    Stops (c :: rest) := by
  intro d hD
  cases hD
  exact hC

section Lists

variable {printed : Value → List Char} {image : Value → Value}

/- Items that are read one by one are read in a row. -/
theorem items_read (xs : List Value) (hSome : xs ≠ [])
    (hEach : ∀ x ∈ xs, Reads (printed x) (image x)) (fuel : Nat) (rest : List Char)
    (hFuel : ([','].intercalate (xs.map printed)).length + 1 < fuel) :
    items fuel ([','].intercalate (xs.map printed) ++ ']' :: rest) = some (xs.map image, rest) := by
  induction xs generalizing fuel with
  | nil => exact absurd rfl hSome
  | cons x xs ih =>
    cases fuel with
    | zero => cases hFuel
    | succ fuel =>
      have hX := hEach x mem_cons_self
      cases xs with
      | nil =>
        simp only [map_cons, map_nil, intercalate_singleton] at hFuel ⊢
        rw [items, hX fuel _ (by omega) (stops_cons (by decide) rest)]
        simp [skipWs_cons, isWs]
      | cons y ys =>
        simp only [map_cons, intercalate_cons, length_append, length_cons, append_assoc,
          cons_append] at hFuel ih ⊢
        rw [items, hX fuel _ (by omega) (stops_cons (by decide) _)]
        have hRest := ih (by simp) (fun z hZ => hEach z (mem_cons_of_mem _ hZ)) fuel (by omega)
        simp [skipWs_cons, isWs, hRest]

def printEntry (printed : Value → List Char) (e : String × Value) : List Char :=
  Value.quote e.1 ++ ':' :: printed e.2

/- One name and value, followed by another one or by the end. -/
theorem entries_step {e : String × Value} (hE : Reads (printed e.2) (image e.2))
    (tail : List Char) {fuel : Nat} (hFuel : (printEntry printed e).length ≤ fuel) :
    entries (fuel + 1) (printEntry printed e ++ ',' :: tail) =
        (entries fuel tail).map (fun s =>
          (if (s.1.lookup e.1).isSome then s.1 else (e.1, image e.2) :: s.1, s.2)) ∧
      entries (fuel + 1) (printEntry printed e ++ '\x7d' :: tail) =
        some ([(e.1, image e.2)], tail) := by
  have hText :
      ∀ after, printEntry printed e ++ after =
        '"' :: (e.1.toList.flatMap escapeChar ++ '"' :: ':' :: (printed e.2 ++ after)) := by
    simp [printEntry, quote]
  have hShort : (printed e.2).length < fuel := by
    simp only [printEntry, quote, length_append, length_cons] at hFuel
    omega
  have hValue := fun sep hSep => hE fuel (sep :: tail) hShort (stops_cons hSep tail)
  constructor <;> rw [hText, entries, skipWs_cons (by decide)] <;>
    simp only [unescape_quote, Option.bind_some, String.ofList_toList] <;>
    rw [skipWs_cons (by decide)]
  · simp [hValue ',' (by decide), skipWs_cons, isWs]
  · simp [hValue '\x7d' (by decide), skipWs_cons, isWs]

theorem entries_read (es : List (String × Value)) (hSome : es ≠ [])
    (hNodup : (es.map Prod.fst).Nodup)
    (hEach : ∀ e ∈ es, Reads (printed e.2) (image e.2)) (fuel : Nat) (rest : List Char)
    (hFuel : ([','].intercalate (es.map (printEntry printed))).length < fuel) :
    entries fuel ([','].intercalate (es.map (printEntry printed)) ++ '\x7d' :: rest) =
      some (es.map (fun e => (e.1, image e.2)), rest) := by
  induction es generalizing fuel with
  | nil => exact absurd rfl hSome
  | cons e es ih =>
    cases fuel with
    | zero => cases hFuel
    | succ fuel =>
      have hE := hEach e mem_cons_self
      cases es with
      | nil =>
        simp only [map_cons, map_nil, intercalate_singleton] at hFuel ⊢
        exact (entries_step hE rest (by omega)).2
      | cons f fs =>
        rw [map_cons, nodup_cons] at hNodup
        have hOnce : ((f :: fs).map (fun e => (e.1, image e.2))).lookup e.1 = none := by
          rw [lookup_eq_none_iff]
          intro p hP
          rcases mem_map.mp hP with ⟨g, hG, rfl⟩
          exact bne_iff_ne.mpr (fun hEq => hNodup.1 (mem_map.mpr ⟨g, hG, hEq.symm⟩))
        have hRest := ih (by simp) hNodup.2 (fun z hZ => hEach z (mem_cons_of_mem _ hZ)) fuel
        simp only [map_cons, intercalate_cons, append_assoc, cons_append, length_append,
          length_cons] at hFuel hRest hOnce ⊢
        rw [(entries_step hE _ (by omega)).1]
        simp only [hRest (by omega), Option.map_some, hOnce, isSome_none, Bool.false_eq_true,
          if_false]

end Lists

end Json

--
-- What a Value Says
--

namespace Value

open List Json

/- Induction over the values a value is made of. -/
theorem induction {P : Value → Prop} (hNull : P .null)
    (hBool : ∀ b, P (.bool b)) (hNumber : ∀ token, P (.number token)) (hString : ∀ t, P (.string t))
    (hArray : ∀ items, (∀ x ∈ items, P x) → P (.array items))
    (hObject : ∀ entries, (∀ e ∈ entries, P e.2) → P (.object entries)) (v : Value) :
    P v := by
  induction hSize : sizeOf v using Nat.strong_induction_on generalizing v with
  | h n ih =>
    subst hSize
    cases v with
    | null => exact hNull
    | bool b => exact hBool b
    | number token => exact hNumber token
    | string t => exact hString t
    | array items =>
      apply hArray
      intro x hX
      have hLt := sizeOf_lt_of_mem hX
      exact ih _ (by simp; omega) x rfl
    | object entries =>
      apply hObject
      intro e hE
      have hLt := sizeOf_lt_of_mem hE
      have hSnd : sizeOf e.2 < sizeOf e := by
        rcases e with ⟨k, v⟩
        simp
      exact ih _ (by simp; omega) e.2 rfl

mutual

/- Every number is written as a number, and no object has a key twice. -/
def ok : Value → Bool
| .number token => isNumber token.toList
| .array items => okItems items
| .object entries =>
    decide (entries.map Prod.fst).Nodup && okEntries entries
| _ => true

def okItems : List Value → Bool
| [] => true
| item :: items => ok item && okItems items

def okEntries : List (String × Value) → Bool
| [] => true
| (_, v) :: entries => ok v && okEntries entries

end

variable (items : List Value)

theorem okItems_eq :
    okItems items = items.all ok := by
  induction items with
  | nil => rfl
  | cons item items ih => rw [okItems, ih, all_cons]

theorem okEntries_eq (entries : List (String × Value)) :
    okEntries entries = entries.all (fun e => ok e.2) := by
  induction entries with
  | nil => rfl
  | cons e entries ih => rw [all_cons, ← ih, okEntries]

theorem ok_item {items : List Value} (hOk : ok (.array items) = true) {x : Value} (hX : x ∈ items) :
    ok x = true := by
  rw [ok, okItems_eq, all_eq_true] at hOk
  exact hOk x hX

variable {entries : List (String × Value)}

theorem ok_entries (hOk : ok (.object entries) = true) :
    (entries.map Prod.fst).Nodup ∧ ∀ e ∈ entries, ok e.2 = true := by
  rw [ok, okEntries_eq, Bool.and_eq_true, decide_eq_true_eq, all_eq_true] at hOk
  exact hOk

theorem canonItems_eq :
    canonItems items = items.map canonChars := by
  induction items with
  | nil => rfl
  | cons item items ih => rw [canonItems, ih, map_cons]

theorem canonEntries_eq (entries : List (String × Value)) :
    canonEntries entries = entries.map (fun e => (e.1, canonChars e.2)) := by
  induction entries with
  | nil => rfl
  | cons e entries ih => rw [map_cons, ← ih, canonEntries]

/- The entries in the order of their keys. -/
def byKey (entries : List (String × Value)) :
    List (String × Value) :=
  entries.insertionSort (fun a b => a.1 ≤ b.1)

theorem mem_byKey {e : String × Value} :
    e ∈ byKey entries ↔ e ∈ entries :=
  (perm_insertionSort _ entries).mem_iff

theorem canonChars_object (entries : List (String × Value)) :
    canonChars (.object entries) =
      '\x7b' :: ([','].intercalate ((byKey entries).map (printEntry canonChars)) ++ ['\x7d']) := by
  rw [canonChars, canonEntries_eq, byKey, ← map_insertionSort (fun a b => a.1 ≤ b.1) KeyLe
      (fun e : String × Value => (e.1, canonChars e.2)) entries (fun _ _ _ _ => Iff.rfl), map_map]
  rfl

mutual

/- The value with the keys of every object in order. -/
def inOrder : Value → Value
| .array items => .array (inOrderItems items)
| .object entries => .object (byKey (inOrderEntries entries))
| v => v

def inOrderItems : List Value → List Value
| [] => []
| item :: items => inOrder item :: inOrderItems items

def inOrderEntries :
    List (String × Value) → List (String × Value)
| [] => []
| (key, v) :: entries =>
    (key, inOrder v) :: inOrderEntries entries

end

theorem inOrderItems_eq :
    inOrderItems items = items.map inOrder := by
  induction items with
  | nil => rfl
  | cons item items ih => rw [inOrderItems, ih, map_cons]

theorem inOrderEntries_eq (entries : List (String × Value)) :
    inOrderEntries entries = entries.map (fun e => (e.1, inOrder e.2)) := by
  induction entries with
  | nil => rfl
  | cons e entries ih =>
    rw [map_cons, ← ih, inOrderEntries]

theorem inOrder_object (entries : List (String × Value)) :
    inOrder (.object entries) = .object ((byKey entries).map (fun e => (e.1, inOrder e.2))) := by
  rw [inOrder, inOrderEntries_eq, byKey, byKey, ← map_insertionSort (fun a b => a.1 ≤ b.1)
      (fun a b => a.1 ≤ b.1) (fun e : String × Value => (e.1, inOrder e.2)) entries
      (fun _ _ _ _ => Iff.rfl)]

--
-- Reading the Text Back
--

variable {v : Value}

theorem canonChars_head (hOk : ok v = true) :
    ∃ c cs, canonChars v = c :: cs ∧ isWs c = false ∧ c ≠ ']' := by
  cases v with
  | null => exact ⟨'n', ['u', 'l', 'l'], by decide⟩
  | bool b =>
    cases b with
    | true => exact ⟨'t', ['r', 'u', 'e'], by decide⟩
    | false => exact ⟨'f', ['a', 'l', 's', 'e'], by decide⟩
  | number token =>
    rw [ok] at hOk
    cases hChars : token.toList with
    | nil =>
      rw [hChars] at hOk
      simp [isNumber] at hOk
    | cons c cs =>
      have hC : isNumberChar c = true := by
        rw [hChars] at hOk
        unfold isNumber at hOk
        simp_all
      rcases mark_of_isNumberChar hC with ⟨hWs, _, _, _, hClose⟩
      exact ⟨c, cs, by simp [canonChars, hChars], hWs,
        hClose⟩
  | string t => exact ⟨'"', _, rfl, by decide, by decide⟩
  | array items => exact ⟨'[', _, rfl, by decide, by decide⟩
  | object entries =>
    exact ⟨'\x7b', _, canonChars_object entries, by decide,
      by decide⟩

theorem reads_canonChars (v : Value) (hOk : ok v = true) :
    Reads (canonChars v) (inOrder v) := by
  induction v using induction with
  | hNull => exact reads_null
  | hBool b => exact reads_bool b
  | hNumber token =>
    rw [canonChars, chars_eq_toList]
    exact reads_number hOk
  | hString t => exact reads_string t
  | hArray items ih =>
    intro fuel rest hFuel _
    rw [canonChars, canonItems_eq] at hFuel ⊢
    rw [inOrder, inOrderItems_eq]
    cases fuel with
    | zero => cases hFuel
    | succ fuel =>
      rw [cons_append, cons_append, append_assoc, singleton_append, value, skipWs_cons (by decide)]
      cases items with
      | nil => simp [skipWs_cons, isWs]
      | cons x xs =>
        rcases canonChars_head (ok_item hOk mem_cons_self) with ⟨c, cs, hText, hWs, hClose⟩
        have hOpen :
            ∀ tail, (Json.skipWs ([','].intercalate
              ((x :: xs).map canonChars) ++ tail)).head? ≠ some ']' := by
          intro tail
          cases xs <;> simp [hText, skipWs_cons hWs, hClose]
        have hItems := items_read (x :: xs) (by simp)
          (fun y hY => ih y hY (ok_item hOk hY)) fuel rest
          (by
            simp only [length_append, length_cons] at hFuel
            omega)
        simp only [if_neg (hOpen _), hItems, Option.map_some]
        rfl
  | hObject entries ih =>
    intro fuel rest hFuel _
    rw [canonChars_object] at hFuel ⊢
    rw [inOrder_object]
    cases fuel with
    | zero => cases hFuel
    | succ fuel =>
      rw [cons_append, append_assoc, singleton_append, value, skipWs_cons (by decide)]
      cases hEntries : byKey entries with
      | nil => simp [skipWs_cons, isWs]
      | cons e es =>
        have hOpen :
            ∀ tail, (Json.skipWs ([','].intercalate
              ((e :: es).map (printEntry canonChars)) ++ tail)).head? ≠ some '\x7d' := by
          intro tail
          cases es <;> simp [printEntry, quote, skipWs_cons, isWs]
        have hMembers := entries_read (e :: es) (by simp)
          (hEntries ▸ ((perm_insertionSort _ entries).map Prod.fst).nodup_iff.mpr
            (ok_entries hOk).1)
          (fun f hF => ih f (mem_byKey.mp (hEntries ▸ hF))
            ((ok_entries hOk).2 f (mem_byKey.mp (hEntries ▸ hF)))) fuel rest
          (by
            rw [hEntries] at hFuel
            simp only [length_append, length_cons] at hFuel
            omega)
        simp only [if_neg (hOpen _), hMembers, Option.map_some]
        rfl

/- The canonical text is read back, with the keys in order. -/
theorem parse_canonical (hOk : ok v = true) :
    Json.parse (chars v.canonical) = some (inOrder v) := by
  have hReads := reads_canonChars v hOk ((canonChars v).length + 1) [] (Nat.lt_succ_self _)
    (by simp [Stops])
  rw [append_nil] at hReads
  rw [Json.parse, canonical, chars_eq_toList, String.toList_ofList, hReads, Option.bind_some,
    if_pos (by rfl)]

--
-- Up to the Order of Keys
--

inductive Step where
| key (name : String)
| index (i : Nat)

/- What a value is, leaving its parts aside. -/
inductive Kind where
| null
| bool (b : Bool)
| number (token : String)
| string (t : Text)
| array
| object

def kind : Value → Kind
| .null => .null
| .bool b => .bool b
| .number token => .number token
| .string t => .string t
| .array _ => .array
| .object _ => .object

/- What a path of keys and indices leads to. -/
def leadsTo : Value → List Step → Option Kind
| v, [] => some v.kind
| .object entries, .key name :: path =>
    (entries.lookup name).bind (fun v => leadsTo v path)
| .array items, .index i :: path =>
    items[i]?.bind (fun v => leadsTo v path)
| _, _ :: _ => none

/- Two values equal up to the order of their keys. -/
def Same (v w : Value) : Prop :=
  ∀ path, leadsTo v path = leadsTo w path

/- In an object without a key twice, a lookup is membership. -/
theorem lookup_iff {α : Type} {entries : List (String × α)}
    (hNodup : (entries.map Prod.fst).Nodup) {name : String} {v : α} :
    entries.lookup name = some v ↔ (name, v) ∈ entries :=
  ((⟨entries, hNodup⟩ : Dict String α).mem_entries_iff).symm

theorem mem_map_iff {α β : Type} {entries : List (String × α)}
    (hNodup : (entries.map Prod.fst).Nodup) (f : α → β) {name : String} {b : β} :
    (name, b) ∈ entries.map (fun e => (e.1, f e.2)) ↔ (entries.lookup name).map f = some b := by
  rw [Option.map_eq_some_iff]
  simp only [lookup_iff hNodup, mem_map, Prod.mk.injEq]
  constructor
  · rintro ⟨e, hE, rfl, rfl⟩
    exact ⟨e.2, hE, rfl⟩
  · rintro ⟨v, hV, rfl⟩
    exact ⟨(name, v), hV, rfl, rfl⟩

theorem lookup_inOrder (hNodup : (entries.map Prod.fst).Nodup) (name : String) :
    ((byKey entries).map (fun e => (e.1, inOrder e.2))).lookup name =
      (entries.lookup name).map inOrder := by
  have hNodup' : (((byKey entries).map (fun e => (e.1, inOrder e.2))).map Prod.fst).Nodup := by
    rw [map_map]
    exact ((perm_insertionSort _ entries).map Prod.fst).nodup_iff.mpr hNodup
  apply Option.ext
  intro w
  rw [lookup_iff hNodup', byKey, ((perm_insertionSort _ entries).map _).mem_iff, mem_map_iff hNodup]

/- Putting the keys in order changes no more than the order. -/
theorem same_inOrder (hOk : ok v = true) :
    Same v (inOrder v) := by
  intro path
  induction path generalizing v with
  | nil => cases v <;> simp [leadsTo, inOrder, kind]
  | cons step path ih =>
    cases v with
    | array items =>
      rw [inOrder, inOrderItems_eq]
      cases step with
      | key name => simp [leadsTo]
      | index i =>
        simp only [leadsTo, getElem?_map]
        cases hAt : items[i]? with
        | none => rfl
        | some x =>
          exact ih (ok_item hOk (mem_of_getElem? hAt))
    | object entries =>
      rcases ok_entries hOk with ⟨hNodup, hEach⟩
      rw [inOrder_object]
      cases step with
      | index i => simp [leadsTo]
      | key name =>
        simp only [leadsTo, lookup_inOrder hNodup]
        cases hAt : entries.lookup name with
        | none => rfl
        | some x =>
          exact ih (hEach _ ((lookup_iff hNodup).mp hAt))
    | null | bool _ | number _ | string _ => simp [leadsTo, inOrder]

/- Same entries, same text: the sort takes their order away. -/
theorem sorted_eq (es fs : List (String × List Char))
    (hEs : (es.map Prod.fst).Nodup) (hFs : (fs.map Prod.fst).Nodup) (hMem : ∀ e, e ∈ es ↔ e ∈ fs) :
    es.insertionSort KeyLe = fs.insertionSort KeyLe := by
  have hPerm : es.Perm fs :=
    (perm_ext_iff_of_nodup (Nodup.of_map _ hEs) (Nodup.of_map _ hFs)).mpr hMem
  have hSorted : ∀ gs : List (String × List Char), (gs.insertionSort KeyLe).Pairwise KeyLe := by
    intro gs
    have : Std.Total KeyLe := ⟨fun a b => String.le_total a.1 b.1⟩
    have : IsTrans (String × List Char) KeyLe := ⟨fun _ _ _ => String.le_trans⟩
    exact pairwise_insertionSort KeyLe gs
  refine Perm.eq_of_pairwise ?_ (hSorted es) (hSorted fs)
    (((perm_insertionSort _ es).trans hPerm).trans (perm_insertionSort _ fs).symm)
  rintro ⟨k, s⟩ ⟨l, t⟩ hE hF hLe hGe
  have hKey : k = l := String.le_antisymm hLe hGe
  subst hKey
  rw [(perm_insertionSort _ es).mem_iff] at hE
  rw [(perm_insertionSort _ fs).mem_iff, ← hMem] at hF
  rw [← lookup_iff hEs] at hE hF
  rw [hE] at hF
  cases hF
  rfl

theorem ok_inOrder (hOk : ok v = true) :
    ok (inOrder v) = true := by
  induction v using induction with
  | hNull => rfl
  | hBool b => rfl
  | hNumber token => exact hOk
  | hString t => rfl
  | hArray items ih =>
    rw [inOrder, inOrderItems_eq, ok, okItems_eq, all_map, all_eq_true]
    intro x hX
    exact ih x hX (ok_item hOk hX)
  | hObject entries ih =>
    rcases ok_entries hOk with ⟨hNodup, hEach⟩
    rw [inOrder_object, ok, okEntries_eq, map_map, Bool.and_eq_true, decide_eq_true_eq, all_map,
      all_eq_true]
    refine ⟨((perm_insertionSort _ entries).map Prod.fst).nodup_iff.mpr hNodup, ?_⟩
    intro e hE
    have hMem := mem_byKey.mp hE
    exact ih e hMem (hEach e hMem)

/- Parts that lead to the same everywhere are the same. -/
theorem same_parts {a b : Option Value}
    (hAt : ∀ path, a.bind (fun v => leadsTo v path) = b.bind (fun v => leadsTo v path)) :
    Option.Rel Same a b := by
  have hHere := hAt []
  cases a with
  | none =>
    cases b with
    | none => exact .none
    | some y => simp [leadsTo] at hHere
  | some x =>
    cases b with
    | none => simp [leadsTo] at hHere
    | some y => exact .some hAt

theorem map_canonChars_eq {a b : Option Value} (hRel : Option.Rel Same a b)
    (hEach : ∀ x y, a = some x → b = some y → Same x y → canonChars x = canonChars y) :
    a.map canonChars = b.map canonChars := by
  cases hRel with
  | none => rfl
  | some hSame =>
    exact congrArg some (hEach _ _ rfl rfl hSame)

theorem canonChars_of_same {v w : Value} (hV : ok v = true) (hW : ok w = true) (hSame : Same v w) :
    canonChars v = canonChars w := by
  have hKind := hSame []
  simp only [leadsTo, Option.some.injEq] at hKind
  induction v using induction generalizing w with
  | hNull | hBool _ | hNumber _ | hString _ => cases w <;> simp_all [kind]
  | hArray xs ih =>
    cases w with
    | array ys =>
      have hItems : xs.map canonChars = ys.map canonChars := by
        apply ext_getElem?
        intro i
        rw [getElem?_map, getElem?_map]
        apply map_canonChars_eq (same_parts (fun path => hSame (.index i :: path)))
        intro x y hX hY hXY
        have hInX := mem_of_getElem? hX
        exact ih x hInX (ok_item hV hInX) (ok_item hW (mem_of_getElem? hY)) hXY
          (Option.some.inj (hXY []))
      rw [canonChars, canonChars, canonItems_eq, canonItems_eq, hItems]
    | _ => simp [kind] at hKind
  | hObject es ih =>
    cases w with
    | object fs =>
      rcases ok_entries hV with ⟨hEs, hEsOk⟩
      rcases ok_entries hW with ⟨hFs, hFsOk⟩
      have hLookup : ∀ name, (es.lookup name).map canonChars = (fs.lookup name).map canonChars := by
        intro name
        apply map_canonChars_eq (same_parts (fun path => hSame (.key name :: path)))
        intro x y hX hY hXY
        have hInX := (lookup_iff hEs).mp hX
        exact ih _ hInX (hEsOk _ hInX) (hFsOk _ ((lookup_iff hFs).mp hY)) hXY
          (Option.some.inj (hXY []))
      have hSorted := sorted_eq
        (es.map (fun e => (e.1, canonChars e.2))) (fs.map (fun e => (e.1, canonChars e.2)))
        (by rw [map_map]; exact hEs)
        (by rw [map_map]; exact hFs)
        (by
          rintro ⟨name, printed⟩
          rw [mem_map_iff hEs, mem_map_iff hFs, hLookup])
      rw [canonChars, canonChars, canonEntries_eq, canonEntries_eq, hSorted]
    | _ => simp [kind] at hKind

end Value

--
-- The Gateway's Copy
--

namespace Gateway

open List Value

/- The quoted string, pushed character by character. -/
def pushString (s : String) (out : List Char) : List Char :=
  (chars s).foldl (fun out c => out ++ escapeChar c) (out ++ ['"']) ++ ['"']

/- A comma before every element but the first. -/
def pushComma (i : Nat) (out : List Char) : List Char :=
  if i > 0 then out ++ [','] else out

/- The sorted members, each with what writes its value. -/
def pushMembers :
    List (String × (List Char → List Char)) → Nat → List Char → List Char
| [], _, out => out
| (key, write) :: members, i, out =>
    pushMembers members (i + 1) (write (pushString key (pushComma i out) ++ [':']))

mutual

/- `canonicalize_into`. -/
def canonicalizeInto : Value → List Char → List Char
| .null, out => out ++ chars "null"
| .bool b, out => out ++ chars (if b then "true" else "false")
| .number token, out => out ++ chars token
| .string s, out => pushString s.str out
| .array items, out => pushItems items 0 (out ++ ['[']) ++ [']']
| .object entries, out =>
    pushMembers
        ((writers entries).insertionSort (fun a b => a.1 ≤ b.1))
        0 (out ++ ['\x7b']) ++ ['\x7d']

def pushItems : List Value → Nat → List Char → List Char
| [], _, out => out
| item :: items, i, out =>
    pushItems items (i + 1) (canonicalizeInto item (pushComma i out))

def writers :
    List (String × Value) → List (String × (List Char → List Char))
| [] => []
| (key, v) :: entries =>
    (key, canonicalizeInto v) :: writers entries

end

def canonicalPayload (v : Value) : String :=
  String.ofList (canonicalizeInto v [])

theorem pushString_eq (s : String) (out : List Char) :
    pushString s out = out ++ quote s := by
  have hFold :
      ∀ (cs out : List Char),
        cs.foldl (fun out c => out ++ escapeChar c) out = out ++ cs.flatMap escapeChar := by
    intro cs
    induction cs with
    | nil => simp
    | cons c cs ih =>
      intro out
      rw [foldl_cons, ih, append_assoc, flatMap_cons]
  rw [pushString, hFold, quote]
  simp

/- Texts with commas before all, or before all but the first. -/
def commaed : Nat → List (List Char) → List Char
| _, [] => []
| i, x :: xs => pushComma i [] ++ x ++ commaed (i + 1) xs

theorem commaed_zero (xs : List (List Char)) :
    commaed 0 xs = [','].intercalate xs := by
  have hNext :
      ∀ (ys : List (List Char)) (x : List Char) (i : Nat),
        x ++ commaed (i + 1) ys = [','].intercalate (x :: ys) := by
    intro ys
    induction ys with
    | nil => simp [commaed]
    | cons y ys ih =>
      intro x i
      rw [Json.intercalate_cons, ← ih y (i + 1)]
      simp [commaed, pushComma]
  cases xs with
  | nil => rfl
  | cons x xs => simpa [commaed, pushComma] using hNext xs x 0

theorem pushComma_append (i : Nat) (out : List Char) :
    pushComma i out = out ++ pushComma i [] := by
  unfold pushComma
  split <;> simp

theorem canonicalizeInto_eq (v : Value) (out : List Char) :
    canonicalizeInto v out = out ++ canonChars v := by
  induction v using induction generalizing out with
  | hNull | hBool _ | hNumber _ => rfl
  | hString t => exact pushString_eq t.str out
  | hArray items ih =>
    have hItems :
        ∀ (xs : List Value), xs ⊆ items → ∀ i out,
          pushItems xs i out = out ++ commaed i (xs.map canonChars) := by
      intro xs
      induction xs with
      | nil => simp [pushItems, commaed]
      | cons x xs ihXs =>
        intro hSub i out
        rw [cons_subset] at hSub
        rw [pushItems, ihXs hSub.2, ih x hSub.1, pushComma_append]
        simp [commaed]
    rw [canonicalizeInto, hItems _ (Subset.refl _), commaed_zero, canonChars, canonItems_eq]
    simp
  | hObject entries ih =>
    have hWriters : writers entries = entries.map (fun e => (e.1, canonicalizeInto e.2)) := by
      clear ih
      induction entries with
      | nil => rfl
      | cons e entries ih => rw [writers, ih, map_cons]
    have hMembers :
        ∀ (es : List (String × Value)), es ⊆ entries →
          ∀ i out,
          pushMembers (es.map (fun e => (e.1, canonicalizeInto e.2))) i out =
            out ++ commaed i (es.map (Json.printEntry canonChars)) := by
      intro es
      induction es with
      | nil => simp [pushMembers, commaed]
      | cons e es ihEs =>
        intro hSub i out
        rw [cons_subset] at hSub
        rw [map_cons, pushMembers, ihEs hSub.2, ih e hSub.1, pushString_eq, pushComma_append]
        simp [commaed, Json.printEntry]
    rw [canonicalizeInto, hWriters, ← map_insertionSort (fun a b => a.1 ≤ b.1)
        (fun a b => a.1 ≤ b.1) (fun e : String × Value => (e.1, canonicalizeInto e.2))
        entries (fun _ _ _ _ => Iff.rfl),
      hMembers _ (perm_insertionSort _ entries).subset,
      commaed_zero, canonChars_object]
    simp [byKey]

end Gateway

namespace Value

/-
  The canonical text is read back to the value up to the order of keys, and to a value with the same
  text; two values have the same text exactly when they are equal up to the order of keys; and the
  gateway writes the text the verifier does.
-/
theorem canonical_faithful {v w : Value} (hV : ok v = true) (hW : ok w = true) :
    (∃ u, Json.parse (chars v.canonical) = some u ∧ Same v u ∧ u.canonical = v.canonical) ∧
      (v.canonical = w.canonical ↔ Same v w) ∧
      ∀ x, Gateway.canonicalPayload x = x.canonical := by
  have hText :
      ∀ {a b : Value}, ok a = true → ok b = true → Same a b → a.canonical = b.canonical := by
    intro a b hA hB hSame
    unfold canonical
    rw [canonChars_of_same hA hB hSame]
  refine ⟨⟨inOrder v, parse_canonical hV, same_inOrder hV,
    (hText hV (ok_inOrder hV) (same_inOrder hV)).symm⟩, ⟨?_, hText hV hW⟩, ?_⟩
  · intro hSame path
    have hParse := parse_canonical hV
    rw [hSame, parse_canonical hW, Option.some.injEq] at hParse
    rw [same_inOrder hV path, ← hParse, ← same_inOrder hW path]
  · intro x
    unfold Gateway.canonicalPayload canonical
    rw [Gateway.canonicalizeInto_eq, List.nil_append]

/- Two orders of the keys of one payload. -/
theorem swapped_keys_same :
    Same
      (.object [("b", .number "1.5e3"), ("a", .null)])
      (.object [("a", .null), ("b", .number "1.5e3")]) := by
  apply (canonical_faithful (by decide) (by decide)).2.1.mp
  decide

end Value

end Tracelane
