import Tracelane.Lib.Bytes

/-
  JSON values as `serde_json::Value` holds them, the lookups the verifier makes in them, and the
  canonical text of a value.

  Strings that end up inside a hash preimage are `Text`: a Rust `String` together with the bound its
  allocation obeys.
-/

namespace Tracelane

--
-- Text
--

/- A Rust `String`.  No allocation exceeds `isize::MAX` bytes. -/
structure Text where
  str : String
  fits : str.utf8ByteSize < 2 ^ 63 := by decide
deriving DecidableEq

namespace Text

theorem fits_empty :
    "".utf8ByteSize < 2 ^ 63 := by
  decide

theorem str_injective {s t : Text} (h : s.str = t.str) :
    s = t := by
  cases s
  cases t
  simp_all

/- The bytes of a text. -/
def bytes (t : Text) : Bytes :=
  utf8 t.str

theorem length_bytes_lt (t : Text) :
    t.bytes.length < 2 ^ 64 := by
  have := t.fits
  simp only [bytes, length_utf8]
  omega

theorem bytes_injective {s t : Text} (h : s.bytes = t.bytes) :
    s = t :=
  str_injective (utf8_injective h)

end Text

/-
  A JSON value.  A number is kept as the token `serde_json::Number` prints; an object as its
  entries, one per key.
-/
inductive Value where
| null : Value
| bool : Bool → Value
| number : String → Value
| string : Text → Value
| array : List Value → Value
| object : List (String × Value) → Value

namespace Value

/- `Value::get` at a string key. -/
def get (key : String) : Value → Option Value
| .object entries => entries.lookup key
| _ => none

/- `Value::as_str`. -/
def asStr : Value → Option Text
| .string s => some s
| _ => none

/-
  `Value::pointer` at a path of object keys.  None of the verifier's paths has a numeric step, so no
  step selects an array element.
-/
def pointer (v : Value) (path : List String) : Option Value :=
  path.foldl (fun at? key => at?.bind (get key)) (some v)

--
-- Canonical Text
--

/- The four lower-case hexadecimal digits of a code point. -/
def hex4 (n : Nat) : List Char :=
  [hexDigit (UInt8.ofNat (n / 4096 % 16)),
    hexDigit (UInt8.ofNat (n / 256 % 16)),
    hexDigit (UInt8.ofNat (n / 16 % 16)),
    hexDigit (UInt8.ofNat (n % 16))]

/- One character of a JSON string, escaped. -/
def escapeChar (c : Char) : List Char :=
  if c = '"' then ['\\', '"']
  else if c = '\\' then ['\\', '\\']
  else if c = '\n' then ['\\', 'n']
  else if c = '\r' then ['\\', 'r']
  else if c = '\t' then ['\\', 't']
  else if c.toNat = 0x08 then ['\\', 'b']
  else if c.toNat = 0x0c then ['\\', 'f']
  else if c.toNat < 0x20 then '\\' :: 'u' :: hex4 c.toNat
  else [c]

/- A JSON string literal. -/
def quote (s : String) : List Char :=
  '"' :: (chars s).flatMap escapeChar ++ ['"']

/- Keys sort as their UTF-8 bytes do. -/
def KeyLe (a b : String × List Char) : Prop :=
  a.1 ≤ b.1

instance : DecidableRel KeyLe := by
  unfold KeyLe
  infer_instance

mutual

/- `canon_into`: the canonical characters of a value. -/
def canonChars : Value → List Char
| .null => chars "null"
| .bool b => chars (if b then "true" else "false")
| .number token => chars token
| .string s => quote s.str
| .array items =>
    '[' :: [','].intercalate (canonItems items) ++ [']']
| .object entries =>
    '{' :: [','].intercalate
        (((canonEntries entries).insertionSort KeyLe).map
          (fun entry => quote entry.1 ++ ':' :: entry.2)) ++
      ['}']

def canonItems : List Value → List (List Char)
| [] => []
| item :: items => canonChars item :: canonItems items

def canonEntries :
    List (String × Value) → List (String × List Char)
| [] => []
| (key, v) :: entries =>
    (key, canonChars v) :: canonEntries entries

end

/- `canonical_payload_v2`. -/
def canonical (v : Value) : String :=
  String.ofList (canonChars v)

end Value

end Tracelane
