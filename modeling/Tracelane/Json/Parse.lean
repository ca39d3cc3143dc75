import Tracelane.Json.Value

/-
  An executable reader of JSON texts (RFC 8259).  A number is kept as it is written, and the last of
  two entries of a key wins.
-/

namespace Tracelane.Json

open List

--
-- Strings
--

/- The code unit of four hexadecimal digits. -/
def unit4 (cs : List Char) : Option Nat :=
  cs.foldl (fun acc c => do
    let n ← acc
    if c.toNat < 128 then
      let d ← hexNibble (UInt8.ofNat c.toNat)
      some (n * 16 + d.toNat)
    else none) (some 0)

/- The character of a single-letter escape. -/
def escaped : Char → Option Char
| '"' => some '"'
| '\\' => some '\\'
| '/' => some '/'
| 'b' => some '\x08'
| 'f' => some '\x0c'
| 'n' => some '\n'
| 'r' => some '\r'
| 't' => some '\t'
| _ => none

/- Read a string up to its closing quote. -/
def unescape : List Char → Option (List Char × List Char)
| [] => none
| '"' :: rest => some ([], rest)
| '\\' :: 'u' :: a :: b :: c :: d :: rest => do
    let n ← unit4 [a, b, c, d]
    if 0xd800 ≤ n ∧ n < 0xe000 then none
    else
      let (cs, rest) ← unescape rest
      some (Char.ofNat n :: cs, rest)
| '\\' :: c :: rest => do
    let c ← escaped c
    let (cs, rest) ← unescape rest
    some (c :: cs, rest)
| c :: rest => do
    if c.toNat < 0x20 then none
    else
      let (cs, rest) ← unescape rest
      some (c :: cs, rest)

def text? (cs : List Char) : Option Text :=
  if h : (ofChars cs).utf8ByteSize < 2 ^ 63 then some ⟨ofChars cs, h⟩ else none

--
-- Values
--

def skipWs (cs : List Char) : List Char :=
  cs.dropWhile (fun c => c = ' ' || c = '\t' || c = '\n' || c = '\r')

def isNumberChar (c : Char) : Bool :=
  c.isDigit || c = '-' || c = '+' || c = '.' || c = 'e' || c = 'E'

/- The exponent of a number, from its letter on. -/
def isExponent : List Char → Bool
| [] => true
| e :: cs =>
    let digits := if cs.head? = some '-' ∨ cs.head? = some '+'
      then cs.tail else cs
    (e = 'e' || e = 'E') && !digits.isEmpty && digits.all Char.isDigit

/- The fraction and the exponent of a number. -/
def isFraction : List Char → Bool
| '.' :: cs =>
    !(cs.takeWhile Char.isDigit).isEmpty && isExponent (cs.dropWhile Char.isDigit)
| cs => isExponent cs

/- A number: sign, integer, fraction, and exponent. -/
def isNumber (cs : List Char) : Bool :=
  let body := if cs.head? = some '-' then cs.tail else cs
  let digits := body.takeWhile Char.isDigit
  cs.all isNumberChar && !digits.isEmpty &&
    (digits.length = 1 || digits.head? ≠ some '0') &&
    isFraction (body.dropWhile Char.isDigit)

def number (cs : List Char) : Option (Value × List Char) :=
  let token := cs.takeWhile isNumberChar
  if isNumber token then
    some (.number (String.ofList token), cs.dropWhile isNumberChar)
  else none

def literal (cs : List Char) : Option (Value × List Char) :=
  if (chars "null").isPrefixOf cs then some (.null, cs.drop 4)
  else if (chars "true").isPrefixOf cs then
    some (.bool true, cs.drop 4)
  else if (chars "false").isPrefixOf cs then
    some (.bool false, cs.drop 5)
  else none

/- A string from behind its opening quote on. -/
def text (cs : List Char) : Option (Text × List Char) :=
  (unescape cs).bind (fun r => (text? r.1).map (fun t => (t, r.2)))

mutual

def value : Nat → List Char → Option (Value × List Char)
| 0, _ => none
| fuel + 1, cs =>
    match skipWs cs with
    | [] => none
    | c :: rest =>
        if c = '"' then
          (text rest).map (fun r => (.string r.1, r.2))
        else if c = '[' then
          if (skipWs rest).head? = some ']' then
            some (.array [], (skipWs rest).tail)
          else
            (items fuel rest).map (fun r => (.array r.1, r.2))
        else if c = '{' then
          if (skipWs rest).head? = some '}' then
            some (.object [], (skipWs rest).tail)
          else
            (entries fuel rest).map (fun r => (.object r.1, r.2))
        else if isNumberChar c then number (c :: rest)
        else literal (c :: rest)

/- Values up to the closing bracket. -/
def items : Nat → List Char → Option (List Value × List Char)
| 0, _ => none
| fuel + 1, cs =>
    (value fuel cs).bind (fun r =>
      match skipWs r.2 with
      | ',' :: rest => (items fuel rest).map (fun s => (r.1 :: s.1, s.2))
      | ']' :: rest => some ([r.1], rest)
      | _ => none)

/- Names and values up to the closing brace. -/
def entries :
    Nat → List Char → Option (List (String × Value) × List Char)
| 0, _ => none
| fuel + 1, cs =>
    match skipWs cs with
    | '"' :: rest =>
        (unescape rest).bind (fun name =>
          match skipWs name.2 with
          | ':' :: rest =>
              (value fuel rest).bind (fun r =>
                let key := String.ofList name.1
                match skipWs r.2 with
                | ',' :: rest =>
                    (entries fuel rest).map (fun s =>
                      (if (s.1.lookup key).isSome then s.1 else (key, r.1) :: s.1, s.2))
                | '}' :: rest => some ([(key, r.1)], rest)
                | _ => none)
          | _ => none)
    | _ => none

end

/- A text is one value, with blanks around it. -/
def parse (cs : List Char) : Option Value :=
  (value (cs.length + 1) cs).bind (fun r => if skipWs r.2 = [] then some r.1 else none)

end Tracelane.Json
