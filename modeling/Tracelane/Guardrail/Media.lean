import Tracelane.Lib.StrSlice
import Tracelane.Audit.Rekor

/-
  The media payloads of a request body: which declared types are binary, the payload of a base64
  data URI, and the text of a payload that is not binary.

  A slice inside a character panics.  A function that slices returns `none` there.
-/

namespace Tracelane.Guardrail

open StrSlice
open Verifier (trim)

--
-- Declared Types
--

/- The type without its parameters. -/
def essence (mime : List Char) : List Char :=
  trim (mime.takeWhile (· ≠ ';'))

/- Whether `sub` ends in `suffix`, cut by byte length. -/
def endsIn (sub suffix : List Char) : Option Bool :=
  if byteLen suffix ≤ byteLen sub then
    (sliceFrom sub (byteLen sub - byteLen suffix)).map (eqIgnoreAsciiCase suffix)
  else some false

/- The application subtypes that are not text. -/
def binarySubtypes : List String :=
  ["pdf", "octet-stream", "zip", "gzip", "x-gzip", "x-tar",
    "x-7z-compressed", "x-rar-compressed", "wasm", "msword",
    "x-protobuf", "protobuf", "x-zip-compressed", "epub+zip",
    "x-bzip", "x-bzip2", "x-xz", "zstd", "x-zstd",
    "java-archive"]

/- Whether a type and a subtype with no text suffix are binary. -/
def binaryPair (top sub : List Char) : Bool :=
  let kind := top.map Char.toLower
  if ["image", "audio", "video", "font", "model"].any (fun s => chars s = kind) then true
  else if chars "application" = kind then
    binarySubtypes.any (fun s => eqIgnoreAsciiCase sub (chars s)) ||
      (sliceTo sub 4).any (eqIgnoreAsciiCase (chars "vnd."))
  else false

def isBinaryMime (mime : List Char) : Option Bool :=
  match splitOnce '/' (essence mime) with
  | none => some false
  | some (top, sub) => do
      if ← endsIn sub (chars "+json") then some false
      else if ← endsIn sub (chars "+xml") then some false
      else some (binaryPair top sub)

/- The type, with its parameters, and the payload of a base64 data URI. -/
def base64DataUri (s : List Char) :
    Option (Option (List Char × List Char)) :=
  if (sliceTo s 5).any (eqIgnoreAsciiCase (chars "data:")) then
    match splitOnce ',' s with
    | none => some none
    | some (head, payload) =>
        match sliceFrom head (byteLen head - 7) with
        | none => some none
        | some tail =>
            if eqIgnoreAsciiCase tail (chars ";base64") then
              (slice head 5 (byteLen head - 7)).map (fun mime => some (mime, payload))
            else some none
  else some none

def isBase64DataUri (s : List Char) : Option Bool :=
  (base64DataUri s).map Option.isSome

def maxDecodedTextMedia : Nat :=
  8 * 1024 * 1024

def lenientVal (urlAlphabet : Bool) (c : Char) : Option Nat :=
  if urlAlphabet && c = '-' then some 62
  else if urlAlphabet && c = '_' then some 63
  else Verifier.base64Val c

/-
  `count` bytes are out and `bits` bits are pending in `acc`; `none` also where eight bits are not a
  byte.  The source reads bytes, and skips those of a character outside ASCII.
-/
def lenientLoop (urlAlphabet : Bool) : Nat → Nat → Bool → Nat → List Char → Option Bytes
| _, _, _, _, [] => some []
| acc, bits, padded, count, c :: rest =>
    match lenientVal urlAlphabet c with
    | none => lenientLoop urlAlphabet acc bits (padded || c = '=') count rest
    | some v =>
        if padded || maxDecodedTextMedia ≤ count then none
        else
          let acc := (acc * 64 + v) % 2 ^ 32
          let bits := bits + 6
          if 8 ≤ bits then
            let bits := bits - 8
            if acc / 2 ^ bits < 2 ^ 8 then
              (lenientLoop urlAlphabet (acc % 2 ^ bits) bits padded (count + 1) rest).map
                (fun out => UInt8.ofNat (acc / 2 ^ bits) :: out)
            else none
          else lenientLoop urlAlphabet acc bits padded count rest

def lenientBase64 (payload : List Char) (urlAlphabet : Bool) : Option Bytes :=
  lenientLoop urlAlphabet 0 0 false 0 payload

--
-- Encodings
--

/- A character whose later bytes are owed. -/
structure Pending where
  owed : Nat
  low : Nat
  high : Nat
  acc : Nat

/- What a first byte gives: a character, or a pending one. -/
def leadByte (b : Nat) : Option Char ⊕ Pending :=
  if b < 0x80 then .inl (some (Char.ofNat b))
  else if 0xc2 ≤ b ∧ b ≤ 0xdf then .inr ⟨1, 0x80, 0xbf, b % 32⟩
  else if b = 0xe0 then .inr ⟨2, 0xa0, 0xbf, 0⟩
  else if b = 0xed then .inr ⟨2, 0x80, 0x9f, 13⟩
  else if 0xe1 ≤ b ∧ b ≤ 0xef then .inr ⟨2, 0x80, 0xbf, b % 16⟩
  else if b = 0xf0 then .inr ⟨3, 0x90, 0xbf, 0⟩
  else if b = 0xf4 then .inr ⟨3, 0x80, 0x8f, 4⟩
  else if 0xf1 ≤ b ∧ b ≤ 0xf3 then .inr ⟨3, 0x80, 0xbf, b % 8⟩
  else .inl none

/- The characters of a byte sequence, `none` for each maximal part that is no UTF-8. -/
def utf8Chunks : Option Pending → Bytes → List (Option Char)
| none, [] => []
| some _, [] => [none]
| none, b :: rest =>
    match leadByte b.toNat with
    | .inl c => c :: utf8Chunks none rest
    | .inr p => utf8Chunks (some p) rest
| some p, b :: rest =>
    let n := b.toNat
    if p.low ≤ n ∧ n ≤ p.high then
      let acc := p.acc * 64 + n % 64
      if p.owed = 1 then
        some (Char.ofNat acc) :: utf8Chunks none rest
      else utf8Chunks (some ⟨p.owed - 1, 0x80, 0xbf, acc⟩) rest
    else
      none ::
        match leadByte n with
        | .inl c => c :: utf8Chunks none rest
        | .inr p => utf8Chunks (some p) rest

/- `String::from_utf8`. -/
def fromUtf8 (bytes : Bytes) : Option (List Char) :=
  (utf8Chunks none bytes).mapM id

/- `String::from_utf8_lossy`. -/
def fromUtf8Lossy (bytes : Bytes) : List Char :=
  (utf8Chunks none bytes).map (·.getD (Char.ofNat 0xfffd))

/- The sixteen-bit units of a byte sequence of even length. -/
def utf16Units (little : Bool) : Bytes → Option (List Nat)
| [] => some []
| [_] => none
| a :: b :: rest =>
    let unit :=
      if little then b.toNat * 256 + a.toNat
      else a.toNat * 256 + b.toNat
    (utf16Units little rest).map (unit :: ·)

/- `char::decode_utf16`, refusing a lone surrogate. -/
def decodeUtf16 : List Nat → Option (List Char)
| [] => some []
| u :: rest =>
    if u < 0xd800 ∨ 0xe000 ≤ u then
      (decodeUtf16 rest).map (Char.ofNat u :: ·)
    else if u < 0xdc00 then
      match rest with
      | [] => none
      | v :: rest =>
          if 0xdc00 ≤ v ∧ v < 0xe000 then
            (decodeUtf16 rest).map
              (Char.ofNat (0x10000 + (u - 0xd800) * 0x400 + (v - 0xdc00)) :: ·)
          else none
    else none

/- Decoded bytes as text, when they are clean text. -/
def cleanText (bytes : Bytes) : Option (List Char) :=
  let text :=
    match bytes with
    | 0xff :: 0xfe :: rest => (utf16Units true rest).bind decodeUtf16
    | 0xfe :: 0xff :: rest => (utf16Units false rest).bind decodeUtf16
    | bytes => fromUtf8 bytes
  text.filter (fun cs => !cs.contains '\x00')

inductive Charset where
| utf
| latin1
| other
deriving DecidableEq

/- The charset parameter of one part of a type. -/
def charsetParam (part : List Char) : Option (List Char) :=
  match splitOnce '=' part with
  | none => none
  | some (k, v) =>
      if eqIgnoreAsciiCase (trim k) (chars "charset") then
        let bare := ((trim v).dropWhile (· = '"')).rdropWhile
          (· = '"')
        some (bare.map Char.toLower)
      else none

def charsetOf (mime : Option (List Char)) : Charset :=
  let parts := (mime.map (fun m => (m.splitOn ';').drop 1)).getD []
  match parts.findSome? charsetParam with
  | none => .utf
  | some cs =>
      if ["utf-8", "utf8", "us-ascii", "ascii", "utf-16",
          "utf-16le", "utf-16be"].any (fun s => chars s = cs) then
        .utf
      else if ["iso-8859-1", "iso8859-1", "latin1", "latin-1",
          "l1", "windows-1252", "cp1252", "iso-8859-15"].any
          (fun s => chars s = cs) then .latin1
      else .other

--
-- Payloads
--

/- The first decoded bytes of a payload. -/
def payloadHead (payload : List Char) : Bytes :=
  let kept := payload.filter (fun c => c.isAlphanum || c = '+' || c = '/' || c = '-' || c = '_')
  (lenientBase64 (kept.take 24) true).getD []

/- Whether the bytes carry the declared type's signature. -/
def signatureMatches (mime payload : List Char) : Bool :=
  let kind := (essence mime).map Char.toLower
  let head := payloadHead payload
  let starts (sig : Bytes) := sig.isPrefixOf head
  if kind = chars "image/png" then
    starts [0x89, 0x50, 0x4e, 0x47, 0x0d, 0x0a, 0x1a, 0x0a]
  else if kind = chars "image/jpeg" ∨ kind = chars "image/jpg" then
    starts [0xff, 0xd8, 0xff]
  else if kind = chars "image/gif" then starts (utf8 "GIF8")
  else if kind = chars "image/webp" then
    starts (utf8 "RIFF") && (head.drop 8).take 4 = utf8 "WEBP"
  else if kind = chars "application/pdf" then
    starts (utf8 "%PDF-")
  else if kind = chars "application/zip" ∨
      kind = chars "application/x-zip-compressed" ∨
      kind = chars "application/epub+zip" then
    starts (utf8 "PK")
  else true

/- The text of a payload and its other readings. -/
inductive Decoded where
| text : List Char → List (List Char) → Decoded
| unscannable : Decoded

def lossyText (bytes : Bytes) : List Char :=
  (fromUtf8Lossy bytes).filter (· ≠ '\x00')

/- What a reader that skips the byte-order mark reads. -/
def markedReading : Bytes → List (List Char)
| 0xff :: 0xfe :: rest => [lossyText rest]
| 0xff :: 0xff :: rest => [lossyText rest]
| 0xfe :: 0xff :: rest => [lossyText rest]
| _ => []

def decodeTextMedia (payload : List Char) (mime : Option (List Char)) : Decoded :=
  let charset := charsetOf mime
  if charset = .other then .unscannable
  else
    match lenientBase64 payload true with
    | none => .unscannable
    | some bytes =>
        let latin := bytes.map (fun b => Char.ofNat b.toNat)
        let text :=
          if charset = .latin1 then
            if latin.contains '\x00' then none else some latin
          else cleanText bytes
        let marked :=
          if charset = .latin1 then [] else markedReading bytes
        match text with
        | none => .unscannable
        | some text =>
            if payload.any (fun c => c = '-' || c = '_') then
              match lenientBase64 payload false with
              | none => .unscannable
              | some other => .text text (marked ++ [lossyText other])
            else .text text marked

example :
    isBinaryMime (chars "image/png") = some true ∧
      isBinaryMime (chars "image/svg+xml") = some false := by
  decide

end Tracelane.Guardrail
