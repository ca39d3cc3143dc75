import Tracelane.Guardrail.Media
import Tracelane.Guardrail.Positions
import Tracelane.Lib.Visit

/-
  The walks over a request body that leaves for a provider.

  `egressLeaves` hands every forwarded text to a reader, which may stop the walk; `redactWalk`
  rewrites string values by the same positions.
-/

namespace Tracelane.Guardrail

open Visit

variable {σ : Type}

--
-- Reading
--

/- One thing the walk hands its reader. -/
inductive Leaf where
| text : String → Leaf
| unscannable : Leaf
deriving DecidableEq

abbrev Reader (σ : Type) :=
  Visitor σ (Leaf × Origin)

/- Hand several leaves of one origin over. -/
def passAll (f : Reader σ) (origin : Origin) : List Leaf → σ → Visit σ
| [], s => some (s, false)
| leaf :: rest, s =>
    orElse (some (f (leaf, origin) s)) (passAll f origin rest)

/- The leaves of a payload that is read. -/
def decodedLeaves (payload : List Char) (mime : Option (List Char)) : List Leaf :=
  match decodeTextMedia payload mime with
  | .text text others => .text (ofChars text) :: others.map (fun other => .text (ofChars other))
  | .unscannable => [.unscannable]

/- A declared binary type that the payload's bytes bear out. -/
def skipsPayload (payload : List Char) :
    Option (List Char) → Option Bool
| none => some false
| some mime =>
    (isBinaryMime mime).map (fun binary => binary && signatureMatches mime payload)

def mediaLeaf (f : Reader σ) (payload : List Char) (mime : Option (List Char))
    (origin : Origin) (s : σ) : Visit σ :=
  match skipsPayload payload mime with
  | none => none
  | some true => some (s, false)
  | some false => passAll f origin (decodedLeaves payload mime) s

/- The type an object declares for its payload.  Two keys that disagree leave it unknown. -/
def declaredMime (entries : List (String × Value)) : Option (List Char) :=
  let found := ["mimeType", "mime_type", "media_type"].filterMap
    (fun key => (strAt key entries).map chars)
  match found with
  | [] => none
  | first :: rest =>
      if rest.all (fun mime => StrSlice.eqIgnoreAsciiCase mime first) then
        some first
      else none

/- What the walk knows of the object whose members it reads. -/
structure Holder where
  pos : Pos
  origin : Origin
  tag : Tag
  ty : Option String
  mime : Option (List Char)

def Holder.of (pos : Pos) (parent : Origin) (entries : List (String × Value)) : Holder where
  pos := pos
  origin := objectOrigin pos parent entries
  tag := Tag.of entries
  ty := strAt "type" entries
  mime := declaredMime entries

def Holder.childOrigin (h : Holder) (key : String) : Origin :=
  Guardrail.childOrigin h.pos h.origin h.ty key

mutual

def walk (f : Reader σ) : Value → Pos → Origin → σ → Visit σ
| .string text, _, origin, s =>
    some (f (.text text.str, origin) s)
| .array items, pos, origin, s =>
    walkItems f items pos.elem origin s
| .object entries, pos, origin, s =>
    walkMembers f (Holder.of pos origin entries) entries s
| .null, _, _, s => some (s, false)
| .bool _, _, _, s => some (s, false)
| .number _, _, _, s => some (s, false)

def walkItems (f : Reader σ) :
    List Value → Pos → Origin → σ → Visit σ
| [], _, _, s => some (s, false)
| item :: items, pos, origin, s =>
    orElse (walk f item pos origin s) (walkItems f items pos origin)

def walkMembers (f : Reader σ) (h : Holder) :
    List (String × Value) → σ → Visit σ
| [], s => some (s, false)
| (key, child) :: rest, s =>
    let origin := h.childOrigin key
    orElse (some (f (.text key, origin) s)) (fun s =>
      orElse
        (match h.pos.rule h.tag key, child with
        | .opaqueChild, _ => some (s, false)
        | .media, .string text => mediaLeaf f (chars text.str) h.mime origin s
        | .dataUri, .string text =>
            match base64DataUri (chars text.str) with
            | none => none
            | some none => some (f (.text text.str, origin) s)
            | some (some (mime, payload)) => mediaLeaf f payload (some mime) origin s
        | _, child =>
            walk f child (h.pos.child h.tag key) origin s)
        (walkMembers f h rest))

end

def egressLeaves (f : Reader σ) (body : Value) : σ → Visit σ :=
  walk f body .root .direct

/- A rewrite of one string; `none` when it does not return. -/
abbrev Rewriter (σ : Type) :=
  Text → σ → Option (σ × Text)

mutual

def redactWalk (visit : Rewriter σ) :
    Value → Pos → σ → Option (σ × Value)
| .string text, _, s =>
    (visit text s).map (fun r => (r.1, .string r.2))
| .array items, pos, s =>
    (redactItems visit items pos.elem s).map (fun r => (r.1, .array r.2))
| .object entries, pos, s =>
    (redactMembers visit pos (Tag.of entries) entries s).map (fun r => (r.1, .object r.2))
| .null, _, s => some (s, .null)
| .bool b, _, s => some (s, .bool b)
| .number token, _, s => some (s, .number token)

def redactItems (visit : Rewriter σ) :
    List Value → Pos → σ → Option (σ × List Value)
| [], _, s => some (s, [])
| item :: items, pos, s =>
    (redactWalk visit item pos s).bind (fun r =>
      (redactItems visit items pos r.1).map (fun r' => (r'.1, r.2 :: r'.2)))

def redactMembers (visit : Rewriter σ) (pos : Pos) (tag : Tag) :
    List (String × Value) → σ → Option (σ × List (String × Value))
| [], s => some (s, [])
| (key, child) :: rest, s =>
    let first : Option (σ × Value) :=
      match pos.rule tag key, child with
      | .opaqueChild, child => some (s, child)
      | .media, .string text => some (s, .string text)
      | .dataUri, .string text =>
          match isBase64DataUri (chars text.str) with
          | none => none
          | some true => some (s, .string text)
          | some false => (visit text s).map (fun r => (r.1, .string r.2))
      | _, child => redactWalk visit child (pos.child tag key) s
    first.bind (fun r =>
      (redactMembers visit pos tag rest r.1).map (fun r' => (r'.1, (key, r.2) :: r'.2)))

end

end Tracelane.Guardrail
