import Tracelane.Guardrail.Detectors
import Tracelane.Lib.Holes

/-
  Reversible redaction: each match becomes a placeholder, and a map keeps the originals for the way
  back.

  The rules run one after another, each over the text the rules before it have left.  A class policy
  keeps some of the placeholders, numbers them anew, and puts the other originals back.
-/

namespace Tracelane.Guardrail

open Holes

variable (D : Detectors)

--
-- Placeholders
--

def redactOpen : List Char :=
  ['\x7b', '\x7b', 'T', 'L', '_', 'R', 'E', 'D', 'A', 'C', 'T', ':']

def placeholder (category : Category) (idx : Nat) : List Char :=
  redactOpen ++ (chars category.name ++ ':' :: (Nat.toDigits 10 idx ++ ['\x7d', '\x7d']))

structure RedactionEntry where
  category : Category
  placeholder : List Char
  original : List Char
deriving DecidableEq

/- A rewritten text and what its placeholders stand for. -/
structure ReversibleRedaction where
  redacted : List Char
  entries : List RedactionEntry
deriving DecidableEq

/-
  Replace the matches that `accept` admits, numbering from
  `base` on past the entries that are there.
-/
def replaceMatches (category : Category) (accept : List Char → Bool) (base : Nat) :
    List (List Char × List Char) → List Char → List RedactionEntry → ReversibleRedaction
| [], rest, entries => ⟨rest, entries⟩
| (gap, original) :: pieces, rest, entries =>
    if accept original then
      let mark := placeholder category (base + entries.length)
      let r := replaceMatches category accept base pieces rest
        (entries ++ [⟨category, mark, original⟩])
      ⟨gap ++ (mark ++ r.redacted), r.entries⟩
    else
      let r := replaceMatches category accept base pieces rest entries
      ⟨gap ++ (original ++ r.redacted), r.entries⟩

/- One rule over the text so far. -/
def applyRule (category : Category) (accept : List Char → Bool) (base : Nat)
    (r : ReversibleRedaction) : ReversibleRedaction :=
  let cut := cutAt (D category r.redacted) r.redacted
  replaceMatches category accept base cut.1 cut.2 r.entries

/-
  The rules but the card rule run first; the card rule comes
  last and takes only the numbers whose check digit is right.
-/
def redactReversibleFrom (value : List Char) (base : Nat) : ReversibleRedaction :=
  let plainRules := rules.filter (· ≠ .creditCard)
  let r := plainRules.foldl
    (fun r category => applyRule D category (fun _ => true) base r)
    ⟨value, []⟩
  applyRule D .creditCard luhnCheck base r

/-
  The source asks first whether a placeholder occurs; replacing one that does not changes nothing.
-/
def reinsert (text : List Char) (entries : List RedactionEntry) : List Char :=
  entries.foldl (fun out e => replaceAll e.placeholder e.original out) text

/- The matches of the card rule that are card numbers. -/
def hasCard (value : List Char) : Bool :=
  (cutAt (D .creditCard value) value).1.any (fun piece => luhnCheck piece.2)

/- Texts of fewer bytes than this match no rule. -/
def minRedactableLen : Nat :=
  6

def containsRedactable (value : List Char) : Bool :=
  if (value.map Char.utf8Size).sum < minRedactableLen then false
  else
    rules.any (fun category => category ≠ .creditCard && !(D category value).isEmpty) ||
      hasCard D value

--
-- Class Policies
--

inductive Mode where
| observe
| redact
| block
deriving DecidableEq

inductive ClassAction where
| observe
| redact
| block
| off
deriving DecidableEq

inductive PiiClass where
| secrets
| email
| phone
| ipv4
| ipv6
| card
| ssn
deriving DecidableEq

def Category.piiClass : Category → PiiClass
| .email => .email
| .ssn => .ssn
| .phone => .phone
| .creditCard => .card
| .ipv4 => .ipv4
| .ipv6 => .ipv6
| _ => .secrets

/- What the rail does with a class that no policy lists. -/
def builtinDefault : PiiClass → Option Mode
| .ipv4 => none
| .ipv6 => none
| _ => some .redact

structure PiiPolicy where
  classes : PiiClass → Option ClassAction
  allowlist : List (List Char)

def PiiPolicy.action (policy : PiiPolicy) (entry : RedactionEntry) : Option Mode :=
  if policy.allowlist.contains entry.original then none
  else
    let kind := entry.category.piiClass
    match policy.classes kind with
    | none => builtinDefault kind
    | some .off => none
    | some .observe => some .observe
    | some .redact => some .redact
    | some .block => some .block

/- Keep an entry under a new number, or put its original back. -/
def selectEntry (policy : PiiPolicy) (base : Nat) (out : ReversibleRedaction)
    (entry : RedactionEntry) : ReversibleRedaction :=
  if policy.action entry = some .redact then
    let mark := placeholder entry.category (base + out.entries.length)
    ⟨replaceAll entry.placeholder mark out.redacted,
      out.entries ++ [⟨entry.category, mark, entry.original⟩]⟩
  else
    ⟨replaceAll entry.placeholder entry.original out.redacted, out.entries⟩

/- `pii_policy::redact`. -/
def redactSelective (policy : Option PiiPolicy) (text : List Char)
    (base : Nat) : ReversibleRedaction :=
  let raw := redactReversibleFrom D text base
  match policy with
  | none => raw
  | some policy => raw.entries.foldl (selectEntry policy base) ⟨raw.redacted, []⟩

def residual (policy : Option PiiPolicy) (text : List Char) : Bool :=
  match policy with
  | none => containsRedactable D text
  | some policy =>
      (redactReversibleFrom D text 0).entries.any (fun entry =>
        policy.action entry = some .redact || policy.action entry = some .block)

end Tracelane.Guardrail
