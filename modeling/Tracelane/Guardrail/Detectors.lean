import Tracelane.Lib.Bytes
import Tracelane.Lib.Pattern

/-
  The detector rules of the PII redactor, in the order of `RULES`.

  A detector is what the regex crate makes of a rule: for a text, its matches from the left, none
  overlapping another. The model takes any such function; `listed` is the one of the patterns in the
  source, on ASCII text.
-/

namespace Tracelane.Guardrail

--
-- Categories
--

inductive Category where
| awsKey
| tracelaneKey
| githubToken
| stripeKey
| stripeRestricted
| webhookSecret
| openaiKey
| openaiOrg
| googleApiKey
| googleAuthKey
| bearer
| jwt
| polarPat
| slackToken
| privateKey
| email
| ssn
| phone
| creditCard
| ipv4
| ipv6
deriving DecidableEq

namespace Category

def name : Category → String
| .awsKey => "aws_key"
| .tracelaneKey => "tracelane_key"
| .githubToken => "github_token"
| .stripeKey => "stripe_key"
| .stripeRestricted => "stripe_restricted"
| .webhookSecret => "webhook_secret"
| .openaiKey => "openai_key"
| .openaiOrg => "openai_org"
| .googleApiKey => "google_api_key"
| .googleAuthKey => "google_auth_key"
| .bearer => "bearer"
| .jwt => "jwt"
| .polarPat => "polar_pat"
| .slackToken => "slack_token"
| .privateKey => "private_key"
| .email => "email"
| .ssn => "ssn"
| .phone => "phone"
| .creditCard => "credit_card"
| .ipv4 => "ipv4"
| .ipv6 => "ipv6"

/- The marker of the one-way redactor. -/
def marker : Category → String
| .googleAuthKey => "[REDACTED:google_api_key]"
| .bearer => "Bearer [REDACTED]"
| .creditCard => "[REDACTED:credit_card_candidate]"
| category => "[REDACTED:" ++ category.name ++ "]"

end Category

/- The order of `RULES`. -/
def rules : List Category :=
  [.awsKey, .tracelaneKey, .githubToken, .stripeKey,
    .stripeRestricted, .webhookSecret, .openaiKey, .openaiOrg,
    .googleApiKey, .googleAuthKey, .bearer, .jwt, .polarPat,
    .slackToken, .privateKey, .email, .ssn, .phone, .creditCard,
    .ipv4, .ipv6]

/- The matches of a rule in a text: the length of the text before each match, and its own. -/
abbrev Detectors :=
  Category → List Char → List (Nat × Nat)

/- A text cut into the matches, each behind its gap. -/
def cutAt :
    List (Nat × Nat) → List Char → List (List Char × List Char) × List Char
| [], text => ([], text)
| (gap, len) :: spans, text =>
    let rest := text.drop gap
    let cut := cutAt spans (rest.drop len)
    ((text.take gap, rest.take len) :: cut.1, cut.2)

/- `str::chars` digits, as `char::to_digit` reads them. -/
def digitsOf (cs : List Char) : List Nat :=
  (cs.filter Char.isDigit).map (fun c => c.toNat - 48)

/- What a digit counts, by its place from the right. -/
def luhnTerm (digit place : Nat) : Nat :=
  if place % 2 = 1 then
    if 9 < digit * 2 then digit * 2 - 9 else digit * 2
  else digit

/- The check digit of a card number. -/
def luhnCheck (cs : List Char) : Bool :=
  let digits := digitsOf cs
  if digits.length < 13 ∨ 19 < digits.length then false
  else
    (digits.reverse.zipIdx.map (fun d => luhnTerm d.1 d.2)).sum % 10 = 0

--
-- The Listed Patterns
--

open Pattern

private def alnum (c : Char) : Bool :=
  c.isAlphanum

/- ASCII letters, digits, and the characters of `s`. -/
private def alnumOr (s : String) (c : Char) : Bool :=
  c.isAlphanum || oneOf s c

private def digit : Pattern :=
  .one Char.isDigit

private def space (c : Char) : Bool :=
  c = ' ' || (9 ≤ c.toNat && c.toNat ≤ 13)

private def hex (c : Char) : Bool :=
  c.isDigit || ('a' ≤ c && c ≤ 'f') || ('A' ≤ c && c ≤ 'F')

private def pemLine (word : String) : Pattern :=
  cat [lit ("-----" ++ word ++ " "),
    least 1 (.one (fun c => c.isUpper || c = ' ')),
    lit "PRIVATE KEY-----"]

def pattern : Category → Pattern
| .awsKey =>
    cat [lit "AKIA",
      between 16 16 (.one (fun c => c.isDigit || c.isUpper))]
| .tracelaneKey => cat [lit "tlane_", least 20 (.one alnum)]
| .githubToken =>
    .alt
      (cat [lit "gh", .one (oneOf "opsu"), lit "_",
        least 36 (.one (alnumOr "_"))])
      (cat [lit "github_pat_",
        between 22 22 (.one (alnumOr "_")), lit "_",
        between 59 59 (.one (alnumOr "_"))])
| .stripeKey =>
    cat [lit "sk_", .alt (lit "live") (lit "test"), lit "_",
      least 24 (.one alnum)]
| .stripeRestricted =>
    cat [lit "rk_", .alt (lit "live") (lit "test"), lit "_",
      least 24 (.one alnum)]
| .webhookSecret =>
    cat [lit "whsec_", least 24 (.one (alnumOr "+/="))]
| .openaiKey => cat [lit "sk-", least 20 (.one (alnumOr "_-"))]
| .openaiOrg => cat [lit "org-", least 20 (.one alnum)]
| .googleApiKey =>
    cat [lit "AIza", between 35 35 (.one (alnumOr "-_"))]
| .googleAuthKey =>
    cat [lit "AQ.", least 20 (.one (alnumOr "_-"))]
| .bearer =>
    cat [.boundary, litI "Bearer", least 1 (.one space),
      least 12 (.one (alnumOr "._-+/="))]
| .jwt =>
    cat [lit "eyJ", least 1 (.one (alnumOr "_-")), lit ".eyJ",
      least 1 (.one (alnumOr "_-")), lit ".",
      least 1 (.one (alnumOr "_-"))]
| .polarPat =>
    cat [lit "polar_pat_", least 16 (.one (alnumOr "_-"))]
| .slackToken =>
    cat [lit "xox", .one (oneOf "baprs"), lit "-",
      least 10 (.one (alnumOr "-"))]
| .privateKey =>
    cat [pemLine "BEGIN",
      .rep false (.one (fun _ => true)) 1 none, pemLine "END"]
| .email =>
    cat [least 1 (.one (alnumOr "._%+-")), lit "@",
      least 1 (.one (alnumOr ".-")), lit ".",
      least 2 (.one Char.isAlpha)]
| .ssn =>
    cat [.boundary, between 3 3 digit, lit "-",
      between 2 2 digit, lit "-", between 4 4 digit, .boundary]
| .phone =>
    .alt
      (cat [lit "+", between 1 3 digit, opt (.one (oneOf " -")),
        between 3 4 digit, opt (.one (oneOf " -")),
        between 3 4 digit, opt (.one (oneOf " -")),
        between 0 4 digit])
      (.alt
        (cat [lit "(", between 3 3 digit, lit ")",
          opt (.one (oneOf " -")), between 3 3 digit,
          opt (.one (oneOf " -")), between 4 4 digit])
        (cat [.boundary, between 3 3 digit, .one (oneOf "-."),
          between 3 3 digit, .one (oneOf "-."),
          between 4 4 digit, .boundary]))
| .creditCard =>
    cat [.boundary,
      between 12 18 (cat [digit, opt (.one (oneOf " -"))]),
      digit, .boundary]
| .ipv4 =>
    cat [.boundary, between 3 3 (cat [between 1 3 digit, lit "."]),
      between 1 3 digit, .boundary]
| .ipv6 =>
    cat [.boundary,
      between 7 7 (cat [between 1 4 (.one hex), lit ":"]),
      between 1 4 (.one hex), .boundary]

def listed : Detectors :=
  fun category text => (pattern category).spans text

example :
    listed .email (chars "to: a@b.co, c@d.io") = [(4, 6), (2, 6)] := by
  decide

end Tracelane.Guardrail
