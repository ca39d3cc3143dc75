/-
  Regular expressions, matched by backtracking.

  Of the matches at a position, the first in the order of the alternatives wins, as in the matchers
  of the Perl family; a search takes the leftmost position with a match and goes on behind it.
-/

inductive Pattern where
| one : (Char → Bool) → Pattern
| seq : Pattern → Pattern → Pattern
| alt : Pattern → Pattern → Pattern
| rep : Bool → Pattern → Nat → Option Nat → Pattern
| boundary : Pattern

namespace Pattern

/- Where a matcher stands in a text. -/
structure Cursor where
  prev : Option Char
  rest : List Char
  used : Nat

/- An ASCII word character. -/
def isWord (c : Char) : Bool :=
  c.isAlphanum || c = '_'

variable {β : Type}

/- Match a pattern, then go on with `next`.  A repetition that used no character is not repeated. -/
def run : Nat → Pattern → (Cursor → Option β) → Cursor → Option β
| 0, _, _, _ => none
| _ + 1, .one p, next, s =>
    match s.rest with
    | [] => none
    | c :: rest =>
        if p c then next ⟨some c, rest, s.used + 1⟩ else none
| fuel + 1, .seq a b, next, s =>
    run fuel a (run fuel b next) s
| fuel + 1, .alt a b, next, s =>
    match run fuel a next s with
    | some r => some r
    | none => run fuel b next s
| _ + 1, .boundary, next, s =>
    if s.prev.any isWord = s.rest.head?.any isWord then none
    else next s
| fuel + 1, .rep greedy p low high, next, s =>
    let again (low : Nat) (s' : Cursor) : Option β :=
      run fuel (.rep greedy p low (high.map (· - 1))) next s'
    match low with
    | low + 1 => run fuel p (again low) s
    | 0 =>
        if high = some 0 then next s
        else
          let more (_ : Unit) :=
            run fuel p (fun s' => if s'.used = s.used then none else again 0 s') s
          if greedy then
            match more () with
            | some r => some r
            | none => next s
          else
            match next s with
            | some r => some r
            | none => more ()

/- The length of the match at a position. -/
def length? (p : Pattern) (prev : Option Char) (rest : List Char) : Option Nat :=
  run (64 + 8 * rest.length) p (fun s => some s.used) ⟨prev, rest, 0⟩

/- The matches of a text from the left: how much text stands before each, and how long it is. -/
def spansFrom (at? : Option Char → List Char → Option Nat) :
    Option Char → Nat → Nat → List Char → List (Nat × Nat)
| _, _, _, [] => []
| _, skip + 1, _, c :: rest => spansFrom at? (some c) skip 0 rest
| prev, 0, gap, c :: rest =>
    match at? prev (c :: rest) with
    | some (n + 1) => (gap, n + 1) :: spansFrom at? (some c) n 0 rest
    | _ => spansFrom at? (some c) 0 (gap + 1) rest

def spans (p : Pattern) (text : List Char) : List (Nat × Nat) :=
  spansFrom (length? p) none 0 0 text

--
-- Writing Patterns
--

def lit (s : String) : Pattern :=
  match s.toList with
  | [] => .rep true (.one (fun _ => false)) 0 (some 0)
  | c :: cs => cs.foldl (fun p d => .seq p (.one (· = d))) (.one (· = c))

/- A literal up to the case of ASCII letters. -/
def litI (s : String) : Pattern :=
  match s.toList with
  | [] => .rep true (.one (fun _ => false)) 0 (some 0)
  | c :: cs =>
      cs.foldl
        (fun p d => .seq p (.one (·.toLower = d.toLower)))
        (.one (·.toLower = c.toLower))

def opt (p : Pattern) : Pattern :=
  .rep true p 0 (some 1)

/- At least `n` times. -/
def least (n : Nat) (p : Pattern) : Pattern :=
  .rep true p n none

/- Between `n` and `m` times. -/
def between (n m : Nat) (p : Pattern) : Pattern :=
  .rep true p n (some m)

/- One of the characters of a string. -/
def oneOf (s : String) : Char → Bool :=
  let cs := s.toList
  fun c => cs.contains c

def cat : List Pattern → Pattern
| [] => lit ""
| [p] => p
| p :: ps => .seq p (cat ps)

example :
    spans (cat [lit "a", least 1 (.one Char.isDigit)]) "xa12 a a7".toList = [(1, 3), (3, 2)] := by
  decide

end Pattern
