import Tracelane.Lib.Bytes

/-
  Server-sent events as the gateway cuts and reads them, and as a client reads them.

  The gateway looks for the first blank line and, within a frame, for the first `data:` line.  A
  client ends a line at a line feed, a carriage return, or both, and joins the data lines of an
  event.
-/

namespace Tracelane.Native

open List

--
-- The Gateway
--

def findSub (needle : Bytes) : Bytes → Option Nat
| [] => none
| b :: rest =>
    if needle.isPrefixOf (b :: rest) then some 0
    else (findSub needle rest).map (· + 1)

/- Where the first complete frame ends. -/
def frameEnd (buf : Bytes) : Option Nat :=
  match findSub [10, 10] buf, findSub [13, 10, 13, 10] buf with
  | some a, some b => if a ≤ b then some (a + 2) else some (b + 4)
  | some a, none => some (a + 2)
  | none, some b => some (b + 4)
  | none, none => none

/- The first complete frame, and what is left. -/
def splitFrame (buf : Bytes) : Option (Bytes × Bytes) :=
  (frameEnd buf).map (fun last => (buf.take last, buf.drop last))

/- `std::str::from_utf8(raw).is_ok()`. -/
def validUtf8 (b : Bytes) : Bool :=
  utf8 (ofChars (decodeUtf8 b)) == b

/- `split('\n')`. -/
def splitLines : Bytes → List Bytes
| [] => [[]]
| b :: rest =>
    if b = 10 then [] :: splitLines rest
    else
      match splitLines rest with
      | [] => [[b]]
      | line :: more => (b :: line) :: more

def stripCr (line : Bytes) : Bytes :=
  if line.getLast? = some 13 then line.dropLast else line

def stripSpace (b : Bytes) : Bytes :=
  if b.head? = some 32 then b.tail else b

def dataName : Bytes := [100, 97, 116, 97, 58]

/- The value of a `data:` line. -/
def dataValue (line : Bytes) : Option Bytes :=
  if dataName.isPrefixOf line then
    some (stripSpace (line.drop 5))
  else none

/- The `data:` payload of a frame, if it has one. -/
def frameData (raw : Bytes) : Option Bytes :=
  if validUtf8 raw then
    (splitLines raw).findSome? (fun line => dataValue (stripCr line))
  else none

theorem splitFrame_append {buf raw rest : Bytes} (hSplit : splitFrame buf = some (raw, rest)) :
    raw ++ rest = buf := by
  rcases Option.map_eq_some_iff.mp hSplit with ⟨last, _, hEq⟩
  cases hEq
  exact take_append_drop last buf

--
-- The Client
--

/- A client between two bytes of the stream. -/
structure Reader where
  line : Bytes := []
  afterCr : Bool := false
  data : List Bytes := []
deriving DecidableEq

namespace Reader

/- A field other than `data` is of no account here. -/
def fieldData (line : Bytes) : List Bytes :=
  if line = dataName.dropLast then [[]]
  else (dataValue line).toList

/- A blank line dispatches the event, if it has data. -/
def endLine (r : Reader) : Reader × List Bytes :=
  if r.line = [] then
    ({ r with data := [] },
      if r.data = [] then [] else [[10].intercalate r.data])
  else
    ({ r with line := [], data := r.data ++ fieldData r.line },
      [])

def feed (r : Reader) (b : UInt8) : Reader × List Bytes :=
  if b = 10 ∧ r.afterCr = true then
    -- The second half of a line end.
    ({ r with afterCr := false }, [])
  else if b = 10 ∨ b = 13 then
    ({ r.endLine.1 with afterCr := b == 13 }, r.endLine.2)
  else ({ r with line := r.line ++ [b], afterCr := false }, [])

/- The data of the events that these bytes complete. -/
def read (r : Reader) : Bytes → Reader × List Bytes
| [] => (r, [])
| b :: rest =>
    let first := r.feed b
    let later := read first.1 rest
    (later.1, first.2 ++ later.2)

theorem read_append (r : Reader) (b c : Bytes) :
    r.read (b ++ c) = (((r.read b).1.read c).1, (r.read b).2 ++ ((r.read b).1.read c).2) := by
  induction b generalizing r with
  | nil => rfl
  | cons x rest ih =>
    simp only [cons_append, read, ih, append_assoc]

/- Bytes that end no line. -/
def unbroken (b : Bytes) : Bool :=
  b.all (fun x => x != 10 && x != 13)

theorem read_unbroken (b : Bytes) (line : Bytes) (data : List Bytes)
    (hUnbroken : unbroken b = true) :
    read { line, data } b = ({ line := line ++ b, data }, []) := by
  induction b generalizing line with
  | nil => simp [read]
  | cons x rest ih =>
    simp only [unbroken, all_cons, Bool.and_eq_true, bne_iff_ne] at hUnbroken
    have hFeed : feed { line, data } x = ({ line := line ++ [x], data }, []) := by
      simp [feed, hUnbroken.1.1, hUnbroken.1.2]
    rw [read, hFeed]
    simp only
    rw [ih _ hUnbroken.2]
    simp

/- A line that says nothing of data, and its end. -/
theorem read_line (b : Bytes) (data : List Bytes) (hUnbroken : unbroken b = true) (hSome : b ≠ []) :
    read { data } (b ++ [10]) = ({ data := data ++ fieldData b }, []) := by
  rw [read_append, read_unbroken b [] data hUnbroken]
  simp [read, feed, endLine, hSome]

variable (payload : Bytes)

/- A data line without its end. -/
theorem read_dataLine (hPayload : unbroken payload = true) :
    read {} (dataName ++ (32 :: payload)) = ({ line := dataName ++ (32 :: payload) }, []) := by
  refine read_unbroken _ [] [] ?_
  simp only [unbroken] at hPayload
  simp [unbroken, dataName, hPayload]

theorem fieldData_dataLine :
    fieldData (dataName ++ (32 :: payload)) = [payload] := by
  simp [fieldData, dataName, dataValue, stripSpace]

/- Without a name line, as on the Gemini wire. -/
theorem read_data (hPayload : unbroken payload = true) :
    read {} ((dataName ++ (32 :: payload)) ++ [13, 10, 13, 10]) = ({}, [payload]) := by
  have hSome : dataName ++ (32 :: payload) ≠ [] := by simp [dataName]
  rw [read_append, read_dataLine payload hPayload]
  simp [read, feed, endLine, fieldData_dataLine, hSome]

theorem read_dataLf (hPayload : unbroken payload = true) :
    read {} ((dataName ++ (32 :: payload)) ++ [10, 10]) = ({}, [payload]) := by
  have hSome : dataName ++ (32 :: payload) ≠ [] := by simp [dataName]
  rw [read_append, read_dataLine payload hPayload]
  simp [read, feed, endLine, fieldData_dataLine, hSome]

/- An event of one data line, as the gateway builds them. -/
theorem read_event (name payload : Bytes) (hName : unbroken name = true)
    (hSome : name ≠ []) (hOther : fieldData name = []) (hPayload : unbroken payload = true) :
    read {} ((name ++ [10]) ++ ((dataName ++ (32 :: payload) ++ [10]) ++ [10])) =
      ({}, [payload]) := by
  rw [read_append, read_line name [] hName hSome, hOther, append_nil, append_assoc]
  simp only [cons_append, nil_append]
  rw [read_dataLf payload hPayload]

end Reader

/-
  A client that is between events reads from the frame the one event that the gateway read, and is
  between events again.
-/
def tidy (raw : Bytes) : Bool :=
  Reader.read {} raw == ({}, (frameData raw).toList)

end Tracelane.Native
