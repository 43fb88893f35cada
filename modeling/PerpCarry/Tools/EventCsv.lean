import PerpCarry.Book.Replayer

/-!
# Tools.EventCsv

The CSV reading of `cpp/tools/event_csv.cpp`: the header check, the cutting of a line into fields,
the parsing of a field and the one-row lookahead of `EventStream`.

A text is a list of characters. A vector is never asked whether an index is inside it: `operator[]`
outside is `Fault.outOfRange`, which no handler of the program sees.

* `rows`: what a stream delivers when it is read to its end.
* `rows_pending`: the row in hand, then the rows of the stream after one `advance`.
-/

namespace PerpCarry
namespace Tools

/-- How a tool stops before it returns. -/
inductive Fault where
  | threw (e : Error)
  | outOfRange (index size : Nat)
  deriving DecidableEq

abbrev Field := List Char

def failure (what : String) : Fault := .threw (.validationError what)

def kEventColumns : List String :=
  ["timestamp", "local_timestamp", "is_snapshot", "side", "price", "quantity"]

def kReferenceColumns : List String := ["timestamp", "side", "level", "price", "quantity"]

/-! ## A line into fields -/

def quotes : Char := '\x22'

def unquote (field : Field) : Field :=
  if 2 ≤ field.length ∧ field.head? = some quotes ∧ field.getLast? = some quotes then
    (field.drop 1).take (field.length - 2)
  else field

def split (line : List Char) : List Field := (line.splitOn ',').map unquote

/-- `fields[i]`. -/
def fieldAt (fields : List Field) (i : Nat) : Except Fault Field :=
  match fields[i]? with
  | some field => .ok field
  | none => .error (.outOfRange i fields.length)

/-! ## A field into a value -/

def digitsValue (digits : List Char) : Nat := digits.foldl (fun n d => 10 * n + (d.toNat - 48)) 0

/-- A leading minus sign and what follows it. Neither a plus sign nor blanks are skipped. -/
def signed : List Char → Bool × List Char
  | '-' :: rest => (true, rest)
  | text => (false, text)

/-- `std::from_chars` into an `int64_t`: the value and the characters behind it. -/
def fromCharsInt (text : List Char) : Option (Int × List Char) :=
  let (negative, body) := signed text
  let (digits, rest) := body.span Char.isDigit
  let value : Int := if negative then -digitsValue digits else digitsValue digits
  if digits.isEmpty then none
  else if -2 ^ 63 ≤ value ∧ value < 2 ^ 63 then some (value, rest)
  else none

/-- A word in either case, and what follows it. -/
def dropWord (word : String) (text : List Char) : Option (List Char) :=
  if (text.take word.length).map Char.toLower = word.toList then some (text.drop word.length)
  else none

/-- The exponent part, when it is complete. -/
def exponent (text : List Char) : Int × List Char :=
  match text with
  | 'e' :: rest | 'E' :: rest =>
    let (negative, body) := match rest with
      | '+' :: body => (false, body)
      | _ => signed rest
    let (digits, rest') := body.span Char.isDigit
    if digits.isEmpty then (0, text)
    else (if negative then -digitsValue digits else digitsValue digits, rest')
  | _ => (0, text)

/-- `n * 10 ^ e`. -/
def scaled (n : Nat) (e : Int) : ℚ :=
  if 0 ≤ e then n * 10 ^ e.toNat else n / 10 ^ (-e).toNat

/-- Digits with at most one point among them, and an exponent. -/
def fromCharsDecimal (text : List Char) : Option (ℚ × List Char) :=
  let (whole, afterWhole) := text.span Char.isDigit
  let (fraction, afterFraction) := match afterWhole with
    | '.' :: rest => rest.span Char.isDigit
    | _ => ([], afterWhole)
  if whole.isEmpty && fraction.isEmpty then none
  else
    let (e, rest) := exponent afterFraction
    some (scaled (digitsValue (whole ++ fraction)) (e - fraction.length), rest)

/-- The optional text in brackets behind `nan`. -/
def dropNanPayload (text : List Char) : List Char :=
  match text with
  | '(' :: rest =>
    match rest.dropWhile fun c => c.isAlphanum || c == '_' with
    | ')' :: rest' => rest'
    | _ => text
  | _ => text

/-- `std::from_chars` into a `double`. A number that rounds to an infinity, or to zero without being
zero, is out of range. -/
def fromCharsDouble (rnd : Rounding) (text : List Char) : Option (Double × List Char) :=
  let (negative, body) := signed text
  match dropWord "infinity" body, dropWord "inf" body, dropWord "nan" body with
  | some rest, _, _ => some (.infinity negative, rest)
  | none, some rest, _ => some (.infinity negative, rest)
  | none, none, some rest => some (.nan, dropNanPayload rest)
  | none, none, none =>
    match fromCharsDecimal body with
    | none => none
    | some (magnitude, rest) =>
      let value := rnd (if negative then -magnitude else magnitude)
      if !value.isFinite || (value.eq .zero && magnitude ≠ 0) then none else some (value, rest)

def parseInt (field : Field) (what : String) : Except Fault Int :=
  match fromCharsInt field with
  | some (value, []) => .ok value
  | _ => .error (failure
      ("could not parse " ++ what ++ " as an integer: '" ++ String.ofList field ++ "'"))

def parseDouble (rnd : Rounding) (field : Field) (what : String) : Except Fault Double :=
  match fromCharsDouble rnd field with
  | some (value, []) => .ok value
  | _ => .error (failure
      ("could not parse " ++ what ++ " as a number: '" ++ String.ofList field ++ "'"))

def parseSide (field : Field) : Except Fault Side :=
  if field = "bid".toList then .ok .bid
  else if field = "ask".toList then .ok .ask
  else .error (failure ("unknown side '" ++ String.ofList field ++ "', expected bid or ask"))

def parseBool (field : Field) : Except Fault Bool :=
  if field = "true".toList ∨ field = "1".toList then .ok true
  else if field = "false".toList ∨ field = "0".toList then .ok false
  else .error (failure ("unknown boolean '" ++ String.ofList field ++ "'"))

/-! ## The line reader -/

/-- The lines that `std::getline` hands out, call after call. A final newline opens no line. -/
def getlines (text : List Char) : List (List Char) :=
  let lines := text.splitOn '\n'
  if lines.getLast? = some [] then lines.dropLast else lines

def chomp (line : List Char) : List Char :=
  if line.getLast? = some '\r' then line.dropLast else line

/-- The lines not read yet. -/
abbrev CsvReader := List (List Char)

namespace CsvReader

/-- The header's names from column `i` on. -/
def checkColumns (what : String) : Nat → List Field → List String → Except Fault Unit
  | i, field :: fields, name :: expected =>
    if field ≠ name.toList then
      .error (failure (what ++ " csv column " ++ toString i ++ " is '" ++ String.ofList field ++
        "', expected '" ++ name ++ "'"))
    else checkColumns what (i + 1) fields expected
  | _, _, _ => .ok ()

def make (text : List Char) (expected : List String) (what : String) : Except Fault CsvReader :=
  match getlines text with
  | [] => .error (failure (what ++ " csv is empty: expected a header row"))
  | line :: lines =>
    let fields := split (chomp line)
    if fields.length ≠ expected.length then
      .error (failure (what ++ " csv has " ++ toString fields.length ++ " columns, expected " ++
        toString expected.length))
    else
      match checkColumns what 0 fields expected with
      | .error f => .error f
      | .ok () => .ok lines

/-- The fields of the next line that is not blank. -/
def next : CsvReader → Option (List Field × CsvReader)
  | [] => none
  | line :: lines =>
    if (chomp line).isEmpty then next lines else some (split (chomp line), lines)

end CsvReader

/-! ## One row of lookahead -/

/-- A reader and the row in hand, which is there exactly when `has_` is true. -/
structure Lookahead (α : Type) where
  csv : CsvReader
  pending : Option α := none

namespace Lookahead

variable {α : Type} (read : List Field → Except Fault α)

def advance (s : Lookahead α) : Except Fault (Lookahead α) :=
  match s.csv.next with
  | none => .ok { csv := [] }
  | some (fields, csv) =>
    match read fields with
    | .error f => .error f
    | .ok row => .ok { csv, pending := some row }

/-- The lines that are left, with the one in hand. -/
def left (s : Lookahead α) : Nat :=
  match s.pending with
  | none => 0
  | some _ => s.csv.length + 1

/-- The rows of the lines that are not blank. -/
def lineRows : CsvReader → Except Fault (List α)
  | [] => .ok []
  | line :: lines =>
    if (chomp line).isEmpty then lineRows lines
    else
      match read (split (chomp line)) with
      | .error f => .error f
      | .ok row => (lineRows lines).map (row :: ·)

/-- What reading to the end delivers. -/
def rows (s : Lookahead α) : Except Fault (List α) :=
  match s.pending with
  | none => .ok []
  | some row => (lineRows read s.csv).map (row :: ·)

end Lookahead

def readEvent (rnd : Rounding) (fields : List Field) : Except Fault BookUpdate := do
  let timestamp ← parseInt (← fieldAt fields 0) "event timestamp"
  let localTimestamp ← parseInt (← fieldAt fields 1) "event local_timestamp"
  let isSnapshot ← parseBool (← fieldAt fields 2)
  let side ← parseSide (← fieldAt fields 3)
  let price ← parseDouble rnd (← fieldAt fields 4) "event price"
  let quantity ← parseDouble rnd (← fieldAt fields 5) "event quantity"
  return { timestamp, localTimestamp, isSnapshot, side, price, quantity }

abbrev EventStream := Lookahead BookUpdate

namespace EventStream

def advance (rnd : Rounding) (s : EventStream) : Except Fault EventStream :=
  Lookahead.advance (readEvent rnd) s

def make (rnd : Rounding) (text : List Char) : Except Fault EventStream :=
  match CsvReader.make text kEventColumns "events" with
  | .error f => .error f
  | .ok csv => advance rnd { csv }

end EventStream

/-! ## Reading to the end -/

namespace Lookahead

variable {α : Type} {read : List Field → Except Fault α} {s s' : Lookahead α}

theorem rows_none (h : s.pending = none) : s.rows read = .ok [] := by
  unfold rows
  rw [h]

theorem lineRows_next (csv : CsvReader) :
    lineRows read csv =
      match csv.next with
      | none => .ok []
      | some (fields, rest) =>
        match read fields with
        | .error f => .error f
        | .ok row => (lineRows read rest).map (row :: ·) := by
  induction csv with
  | nil => rfl
  | cons line lines ih =>
    by_cases hblank : (chomp line).isEmpty
    · simp only [lineRows, CsvReader.next, if_pos hblank]
      exact ih
    · simp only [lineRows, CsvReader.next, if_neg hblank]

/-- An `advance` that returns leaves the lines behind the next row. -/
theorem advance_rows (h : s.advance read = .ok s') : s'.rows read = lineRows read s.csv := by
  rw [lineRows_next]
  unfold advance at h
  cases hnext : s.csv.next with
  | none =>
    rw [hnext] at h
    cases h
    rfl
  | some found =>
    obtain ⟨fields, csv⟩ := found
    rw [hnext] at h
    simp only at h ⊢
    cases hread : read fields with
    | error f => rw [hread] at h; cases h
    | ok row =>
      rw [hread] at h
      cases h
      rfl

theorem rows_pending {row : α} (hp : s.pending = some row) (h : s.advance read = .ok s') :
    s.rows read = (s'.rows read).map (row :: ·) := by
  rw [advance_rows h]
  unfold rows
  rw [hp]

theorem next_length {csv csv' : CsvReader} {fields : List Field}
    (h : csv.next = some (fields, csv')) : csv'.length < csv.length := by
  induction csv with
  | nil => cases h
  | cons line lines ih =>
    unfold CsvReader.next at h
    split at h
    · have := ih h
      exact this.trans (Nat.lt_succ_self _)
    · cases h
      exact Nat.lt_succ_self _

theorem advance_left {row : α} (hp : s.pending = some row) (h : s.advance read = .ok s') :
    s'.left < s.left := by
  have hleft : s.left = s.csv.length + 1 := by rw [left, hp]
  rw [hleft]
  unfold advance at h
  cases hnext : s.csv.next with
  | none =>
    rw [hnext] at h
    cases h
    exact Nat.succ_pos _
  | some found =>
    obtain ⟨fields, csv⟩ := found
    rw [hnext] at h
    simp only at h
    cases hread : read fields with
    | error f => rw [hread] at h; cases h
    | ok row' =>
      rw [hread] at h
      cases h
      have := next_length hnext
      show csv.length + 1 < _
      omega

end Lookahead

end Tools
end PerpCarry
