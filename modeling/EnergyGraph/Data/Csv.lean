-- Tables of comma-separated cells. A cell in quotes may hold commas, line ends
-- and doubled quotes. Rows may differ in length.
import EnergyGraph.Data.Payload
import EnergyGraph.Text.Blank

namespace EnergyGraph.Csv

/-! ## Cells -/

inductive State where
  | fieldStart
  | inField
  | inQuotes
  /-- After a quote inside of quotes: the end of the quotes, unless another one follows. -/
  | afterQuote
deriving DecidableEq

/-- Cells and rows read so far, each with the latest first. -/
structure Reading where
  state : State
  cell : List Char
  row : List (List Char)
  rows : List (List (List Char))
  /-- Nothing of the present row has been read yet. -/
  atRowStart : Bool

namespace Reading

def start : Reading := ⟨.fieldStart, [], [], [], true⟩

def add (r : Reading) (c : Char) (state : State) : Reading :=
  { r with cell := c :: r.cell, state, atRowStart := false }

def endCell (r : Reading) : Reading :=
  { r with cell := [], row := r.cell.reverse :: r.row, state := .fieldStart, atRowStart := false }

/-- Ends the row; a row of which nothing was read has no cells. -/
def endRow (r : Reading) : Reading :=
  if r.atRowStart then { r with rows := [] :: r.rows }
  else
    let r := r.endCell
    { r with row := [], rows := r.row.reverse :: r.rows, atRowStart := true }

def step (r : Reading) (c : Char) : Reading :=
  match r.state with
  | .fieldStart =>
    if c = '\n' then r.endRow
    else if c = '"' then { r with state := .inQuotes, atRowStart := false }
    else if c = ',' then r.endCell
    else r.add c .inField
  | .inField =>
    if c = '\n' then r.endRow else if c = ',' then r.endCell else r.add c .inField
  | .inQuotes =>
    if c = '"' then { r with state := .afterQuote } else r.add c .inQuotes
  | .afterQuote =>
    if c = '"' then r.add c .inQuotes
    else if c = ',' then r.endCell
    else if c = '\n' then r.endRow
    else r.add c .inField

end Reading

/-- The rows of a table; the last line need not be ended. -/
def rows (text : String) : List (List String) :=
  let r := (Text.unifyLineEnds text.toList).foldl Reading.step Reading.start
  let r := if r.atRowStart then r else r.endRow
  r.rows.reverse.map (·.map String.ofList)

/-! ## Numbers -/

/-- A cell as an integer, or else as a double. -/
def number (cell : String) : Except Failure Value :=
  match Decimal.readInt? cell with
  | some n => .ok (.int n)
  | none =>
    match Decimal.readFloat? cell with
    | some x => .ok (.float x)
    | none => Failure.refuse .badValue

/-- The most characters of a cell. -/
def longestCell : Nat := 131072

/-- A row whose first cell starts with a number sign is a comment. -/
def isComment (cells : List String) : Bool :=
  match cells with
  | [] => false
  | first :: _ =>
    match first.toList.dropWhile Text.isBlank with
    | '#' :: _ => true
    | _ => false

/-- The numbers of a row; blank cells are left out. An empty row and a comment have none. -/
def numbersOf (row : List String) : Except Failure (List Value) := do
  if row.any fun c => c.length > longestCell then Failure.refuse .cellTooLong
  let filled := row.filter fun c => Text.trim c != ""
  if isComment filled then .ok [] else filled.mapM number

/-- The numbers of a table, without rows that have none. A table of one column is a list. -/
def read (text : String) : Except Failure Payload := do
  let numbers := (← (rows text).mapM numbersOf).filter fun row => !row.isEmpty
  let isColumn := !numbers.isEmpty && numbers.all fun row => row.length == 1
  Payload.ofValue (.list (if isColumn then numbers.flatten else numbers.map .list))

end EnergyGraph.Csv
