-- Interactions: the index tuples that a term is evaluated over, and the symbols
-- that stand for their places.
import EnergyGraph.Document.Basic
import EnergyGraph.Grid
import EnergyGraph.Interaction.Range

namespace EnergyGraph

namespace Interaction

/-- Where index tuples come from. -/
inductive Domain where
  /-- The empty tuple alone. -/
  | single
  /-- All tuples of several ranges, one for each symbol. -/
  | ranges (bounds : List Range)
  | tuples (items : List (List Int))
  /-- Lists of indices; the symbol runs over one list at a time. -/
  | groups (members : List (List Int))
  /-- The pairs of neighbours in a grid. -/
  | grid (shape : Shape) (connectivity : Grid.Connectivity)
  /-- A matrix; the symbol runs over its columns. -/
  | factor (matrix : Tensor Float)
deriving Inhabited

def Domain.kind : Domain → InteractionKind
  | .single => .none
  | .ranges _ => .allIndices
  | .tuples _ => .sparse
  | .groups _ => .groups
  | .grid .. => .laplacian
  | .factor _ => .lowRank

end Interaction

structure Interaction where
  id : String
  symbols : List String
  domain : Interaction.Domain
  /-- The number of the first cell of a grid and of the first column of a matrix. -/
  base : Int
deriving Inhabited

namespace Interaction

def kind (i : Interaction) : InteractionKind := i.domain.kind

/-! ## Enumeration -/

/-- The range of a symbol. A symbol that is not known makes no sense, and one that
is known may have no range. -/
def rangeOf (i : Interaction) (symbol : String) : Except Failure Range :=
  match i.symbols.findIdx? (· == symbol) with
  | none => Failure.refuse .badValue
  | some place =>
    match i.domain with
    | .ranges bounds =>
      match bounds[place]? with
      | some r => .ok r
      | none => Failure.refuse .badPosition
    | _ => Failure.refuse .badPosition

/-- A range that can be run through: the number of its values fits a machine word. -/
def countable (r : Range) : Except Failure Range :=
  if r.size < Nat.pow 2 63 then .ok r else Failure.refuse .tooLarge

/-- The ranges of some symbols, in their order. -/
def rangesOf (i : Interaction) (symbols : List String) : Except Failure (List Range) :=
  symbols.mapM fun s => do countable (← i.rangeOf s)

/-- Groups and matrices are no lists of tuples. -/
def noTuples {α : Type} (i : Interaction) : Except Failure α :=
  Failure.refuseWith .badValue
    s!"Interaction '{i.id}' of kind '{i.kind.name}' has no index-tuple enumeration."

/-- The tuples, in order; for ranges those of the chosen symbols. -/
def tuples (i : Interaction) (symbols : List String) : Except Failure (List (List Int)) :=
  match i.domain with
  | .single => .ok [[]]
  | .ranges _ => do .ok (Range.tuples (← i.rangesOf symbols))
  | .tuples items => .ok items
  | .grid shape c => .ok (Grid.pairs c shape i.base)
  | .groups _ | .factor _ => i.noTuples

/-- The first tuples, at most `limit` of them. -/
def firstTuples (i : Interaction) (limit : Nat) (symbols : List String) :
    Except Failure (List (List Int)) :=
  match i.domain with
  | .ranges _ => do .ok (Range.firstTuples limit (← i.rangesOf symbols))
  | _ => do .ok ((← i.tuples symbols).take limit)

/-- How many tuples, groups or rows there are. -/
def size (i : Interaction) (symbols : List String) : Except Failure Nat :=
  match i.domain with
  | .single => .ok 1
  | .ranges _ => do .ok (Range.tupleCount (← i.rangesOf symbols))
  | .tuples items => .ok items.length
  | .groups members => .ok members.length
  | .grid shape c => .ok (Grid.pairs c shape i.base).length
  | .factor matrix => .ok (matrix.shape.headD 0)

/-! ## Extents -/

/-- The smallest and the largest of some integers. -/
def extent? : List Int → Option (Int × Int)
  | [] => none
  | k :: rest => some (rest.foldl min k, rest.foldl max k)

/-- The number of columns of a matrix. -/
def columnCount (matrix : Tensor Float) : Nat := matrix.shape.getD 1 0

/-- The first and the last of some cells that are counted from a base. -/
def span? (base : Int) (count : Nat) : Option (Int × Int) :=
  if count = 0 then none else some (base, base + count - 1)

/-- A symbol with its extent, unless it takes no value. -/
def named (symbol : String) (extent : Option (Int × Int)) : List (String × Int × Int) :=
  match extent with
  | some e => [(symbol, e)]
  | none => []

/-- The smallest and the largest value of each symbol that takes any. -/
def extents (i : Interaction) : List (String × Int × Int) :=
  match i.domain with
  | .single => []
  | .ranges bounds =>
    (i.symbols.zip bounds).flatMap fun (s, r) =>
      named s (if r.low ≤ r.high then some (r.low, r.high) else none)
  | .tuples items =>
    i.symbols.zipIdx.flatMap fun (s, place) => named s (extent? (items.filterMap (·[place]?)))
  | .groups members => (i.symbols.take 1).flatMap fun s => named s (extent? members.flatten)
  | .grid shape _ =>
    i.symbols.flatMap fun s =>
      named s (if 1 < shape.cellCount then span? i.base shape.cellCount else none)
  | .factor matrix =>
    (i.symbols.take 1).flatMap fun s => named s (span? i.base (columnCount matrix))

end Interaction

end EnergyGraph
