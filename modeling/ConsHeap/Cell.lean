import ConsHeap.PairId
import ConsHeap.Objects
import ConsHeap.Text.Quoted

/-!
# Cells

A cell is what a pair holds on either side, and what a handle holds: nil, a 64-bit integer, a
reference to a pair, or a reference to a managed object. A pair reference owns nothing, since the
collector alone decides how long a pair lives; a managed reference counts, so a cell is acquired
when it is copied and discarded when it is overwritten or dropped.

Equality of cells is identity: managed cells are equal when they hold the same object.
-/

namespace ConsHeap

/-- A value held by a pair or by a handle. -/
inductive Cell where
  | nil
  | integer (value : Int64)
  | pair (id : PairId)
  | managed (object : ObjectId)
  deriving DecidableEq, Inhabited

/-- The tag of a cell. -/
inductive CellKind where
  | nil
  | integer
  | pair
  | managed
  deriving DecidableEq, Repr

namespace Cell

/-! ### Views -/

def kind : Cell → CellKind
  | nil => .nil
  | integer _ => .integer
  | pair _ => .pair
  | managed _ => .managed

def integer? : Cell → Option Int64
  | integer i => some i
  | _ => none

def pair? : Cell → Option PairId
  | pair id => some id
  | _ => none

def managed? : Cell → Option ObjectId
  | managed o => some o
  | _ => none

def isPair (c : Cell) : Bool :=
  c.kind == .pair

/-- The object that a cell holds, looked up. -/
def object? (os : Objects) (c : Cell) : Option Managed :=
  c.managed?.bind os.value?

/-- The name of the symbol that a cell holds. -/
def symbol? (os : Objects) (c : Cell) : Option String :=
  match c.object? os with
  | some ⟨.symbol, name⟩ => some name
  | _ => none

/-- Two cells have the same content when they hold equal objects, or when neither holds one. -/
def sameText (os : Objects) (a b : Cell) : Bool :=
  a.object? os == b.object? os

/-- The cell made from the payload of a cell. -/
def rebuilt (c : Cell) : Cell :=
  match c.integer?, c.pair?, c.managed? with
  | some i, _, _ => integer i
  | _, some id, _ => pair id
  | _, _, some o => managed o
  | none, none, none => default

theorem rebuilt_eq (c : Cell) : c.rebuilt = c := by
  cases c <;> rfl

/-! ### Text -/

/-- The text of a managed object: a symbol after an apostrophe, a string in quotes. -/
def objectText : Managed → String
  | ⟨.symbol, name⟩ => "'" ++ name
  | ⟨.string, text⟩ => Text.Quoted.quote text

/-- The text of a cell. -/
def text (os : Objects) : Cell → String
  | nil => "nil"
  | integer i => toString i.toInt
  | pair id => "pair" ++ id.text
  | managed o => ((os.value? o).map objectText).getD ""

end Cell

/-! ### References held by cells -/

namespace Objects

/-- A cell was copied: its object, if any, is held once more. -/
def acquire (os : Objects) : Cell → Objects
  | .managed o => os.retain o
  | _ => os

/-- A cell was dropped: its object, if any, is held once less. -/
def discard (os : Objects) : Cell → Objects
  | .managed o => os.release o
  | _ => os

end Objects

end ConsHeap
