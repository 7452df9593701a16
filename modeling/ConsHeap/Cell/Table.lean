import ConsHeap.Action
import ConsHeap.Cell.Literal

/-!
# Cell table

Cells outside any heap: a growing table of them, the managed objects they hold, and one symbol
table. Each entry owns the reference it holds, so copying an entry acquires, and overwriting one
releases what stood there.
-/

namespace ConsHeap

/-- A table of cells with the objects and symbols behind them. -/
structure CellTable where
  cells : Array Cell := #[]
  objects : Objects := {}
  symbols : SymbolTable := {}

namespace CellTable

/-- The cell of an entry; an entry that does not exist is a fault. -/
def cell (t : CellTable) (i : Nat) : Except Fault Cell :=
  match t.cells[i]? with
  | some c => .ok c
  | none => .error (.indexOutOfBounds t.cells.size i)

/-- Append a cell that the table owns from now on; the answer is the number of the entry. -/
def push (c : Cell) : Action CellTable Nat :=
  Action.updateGet fun t => (t.cells.size, { t with cells := t.cells.push c })

/-- The table with an entry replaced. The reference of the new cell is not counted here. -/
def put (i : Nat) (c : Cell) : Action CellTable Unit :=
  Action.update fun t => { t with cells := t.cells.setIfInBounds i c }

/-- One more reference to what a cell holds. -/
def acquire (c : Cell) : Action CellTable Unit :=
  Action.update fun t => { t with objects := t.objects.acquire c }

/-- One reference less to what a cell holds. -/
def discard (c : Cell) : Action CellTable Unit :=
  Action.update fun t => { t with objects := t.objects.discard c }

/-- Append the symbol of a name. -/
def intern (name : String) : Action CellTable Nat := do
  let o ← Action.updateGet fun t =>
    match t.symbols.intern t.objects name with
    | (o, symbols, objects) => (o, { t with symbols := symbols, objects := objects })
  push (.managed o)

/-- Append a cell of a new object. The symbol table knows nothing of it, even if it is a symbol. -/
def adopt (m : Managed) : Action CellTable Nat := do
  let o ← Action.updateGet fun t =>
    match t.objects.alloc m with
    | (o, objects) => (o, { t with objects := objects })
  push (.managed o)

/-- Append a copy of an entry. -/
def clone (i : Nat) : Action CellTable Nat := do
  let c ← Action.query (·.cell i)
  acquire c
  push c

/-- Append what an entry holds and leave nil behind. -/
def take (i : Nat) : Action CellTable Nat := do
  let c ← Action.query (·.cell i)
  put i .nil
  push c

/-- Overwrite an entry with a copy of another one. -/
def assign (i j : Nat) : Action CellTable Unit := do
  let new ← Action.query (·.cell j)
  let old ← Action.query (·.cell i)
  -- both may hold the same object, so it gains its reference before it loses one
  acquire new
  put i new
  discard old

/-- Overwrite an entry with nil. -/
def unset (i : Nat) : Action CellTable Unit := do
  let old ← Action.query (·.cell i)
  put i .nil
  discard old

/-- Take an entry out of the table. Those behind it move up. -/
def drop (i : Nat) : Action CellTable Unit := do
  let old ← Action.query (·.cell i)
  Action.update fun t => { t with cells := t.cells.eraseIdxIfInBounds i }
  discard old

/-- Forget the dead symbols; the answer is how many there were. -/
def prune : Action CellTable Nat :=
  Action.updateGet fun t =>
    (t.symbols.dead t.objects, { t with symbols := t.symbols.prune t.objects })

end CellTable

end ConsHeap
