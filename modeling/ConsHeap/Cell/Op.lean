import ConsHeap.Cell.Table

/-!
# Operations on cells

The operations on a table of cells as data, so that a run is a list of them. Cells are made by
interning a name, out of a value, or for an object from elsewhere; then they are copied, moved,
overwritten, dropped and compared. The symbols are pruned when the program asks for it.
-/

namespace ConsHeap

namespace CellTable

/-- An operation on the table. Entries are named by number. -/
inductive Op where
  | intern (name : String)
  /-- A cell of a new object that is not interned. -/
  | adopt (m : Managed)
  /-- A cell that holds no object. -/
  | plain (c : Cell) (unmanaged : c.managed? = none)
  | clone (i : Nat)
  | take (i : Nat)
  | assign (i j : Nat)
  | unset (i : Nat)
  | drop (i : Nat)
  | equal (i j : Nat)
  | prune

/-- What an operation answers. -/
inductive Reply where
  | entry (i : Nat)
  | done
  | truth (b : Bool)
  | pruned (entries : Nat)
  deriving DecidableEq

/-- Whether two entries hold the same: the same value, or the same object. -/
def equal (i j : Nat) : Action CellTable Bool := do
  let a ← Action.query (·.cell i)
  let b ← Action.query (·.cell j)
  return a == b

/-- Do one operation. -/
def perform : Op → Action CellTable Reply
  | .intern name => do
    return .entry (← intern name)
  | .adopt m => do
    return .entry (← adopt m)
  | .plain c _ => do
    return .entry (← push c)
  | .clone i => do
    return .entry (← clone i)
  | .take i => do
    return .entry (← take i)
  | .assign i j => do
    assign i j
    return .done
  | .unset i => do
    unset i
    return .done
  | .drop i => do
    drop i
    return .done
  | .equal i j => do
    return .truth (← equal i j)
  | .prune => do
    return .pruned (← prune)

/-- Do some operations in order. -/
def execute : List Op → Action CellTable (List Reply)
  | [] => return []
  | op :: ops => do
    let reply ← perform op
    let replies ← execute ops
    return reply :: replies

def Op.isPrune : Op → Bool
  | prune => true
  | _ => false

def Reply.isPruned : Reply → Bool
  | pruned _ => true
  | _ => false

end CellTable

end ConsHeap
