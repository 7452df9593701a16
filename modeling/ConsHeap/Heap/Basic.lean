import ConsHeap.Collector.Op
import ConsHeap.SymbolTable

/-!
# Heap

A collector with a table of symbols, as its users see it. Values leave a heap only inside handles,
and a handle of a pair owns one root on it, so the collector never has to search for references from
outside. A heap has an identity, and handles of different heaps are never equal.
-/

namespace ConsHeap

/-- A collector, the symbols interned in it, and the identity that its handles carry. -/
structure Heap where
  collector : Collector
  symbols : SymbolTable := {}
  ident : Nat := 0

/-- A rooted reference to a value of a heap. -/
structure Handle where
  heap : Nat
  cell : Cell
  deriving DecidableEq

namespace Heap

variable {α : Type}

/-- A heap without pairs, or what is wrong with its options. -/
def create (o : Options) : Except HeapError Heap :=
  (Collector.create o).map fun collector => { collector }

/-- What is reported when a heap is asked for, whether or not it can be had. -/
def creation (o : Options) : Event :=
  .heapCreated o.pageSize o.garbageSteps o.recycleSteps

/-- The collector taken out of a heap, and the way to put it back. -/
def splitCollector : Heap → Collector × (Collector → Heap)
  | ⟨collector, symbols, ident⟩ => (collector, fun collector => ⟨collector, symbols, ident⟩)

/-- An action on the collector. -/
@[inline] def onCollector (a : Action Collector α) : Action Heap α :=
  Action.focus splitCollector a

/-- The slot of an id; an id outside all pages is a fault. -/
def slot (h : Heap) (id : PairId) : Except Fault Slot :=
  h.collector.slot id

/-- The managed objects of the heap. -/
def objects (h : Heap) : Objects :=
  h.collector.objects

/-- A handle for a cell whose reference and root the caller already owns. -/
def adopt (cell : Cell) : Action Heap Handle :=
  Action.ask fun h => ⟨h.ident, cell⟩

/-- A cell copied: its managed object, if any, gains a reference. -/
def acquire (cell : Cell) : Action Heap Unit :=
  onCollector (Collector.onObjects (·.acquire cell))

/-- A cell dropped: its managed object, if any, loses a reference. -/
def discard (cell : Cell) : Action Heap Unit :=
  onCollector (Collector.discard cell)

/-! ### Values that are not pairs -/

/-- The empty list. -/
def nil : Action Heap Handle :=
  adopt .nil

/-- An integer. -/
def integer (i : Int64) : Action Heap Handle :=
  adopt (.integer i)

/-- The symbol of a name: the same one as long as something holds it. -/
def symbol (name : String) : Action Heap Handle := do
  let o ← Action.updateGet fun
    | ⟨⟨store, objects, generation, options, stats⟩, symbols, ident⟩ =>
      match symbols.intern objects name with
      | (o, symbols, objects) =>
        (o, ⟨⟨store, objects, generation, options, stats⟩, symbols, ident⟩)
  adopt (.managed o)

/-- A new string. -/
def string (text : String) : Action Heap Handle := do
  let o ← onCollector <| Action.updateGet fun ⟨store, objects, generation, options, stats⟩ =>
    match objects.alloc ⟨.string, text⟩ with
    | (o, objects) => (o, ⟨store, objects, generation, options, stats⟩)
  adopt (.managed o)

/-! ### Handles of pairs -/

/-- A handle for a cell: its pair, if any, gains a root. -/
def object (cell : Cell) : Action Heap Handle := do
  match cell.pair? with
  | some id => onCollector (Collector.acquire id)
  | none => pure ()
  adopt cell

/-- The cell that a handle holds, copied. The handle owns a root, so its pair has a root color; if
it has not, the root counts were corrupted. -/
def cellOf (h : Handle) : Action Heap Cell := do
  match h.cell.pair? with
  | some id =>
    let slot ← Action.query (·.slot id)
    Action.require (slot.color.isRoot = true) (.unrootedHandle id slot.color)
  | none => pure ()
  acquire h.cell
  return h.cell

/-- One more handle on the same value. -/
def clone (h : Handle) : Action Heap Handle := do
  match h.cell.pair? with
  | some id => onCollector (Collector.retain id)
  | none => pure ()
  acquire h.cell
  return h

/-- Give a handle up: its pair, if any, loses a root. -/
def drop (h : Handle) : Action Heap Unit := do
  match h.cell.pair? with
  | some id =>
    let _ ← onCollector (Collector.unroot id)
    pure ()
  | none => pure ()
  discard h.cell

/-- Give a handle up while a fault is under way. If the collector is in use by whoever faulted, the
root stays behind for ever; otherwise the handle is dropped as usual. -/
def dropUnwinding (h : Handle) (collectorInUse : Bool) : Action Heap Unit :=
  if collectorInUse then discard h.cell else drop h

/-- The root count of the pair that a handle holds, and zero for other values. -/
def rootCount (heap : Heap) (h : Handle) : Except Fault Nat :=
  match h.cell.pair? with
  | some id => (heap.slot id).map (·.rootCount)
  | none => .ok 0

/-- The text of a handle. -/
def describe (heap : Heap) (h : Handle) : Except Fault String :=
  (heap.rootCount h).map fun n =>
    "Object \x7b cell: " ++ h.cell.text heap.objects ++ ", root_count: " ++ toString n ++ " \x7d"

/-- The strong count of the managed object that a handle holds. The cell is copied as for any other
use, so an unrooted pair is noticed here too; the copy is dropped before the count is taken. -/
def strongOf (h : Handle) : Action Heap (Option Nat) := do
  let cell ← cellOf h
  discard cell
  Action.ask fun heap => cell.managed?.map heap.objects.strong

/-! ### Pairs -/

/-- Allocate a pair. The handle owns the root that the pair starts with. -/
def cons (car cdr : Handle) : Action Heap (Except HeapError Handle) := do
  -- the pair owns its cells, so those of the handles are copied
  let a ← cellOf car
  let b ← Action.onFault (cellOf cdr) (discard a)
  match ← onCollector (Collector.make a b) with
  | .ok id => return .ok (← adopt (.pair id))
  | .error e => return .error e

/-- The part of a list built so far, extended at its front by one value after another. The handle
of the old front is dropped once the new front holds it; if there is no room, the list built so far
is given up. -/
def prepend : List Handle → Handle → Action Heap (Except HeapError Handle)
  | [], tail => return .ok tail
  | item :: rest, tail => do
    match ← Action.onFault (cons item tail) (drop tail) with
    | .error e =>
      drop tail
      return .error e
    | .ok front =>
      -- the root on the old front is not needed any more: the new front leads to it
      Action.onFault (drop tail) (drop front)
      prepend rest front

/-- The list of some values, ended by nil. -/
def list (items : List Handle) : Action Heap (Except HeapError Handle) := do
  -- from the back, so that every pair is made after the one it holds
  let tail ← nil
  prepend items.reverse tail

/-- A handle of what one side of a pair holds; other values have no sides. -/
def get (h : Handle) (side : Collector.Side) : Action Heap (Option Handle) := do
  match h.cell.pair? with
  | none => return none
  | some id =>
    -- the pair keeps its cell, so the new handle works on a copy
    let slot ← Action.query (·.slot id)
    acquire (side.get slot)
    return some (← object (side.get slot))

/-- The error of writing to one side of something that is not a pair. -/
def notAPair : Collector.Side → HeapError
  | .car => .notAPair "set-car! target"
  | .cdr => .notAPair "set-cdr! target"

/-- Overwrite one side of a pair with the value of a handle. -/
def set (h : Handle) (side : Collector.Side) (value : Handle) :
    Action Heap (Except HeapError Unit) := do
  match h.cell.pair? with
  | none => return .error (notAPair side)
  | some id =>
    let cell ← cellOf value
    onCollector (Collector.write id side cell)
    return .ok ()

/-- Overwrite one side of a pair with nil. -/
def unset (h : Handle) (side : Collector.Side) : Action Heap (Except HeapError Unit) := do
  match h.cell.pair? with
  | none => return .error (notAPair side)
  | some id =>
    onCollector (Collector.write id side .nil)
    return .ok ()

/-! ### Collection -/

/-- Forget the dead symbols; the answer is how many there were. -/
def prune : Action Heap Nat :=
  Action.updateGet fun h =>
    (h.symbols.dead h.objects, { h with symbols := h.symbols.prune h.objects })

/-- Collect everything that no handle reaches, then forget the symbols that died. The answer is the
number of pairs found unreachable. -/
def collect : Action Heap Nat := do
  -- symbols die when the last pair that holds them is returned to the arena
  let disposed ← onCollector Collector.cycle
  let dead ← prune
  Action.report (.collected disposed dead)
  return disposed

end Heap

end ConsHeap
