import ConsHeap.Collector.Mark

/-!
# Mutators

What the user of the heap does to pairs: allocate one, take and release roots on it, and overwrite
its car or cdr. Each operation checks the discipline it relies on, faults if that is broken, and
pays for a bounded amount of marking or recycling.

Cells that are passed in are owned by the operation: their references end up in the heap or are
released, also when the operation fails.
-/

namespace ConsHeap

namespace Collector

/-! ### Allocation -/

/-- Color a slot just handed out, store its cells, and grey what it holds. The allocation is only
counted when all of that succeeded. -/
def settle (id : PairId) (car cdr : Cell) : Action Collector Unit := do
  let color ← Action.ask (·.generation.fromRoot)
  onStore (Store.add id color)
  modifySlot id fun slot => { slot with rootCount := 1, car, cdr }
  -- the pair itself is not scanned yet; its children are greyed ahead of that
  greyChildren id
  let pages ← Action.ask (·.store.arena.pageCount)
  tally fun s => { s with pairsAllocated := s.pairsAllocated + 1, pagesAllocated := pages }
  Action.report (.allocated id color)

/-- Allocate a pair. It is rooted once, in the `from` generation, and its maker owns that root.
Recycling runs before the slot is taken and marking after the cells are stored. -/
def make (car cdr : Cell) : Action Collector (Except HeapError PairId) := do
  runRecycle
  match ← onArena Arena.next with
  | .error e =>
    -- nobody else will release the cells
    discard car
    discard cdr
    return .error e
  | .ok id =>
    settle id car cdr
    runGarbage
    return .ok id

/-! ### Roots -/

/-- The largest root count. -/
def maxRoots : Nat :=
  UInt32.size - 1

/-- Turn a bulk pair into the rooted twin of its color, with one root. Its scan state is kept. -/
def root (id : PairId) : Action Collector Unit := do
  let slot ← Action.query (·.slot id)
  Action.require (slot.color.isBulk = true) (.cannotRoot id slot.color)
  onStore (Store.move id slot.color.toRoot)
  modifySlot id fun slot => { slot with rootCount := 1 }
  runGarbage
  runRecycle

/-- One more root on a rooted pair. -/
def retain (id : PairId) : Action Collector Unit := do
  let slot ← Action.query (·.slot id)
  Action.require (slot.color.isRoot = true ∧ 0 < slot.rootCount)
    (.cannotRetain id slot.color slot.rootCount)
  Action.require (slot.rootCount < maxRoots) .addOverflow
  modifySlot id fun slot => { slot with rootCount := slot.rootCount + 1 }

/-- One more root on a pair, rooted or not. -/
def acquire (id : PairId) : Action Collector Unit := do
  let slot ← Action.query (·.slot id)
  if slot.color.isRoot then retain id else root id

/-- A rooted pair without roots goes to the bulk twin of its color. -/
def demote (id : PairId) (color : Color) : Action Collector Unit :=
  onStore (Store.move id color.toBulk)

/-- One root less on a rooted pair; the answer is whether that was the last one. -/
def unroot (id : PairId) : Action Collector Bool := do
  let slot ← Action.query (·.slot id)
  Action.require (slot.color.isRoot = true ∧ 0 < slot.rootCount)
    (.cannotUnroot id slot.color slot.rootCount)
  modifySlot id fun slot => { slot with rootCount := slot.rootCount - 1 }
  -- the pair is demoted before any marking, which may dispose of it at once
  if slot.rootCount = 1 then demote id slot.color else pure ()
  runGarbage
  runRecycle
  return slot.rootCount == 1

/-! ### Writes -/

/-- The two sides of a pair. -/
inductive Side where
  | car
  | cdr
  deriving DecidableEq, Repr

/-- The cell on one side of a pair. -/
def Side.get (side : Side) (slot : Slot) : Cell :=
  match side with
  | .car => slot.car
  | .cdr => slot.cdr

/-- A pair with the cell on one side replaced. -/
def Side.set (side : Side) (value : Cell) (slot : Slot) : Slot :=
  match side with
  | .car => { slot with car := value }
  | .cdr => { slot with cdr := value }

/-- The slot of a pair that may be written to. -/
def target (id : PairId) : Action Collector Slot := do
  let slot ← Action.query (·.slot id)
  Action.require (slot.color.isLive = true) (.deadTarget slot.color id)
  return slot

/-- The write barrier. A pair that gains an edge must not be missed by the current generation, so
it is greyed, and the write pays for marking. -/
def barrier : Option PairId → Action Collector Unit
  | none => pure ()
  | some child => do
    greyChild child
    runGarbage

/-- Replace the cell on one side of a live pair. The cell that stood there is released, or the new
one if the write is refused. -/
def write (id : PairId) (side : Side) (value : Cell) : Action Collector Unit := do
  let slot ← Action.onFault (target id) (discard value)
  -- the edge stands before the new child is greyed and any marking runs
  modifySlot id (side.set value)
  discard (side.get slot)
  barrier value.pair?

end Collector

end ConsHeap
