import ConsHeap.Collector.Mark

/-!
# Full cycle

The stop-the-world collection. Reachability is computed directly, all classes are emptied, and every
pair is either put back, into a class of the `to` generation, or returned to the arena. White is the
`from` color afterwards, so the next step starts a fresh generation.

A reachable pair is put back according to the color it carries, so one that was already disposed of
but is reachable through a broken edge comes back as a bulk pair.
-/

namespace ConsHeap

namespace Collector

/-- Which pairs are reachable, and how many. No room is reserved for them: at most all slots that are
not vacant are found, and that difference is never negative (`Collector.Sound.available_le`). -/
def keepers (c : Collector) : Except Fault ((PairId → Bool) × Nat) :=
  match c.store.reachable with
  | .ok w => .ok (w.has, w.found.size)
  | .error f => .error f

/-- The members of some classes, in order, taken out of them. As for reachable pairs, no room is
reserved. -/
def gather : List Color → Action Collector (List PairId)
  | [] => return []
  | c :: rest => do
    let ids ← onStore (Store.classTake c)
    return ids.toList ++ (← gather rest)

/-- The classes that a full cycle empties: those of live pairs, then that of disposed ones. -/
def cycleOrder : List Color :=
  Color.live ++ [.free]

/-- The color of a pair that survives a full cycle. -/
def survivorColor (g : Generation) (old : Color) : Color :=
  if old.isRoot then g.toRoot else g.toColor

/-- How many pairs a full cycle gave back, and how many of them were live until then. -/
structure Sifted where
  disposed : Nat := 0
  recycled : Nat := 0

/-- Keep one pair or give it back. -/
def siftOne (keep : PairId → Bool) (id : PairId) : Action Collector Sifted := do
  let slot ← Action.query (·.slot id)
  if keep id then
    let generation ← Action.ask (·.generation)
    onStore (Store.add id (survivorColor generation slot.color))
    return {}
  else
    -- a free pair was counted as disposed of when it became free
    recycleSlot id
    return { disposed := if slot.color = .free then 0 else 1, recycled := 1 }

/-- Keep some of the pairs and give the others back, in order. -/
def sift (keep : PairId → Bool) : List PairId → Sifted → Action Collector Sifted
  | [], total => return total
  | id :: rest, total => do
    let one ← siftOne keep id
    sift keep rest ⟨total.disposed + one.disposed, total.recycled + one.recycled⟩

/-- The roles of white and black as they were at first. -/
def resetGeneration : Action Collector Unit :=
  Action.update fun ⟨store, objects, _, options, stats⟩ =>
    ⟨store, objects, .white, options, stats⟩

/-- Collect everything that no root reaches. The answer is the number of pairs that were live until
now. -/
def cycle : Action Collector Nat := do
  -- reachability is read off the root classes, so it comes before these are emptied
  let (keep, reachable) ← Action.query keepers
  let members ← gather cycleOrder
  resetGeneration
  let sifted ← sift keep members {}
  tally fun s =>
    { s with
      fullCycles := s.fullCycles + 1
      pairsDisposed := s.pairsDisposed + sifted.disposed
      pairsRecycled := s.pairsRecycled + sifted.recycled }
  Action.report (.fullCycle reachable sifted.disposed sifted.recycled)
  return sifted.disposed

end Collector

end ConsHeap
