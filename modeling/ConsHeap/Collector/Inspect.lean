import ConsHeap.Collector.Basic

/-!
# Inspection

What can be asked of a collector without changing it: the census of colors, the roots, the reachable
pairs, and whether the bookkeeping is consistent.
-/

namespace ConsHeap

namespace Collector

/-! ### Census -/

/-- The number of slots of a color. Void slots are those that the arena can hand out without a new
page. -/
def count (c : Collector) : Color → Nat
  | .void => c.store.arena.available
  | color => c.store.size color

/-- The slots of a color, in the order in which they are kept. -/
def conses (c : Collector) : Color → List PairId
  | .void => c.store.arena.voidSlots
  | color => (c.store.classes.members color).toList

/-- All rooted pairs. -/
def roots (c : Collector) : List PairId :=
  c.store.roots

/-- The reachable pairs, in the order in which they are found. -/
def reachable (c : Collector) : Except Fault (List PairId) :=
  match c.store.reachable with
  | .ok w => .ok w.found.toList
  | .error f => .error f

/-- The number of slots of all pages. -/
def totalSlots (c : Collector) : Nat :=
  c.store.arena.totalSlots

/-- Every slot that is not void, with its id, in the order of slot numbers. -/
def occupied (c : Collector) : List (PairId × Slot) :=
  (c.store.arena.slots.zipIdx.map fun (slot, n) => (PairId.ofNat n, slot)).filter
    fun (_, slot) => slot.color != .void

/-- The slots of all colors together. -/
def counted (c : Collector) : Nat :=
  Color.all.foldl (fun n color => n + c.count color) 0

/-! ### Consistency -/

/-- A condition that has to hold, and the fault if it does not. -/
def ensure (p : Prop) [Decidable p] (f : Fault) : Except Fault Unit :=
  if p then .ok () else .error f

/-- An edge of a live pair leads to a live pair, and from a scanned pair to a scanned or
grey one. -/
def checkEdge (c : Collector) (id : PairId) (color : Color) (child : PairId) :
    Except Fault Unit := do
  let slot ← c.slot child
  -- a child that is not live is reported as such, whatever the color of its parent
  ensure (slot.color.isLive = true) (.danglingEdge id slot.color child)
  ensure (¬(c.generation.isTo color = true ∧ c.generation.isFrom slot.color = true))
    (.unscannedChild id color child slot.color)

/-- A live pair has a root color exactly when it has roots, and its edges are in order. -/
def checkPair (c : Collector) (color : Color) (id : PairId) : Except Fault Unit := do
  let slot ← c.slot id
  ensure (color.isRoot = true ↔ 0 < slot.rootCount) (.rootCountMismatch id color slot.rootCount)
  slot.children.forM (c.checkEdge id color)

/-- All bookkeeping is consistent, or the first fault found: stamps, then the class of void slots,
then the number of slots, then roots and edges of the live pairs by color. -/
def sanity (c : Collector) : Except Fault Unit := do
  -- the stamps come first: the later checks read colors off the slots
  c.store.checkAll
  ensure (c.store.size .void = 0) .voidClassInUse
  ensure (c.counted = c.totalSlots) .slotsDoNotAddUp
  Color.live.forM fun color =>
    (c.store.classes.members color).toList.forM (c.checkPair color)

end Collector

end ConsHeap
