import ConsHeap.Generation
import ConsHeap.Options.Basic
import ConsHeap.Store.Reach
import ConsHeap.Store.Size

/-!
# Collector

The state of the collector: the store, the managed objects that cells hold, the roles of white and
black, the options, and the statistics. Pairs that handles hold are counted as roots; all others
live as long as marking reaches them. Between two operations no pair of the `to` generation holds a
pair of the `from` generation.
-/

namespace ConsHeap

/-- What a collector did so far. -/
structure Stats where
  pagesAllocated : Nat := 0
  pairsAllocated : Nat := 0
  steps : Nat := 0
  generationSwaps : Nat := 0
  fullCycles : Nat := 0
  /-- Pairs found unreachable, by a generation swap or by a full cycle. -/
  pairsDisposed : Nat := 0
  /-- Pairs returned to the arena. -/
  pairsRecycled : Nat := 0
  deriving DecidableEq, Repr

/-- A heap of pairs with its bookkeeping. -/
structure Collector where
  store : Store
  objects : Objects
  generation : Generation
  options : Options
  stats : Stats

namespace Collector

/-- A collector without pages, for valid options. White is the first `from` color. -/
def empty (o : Options) (h : o.Valid) : Collector :=
  { store := { arena := .empty o.pageSize o.maxPages h.pageSize_pos, classes := {} }
    objects := {}
    generation := .white
    options := o
    stats := {} }

/-- A collector without pages, or what is wrong with its options. -/
def create (o : Options) : Except HeapError Collector :=
  match h : o.problem? with
  | some e => .error e
  | none => .ok (empty o (Options.problem?_eq_none.1 h))

/-- The slot of an id; an id outside all pages is a fault. -/
def slot (c : Collector) (id : PairId) : Except Fault Slot :=
  c.store.slot id

/-! ### Actions on the parts -/

variable {α : Type}

/-- The store taken out of a collector, and the way to put it back. -/
def splitStore : Collector → Store × (Store → Collector)
  | ⟨store, objects, generation, options, stats⟩ =>
    (store, fun store => ⟨store, objects, generation, options, stats⟩)

/-- An action on the store. -/
@[inline] def onStore (a : Action Store α) : Action Collector α :=
  Action.focus splitStore a

/-- The arena taken out of a collector, and the way to put it back. -/
def splitArena : Collector → Arena × (Arena → Collector)
  | ⟨⟨arena, classes⟩, objects, generation, options, stats⟩ =>
    (arena, fun arena => ⟨⟨arena, classes⟩, objects, generation, options, stats⟩)

/-- An action on the arena. -/
@[inline] def onArena (a : Action Arena α) : Action Collector α :=
  Action.focus splitArena a

/-- The managed objects replaced. -/
@[inline] def onObjects (f : Objects → Objects) : Action Collector Unit :=
  Action.update fun ⟨store, objects, generation, options, stats⟩ =>
    ⟨store, f objects, generation, options, stats⟩

/-- The statistics replaced. -/
@[inline] def tally (f : Stats → Stats) : Action Collector Unit :=
  Action.update fun ⟨store, objects, generation, options, stats⟩ =>
    ⟨store, objects, generation, options, f stats⟩

/-- One slot changed. -/
@[inline] def modifySlot (id : PairId) (f : Slot → Slot) : Action Collector Unit :=
  Action.update fun ⟨⟨arena, classes⟩, objects, generation, options, stats⟩ =>
    ⟨⟨arena.modify id f, classes⟩, objects, generation, options, stats⟩

/-- A cell dropped: its managed object, if any, loses a reference. -/
def discard (cell : Cell) : Action Collector Unit :=
  onObjects (·.discard cell)

theorem onStore_eq_ok {a : Action Store α} {t u : Traced Collector} {x : α} :
    onStore a t = .ok x u ↔
      ∃ m, a ⟨t.state.store, t.events⟩ = .ok x m ∧
        u = ⟨{ t.state with store := m.state }, m.events⟩ :=
  Action.focus_eq_ok

end Collector

end ConsHeap
