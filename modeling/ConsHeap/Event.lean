import ConsHeap.Color
import ConsHeap.PairId

/-!
# Events

What an operation reports while it runs, in order. Most events have a line of text with a level;
a generation swap that disposed of nothing happens all the same but is not written.
-/

namespace ConsHeap

/-- One thing that happened. -/
inductive Event where
  -- Pages
  | pageAllocated (page totalSlots : Nat)
  | pageLimitReached (pages : Nat)
  | slotNumbersExhausted
  -- Pairs
  | allocated (id : PairId) (color : Color)
  | scanned (id : PairId) (source target : Color)
  | recycled (id : PairId)
  -- Whole generations and whole heaps
  | swapped (disposed : Nat) (fromColor : Color)
  | fullCycle (kept disposed returned : Nat)
  | heapCreated (pageSize garbageSteps recycleSteps : Nat)
  | collected (disposed deadSymbols : Nat)
  deriving DecidableEq

namespace Event

/-- The line written for an event, if it has one. -/
def message? : Event → Option String
  | pageAllocated page totalSlots =>
    some s!"DEBUG allocated pair page {page} ({totalSlots} slots total)"
  | pageLimitReached pages => some s!"WARN pair heap exhausted: page limit of {pages} reached"
  | slotNumbersExhausted => some "WARN pair heap exhausted: slot numbers would overflow"
  | allocated id color => some s!"TRACE allocated pair {id.text} as {color.name}"
  | scanned id source target =>
    some s!"TRACE scanned pair {id.text}: {source.name} -> {target.name}"
  | recycled id => some s!"TRACE recycled pair {id.text}"
  | swapped 0 _ => none
  | swapped disposed fromColor =>
    some <| s!"DEBUG generation swap: {disposed} pairs disposed, " ++
      s!"from color is now {fromColor.name}"
  | fullCycle kept disposed returned =>
    some s!"DEBUG full cycle: {kept} reachable, {disposed} disposed, {returned} recycled"
  | heapCreated pageSize garbageSteps recycleSteps =>
    some <| s!"DEBUG creating heap: {pageSize} pairs per page, " ++
      s!"{garbageSteps} gc steps, {recycleSteps} recycle steps"
  | collected disposed deadSymbols =>
    some s!"DEBUG collect: {disposed} pairs disposed, {deadSymbols} dead symbols dropped"

/-- The lines written for a sequence of events. -/
def messages (events : List Event) : List String :=
  events.filterMap message?

end Event

end ConsHeap
