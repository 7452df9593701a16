import ConsHeap.Color
import ConsHeap.PairId

/-!
# Faults

A fault stops an operation where it stands: the caller broke the rooting or write discipline, or
named a slot that does not exist. Everything done before the fault stays done. Each constructor is
one cause, and `Fault.message` is its text.
-/

namespace ConsHeap

/-- The cause of a fault. -/
inductive Fault where
  -- Arithmetic and indices
  /-- A place outside a sequence was named. -/
  | indexOutOfBounds (len index : Nat)
  /-- A number was divided by zero. -/
  | divideByZero
  /-- A root count exceeded its word. -/
  | addOverflow
  /-- An arena was asked for with empty pages. -/
  | emptyPages
  -- Color classes
  /-- A pair was to be placed into the class of void slots. -/
  | voidClass
  /-- A class was to be moved into itself. -/
  | sameClass
  /-- A pair was to be removed from a class whose color it does not carry. -/
  | wrongClass (id : PairId) (color owner : Color)
  /-- The recorded position of a pair does not hold that pair. -/
  | wrongPosition (id : PairId) (index : Nat) (owner : Color)
  /-- A member of a class carries another color. -/
  | miscolored (id : PairId) (owner color : Color)
  /-- A member of a class records another position. -/
  | misplaced (id : PairId) (position : Nat) (owner : Color) (index : Nat)
  -- Root protocol and write barrier
  /-- A first root was asked for on a pair that is no bulk pair. -/
  | cannotRoot (id : PairId) (color : Color)
  /-- A further root was asked for on a pair that is not rooted. -/
  | cannotRetain (id : PairId) (color : Color) (roots : Nat)
  /-- A root was given back on a pair that is not rooted. -/
  | cannotUnroot (id : PairId) (color : Color) (roots : Nat)
  /-- A pair that is not live was written to. -/
  | deadTarget (color : Color) (id : PairId)
  /-- An edge leads to a pair that is not live. -/
  | deadEdge (color : Color) (id : PairId)
  /-- A handle found its pair without a root. -/
  | unrootedHandle (id : PairId) (color : Color)
  -- Consistency of the whole heap
  /-- The class of void slots has members. -/
  | voidClassInUse
  /-- The classes and the arena together do not hold every slot once. -/
  | slotsDoNotAddUp
  /-- A root color without roots, or the other way round. -/
  | rootCountMismatch (id : PairId) (color : Color) (roots : Nat)
  /-- A live pair holds one that is not live. -/
  | danglingEdge (id : PairId) (color : Color) (child : PairId)
  /-- A scanned pair holds one that the current generation has not reached. -/
  | unscannedChild (id : PairId) (color : Color) (child : PairId) (childColor : Color)
  deriving DecidableEq

/-- The text of a fault. -/
def Fault.message : Fault → String
  | indexOutOfBounds len index => s!"index out of bounds: the len is {len} but the index is {index}"
  | divideByZero => "attempt to divide by zero"
  | addOverflow => "attempt to add with overflow"
  | emptyPages => "page size must be positive"
  | voidClass => "void slots belong to the allocator"
  | sameClass => "assertion failed: from != to"
  | wrongClass id color owner => s!"pair {id.text} is {color.name}, not in the {owner.name} class"
  | wrongPosition id index owner =>
    s!"pair {id.text} claims index {index} in the {owner.name} class"
  | miscolored id owner color =>
    s!"pair {id.text} sits in the {owner.name} class but is colored {color.name}"
  | misplaced id position owner index =>
    s!"pair {id.text} sits at {position} in the {owner.name} class but records {index}"
  | cannotRoot id color => s!"cannot root pair {id.text}: it is {color.name}"
  | cannotRetain id color roots =>
    s!"cannot retain pair {id.text}: it is {color.name} with {roots} roots"
  | cannotUnroot id color roots =>
    s!"cannot unroot pair {id.text}: it is {color.name} with {roots} roots"
  | deadTarget color id => s!"write into {color.name} pair {id.text}"
  | deadEdge color id => s!"edge to {color.name} pair {id.text}"
  | unrootedHandle id color => s!"object holds pair {id.text} but it is {color.name}"
  | voidClassInUse => "void slots must stay with the allocator"
  | slotsDoNotAddUp => "colored slots do not add up to the slots of all pages"
  | rootCountMismatch id color roots => s!"pair {id.text} is {color.name} with {roots} roots"
  | danglingEdge id color child =>
    s!"live pair {id.text} points at {color.name} pair {child.text}"
  | unscannedChild id color child childColor =>
    s!"scanned pair {id.text} ({color.name}) points at unscanned pair {child.text} " ++
      s!"({childColor.name})"

end ConsHeap
