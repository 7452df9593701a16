import ConsHeap.Arena
import ConsHeap.Classes

/-!
# Store

An arena together with the color classes of its slots. Each member of a class carries the color of
the class and its position in the slot itself, so a member is found without a search, and taking it
out patches the position of the one member that moves.

An operation that finds the two sides in disagreement faults. The operations come in two layers.
The `class…` ones act on a single class and trust their caller with the color; the others keep void
slots with the arena: a pair may be placed into any class but `void`.

* `Store.size_enlist`, `Store.size_delist` — what putting in and taking out do to the sizes of the
  classes; everything that counts pairs builds on these.
-/

namespace ConsHeap

/-- Slots, and the class of each color. -/
structure Store where
  arena : Arena
  classes : Classes

namespace Store

/-- The number of members of a class. -/
def size (s : Store) (c : Color) : Nat :=
  s.classes.size c

/-- The slot of an id; an id outside all pages is a fault. -/
def slot (s : Store) (id : PairId) : Except Fault Slot :=
  s.arena.slot id

/-! ### State changes -/

/-- A pair put at the end of a class and stamped with its color and position. -/
def enlist (s : Store) (c : Color) (id : PairId) : Store :=
  let position := s.classes.size c
  { arena := s.arena.modify id fun slot => { slot with color := c, index := position }
    classes := s.classes.push c id }

/-- The slot of the pair at a position, if there is one, records that position. -/
def patch (s : Store) (c : Color) (position : Nat) : Store :=
  match (s.classes.members c)[position]? with
  | some moved =>
    { s with arena := s.arena.modify moved fun slot => { slot with index := position } }
  | none => s

/-- The member at a position taken out; the member that fills the gap records its new position. -/
def delist (s : Store) (c : Color) (position : Nat) : Store :=
  { s with classes := s.classes.swapRemove c position }.patch c position

/-- All members of one class put at the end of another, in order. -/
def drain (s : Store) (source target : Color) : Nat × Store :=
  match s.classes.take source with
  | (ids, classes) =>
    (ids.size, ids.foldl (fun s id => s.enlist target id) { s with classes := classes })

/-! ### Operations on one class -/

/-- Add a pair to a class. -/
def classAdd (id : PairId) (c : Color) : Action Store Unit := do
  let _ ← Action.query (·.slot id)
  Action.update (·.enlist c id)

/-- Take a pair out of a class. Its slot has to carry the color of the class and the position at
which the class holds it. -/
def classRemove (id : PairId) (c : Color) : Action Store Unit := do
  let slot ← Action.query (·.slot id)
  Action.require (slot.color = c) (.wrongClass id slot.color c)
  -- the stamp is checked against the class, not trusted: the gap is filled by position
  let found ← Action.ask fun s => (s.classes.members c)[slot.index]?
  Action.require (found = some id) (.wrongPosition id slot.index c)
  Action.update (·.delist c slot.index)

/-- Take the last member out of a class. -/
def classPop (c : Color) : Action Store (Option PairId) :=
  Action.updateGet fun ⟨arena, classes⟩ =>
    match classes.pop c with
    | (id?, classes) => (id?, ⟨arena, classes⟩)

/-- Take all members out of a class. Their slots keep their stamps. -/
def classTake (c : Color) : Action Store (Array PairId) :=
  Action.updateGet fun ⟨arena, classes⟩ =>
    match classes.take c with
    | (ids, classes) => (ids, ⟨arena, classes⟩)

/-- The members of a class from a position on carry its color and their positions; the first one
that does not is the fault. -/
def checkMembers (s : Store) (c : Color) : Nat → List PairId → Except Fault Unit
  | _, [] => .ok ()
  | position, id :: rest => do
    let slot ← s.slot id
    if slot.color ≠ c then .error (.miscolored id c slot.color)
    else if slot.index ≠ position then .error (.misplaced id position c slot.index)
    else s.checkMembers c (position + 1) rest

/-- Every member of a class carries its color and its position. -/
def check (s : Store) (c : Color) : Except Fault Unit :=
  s.checkMembers c 0 (s.classes.members c).toList

/-- Every member of every class carries its color and its position. -/
def checkAll (s : Store) : Except Fault Unit :=
  Color.all.forM s.check

/-! ### Operations that keep void slots with the arena -/

/-- Add a pair to a class that is not `void`. -/
def add (id : PairId) (c : Color) : Action Store Unit := do
  Action.require (c ≠ .void) .voidClass
  classAdd id c

/-- Take a pair out of the class whose color it carries. -/
def remove (id : PairId) : Action Store Unit := do
  let slot ← Action.query (·.slot id)
  classRemove id slot.color

/-- Move a pair from its class to another one. -/
def move (id : PairId) (target : Color) : Action Store Unit := do
  remove id
  -- the slot carries its old color until it is stamped here
  add id target

/-- Move the last member of a class to another class. -/
def popInto (source target : Color) : Action Store (Option PairId) := do
  match ← classPop source with
  | none => return none
  | some id =>
    add id target
    return some id

/-- Move all members of a class to another class; the answer is their number. -/
def moveAll (source target : Color) : Action Store Nat := do
  Action.require (source ≠ target) .sameClass
  Action.updateGet (·.drain source target)

/-! ### Sizes -/

theorem size_enlist {s : Store} {c d : Color} {id : PairId} :
    (s.enlist c id).size d = if d = c then s.size c + 1 else s.size d :=
  Classes.size_push

theorem classes_patch {s : Store} {c : Color} {i : Nat} : (s.patch c i).classes = s.classes := by
  unfold patch
  split <;> rfl

theorem size_delist {s : Store} {c d : Color} {i : Nat} :
    (s.delist c i).size d = if d = c then s.size c - 1 else s.size d := by
  rw [size, delist, classes_patch]
  exact Classes.size_swapRemove

end Store

end ConsHeap
