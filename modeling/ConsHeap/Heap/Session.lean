import ConsHeap.Collector.Client
import ConsHeap.Heap.Basic

/-!
# Session

A heap together with the handles that its user keeps, in a table. An operation that makes a handle
appends an entry; the entry is empty when there was no room or no value. A handle that is dropped
leaves an empty entry behind. So the handles that live are exactly the entries of the table.

An operation that names an empty or missing entry is not done at all. A list is made of the handles
themselves, not of copies, so neither is one that names an entry twice.
-/

namespace ConsHeap

/-- A heap, its handles, and what a program that works on the collector itself remembers. -/
structure Session where
  heap : Heap
  handles : Array (Option Handle) := #[]
  supply : Supply := {}

namespace Session

variable {α : Type}

/-! ### The table -/

/-- The heap taken out of a session, and the way to put it back. -/
def splitHeap : Session → Heap × (Heap → Session)
  | ⟨heap, handles, supply⟩ => (heap, fun heap => ⟨heap, handles, supply⟩)

/-- An action on the heap. -/
@[inline] def onHeap (a : Action Heap α) : Action Session α :=
  Action.focus splitHeap a

/-- The collector and its program taken out of a session, and the way to put them back. -/
def splitClient : Session → Client × (Client → Session)
  | ⟨⟨collector, symbols, ident⟩, handles, supply⟩ =>
    (⟨collector, supply⟩, fun
      | ⟨collector, supply⟩ => ⟨⟨collector, symbols, ident⟩, handles, supply⟩)

/-- An action of a program that works on the collector itself. -/
@[inline] def onClient (a : Action Client α) : Action Session α :=
  Action.focus splitClient a

/-- The place of an entry: numbers count from the start, negative ones from the end. -/
def place? (s : Session) (i : Int) : Option Nat :=
  if 0 ≤ i then some i.toNat
  else if -i ≤ s.handles.size then some (s.handles.size - (-i).toNat)
  else none

/-- The handle of an entry, if it has one. -/
def handle? (s : Session) (i : Int) : Option Handle :=
  (s.place? i).bind fun n => (s.handles[n]?).join

/-- The handles of some entries, if all have one and no entry is named twice. -/
def handles? (s : Session) (is : List Int) : Option (List Handle) :=
  -- two numbers may name one entry, so their places are compared
  if (is.map s.place?).Nodup then is.mapM s.handle? else none

/-- A new last entry. -/
def append (h : Option Handle) : Action Session Unit :=
  Action.update fun s => { s with handles := s.handles.push h }

/-- An entry emptied. -/
def clear (i : Int) : Action Session Unit :=
  Action.update fun s =>
    match s.place? i with
    | some n => { s with handles := s.handles.setIfInBounds n none }
    | none => s

/-! ### Operations -/

/-- An operation on handles. Entries of the table are named by number. -/
inductive Op where
  | nil
  | integer (value : Int64)
  | symbol (name : String)
  | string (text : String)
  | cons (car cdr : Int)
  | list (items : List Int)
  | clone (h : Int)
  | get (h : Int) (side : Collector.Side)
  /-- A new handle for the cell of a handle. -/
  | objectOf (h : Int)
  /-- A new handle for a pair named by id. -/
  | objectAt (id : PairId)
  | set (h : Int) (side : Collector.Side) (value : Int)
  | unset (h : Int) (side : Collector.Side)
  | drop (h : Int)
  /-- Drop a handle while a fault is under way, with the collector in use or not. -/
  | dropUnwinding (h : Int) (collectorInUse : Bool)
  | collect

/-- What an operation answers. -/
inductive Reply where
  | done
  | made (handle : Handle)
  | nothing
  | failed (error : HeapError)
  | dropped
  | disposed (pairs : Nat)

/-- The answer of an operation that makes a handle or fails; the table gains an entry. -/
def keep : Except HeapError Handle → Action Session Reply
  | .ok h => do
    append (some h)
    return .made h
  | .error e => do
    append none
    return .failed e

/-- The answer of an operation that makes a handle; the table gains an entry. -/
def keepMade (h : Handle) : Action Session Reply :=
  keep (.ok h)

/-- The answer of an operation that finds a handle or nothing; the table gains an entry. -/
def keepFound : Option Handle → Action Session Reply
  | some h => keepMade h
  | none => do
    append none
    return .nothing

/-- The answer of a write. -/
def written : Except HeapError Unit → Reply
  | .ok () => .done
  | .error e => .failed e

/-- Go on with the handle of an entry; without one, nothing is done. -/
@[inline] def withHandle (i : Int) (k : Handle → Action Session Reply) :
    Action Session (Option Reply) := do
  match ← Action.ask (·.handle? i) with
  | none => return none
  | some h => return some (← k h)

/-- Go on with the handles of some entries; unless all have one and no entry is named twice, nothing
is done. -/
@[inline] def withHandles (is : List Int) (k : List Handle → Action Session Reply) :
    Action Session (Option Reply) := do
  match ← Action.ask (·.handles? is) with
  | none => return none
  | some hs => return some (← k hs)

/-- Go on with the handles of two entries; unless both have one, nothing is done. -/
@[inline] def withTwo (i j : Int) (k : Handle → Handle → Action Session Reply) :
    Action Session (Option Reply) := do
  match ← Action.ask (·.handle? i) with
  | none => return none
  | some a => withHandle j (k a)

/-- Do one operation, if all entries it names have a handle, and those of a list are different. -/
def perform : Op → Action Session (Option Reply)
  | .nil => do
    return some (← keepMade (← onHeap Heap.nil))
  | .integer i => do
    return some (← keepMade (← onHeap (Heap.integer i)))
  | .symbol name => do
    return some (← keepMade (← onHeap (Heap.symbol name)))
  | .string text => do
    return some (← keepMade (← onHeap (Heap.string text)))
  | .cons i j => withTwo i j fun a b => do
    keep (← onHeap (Heap.cons a b))
  | .list is => withHandles is fun hs => do
    keep (← onHeap (Heap.list hs))
  | .clone i => withHandle i fun h => do
    keepMade (← onHeap (Heap.clone h))
  | .get i side => withHandle i fun h => do
    keepFound (← onHeap (Heap.get h side))
  | .objectOf i => withHandle i fun h => do
    keepMade (← onHeap (do Heap.object (← Heap.cellOf h)))
  | .objectAt id => do
    return some (← keepMade (← onHeap (Heap.object (.pair id))))
  | .set i side j => withTwo i j fun h value => do
    return written (← onHeap (Heap.set h side value))
  | .unset i side => withHandle i fun h => do
    return written (← onHeap (Heap.unset h side))
  | .drop i => withHandle i fun h => do
    clear i
    onHeap (Heap.drop h)
    return .done
  | .dropUnwinding i collectorInUse => withHandle i fun h => do
    clear i
    onHeap (Heap.dropUnwinding h collectorInUse)
    return .dropped
  | .collect => do
    return some (.disposed (← onHeap Heap.collect))

end Session

end ConsHeap
