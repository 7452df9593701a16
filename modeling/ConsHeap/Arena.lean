import ConsHeap.Action
import ConsHeap.Cell
import ConsHeap.Error

/-!
# Arena

The slots of the heap, in pages of one size. The arena hands out a recycled slot if there is one
(the last one recycled first), else the next uncarved slot of the newest page, else the first slot
of a new page, unless the page limit or the 32-bit slot numbers forbid it.

The view of an arena is `Arena.slot?`. The statements that the rest of the library reads it by are

* `Arena.slot?_isSome` — a slot exists exactly when its number is below `totalSlots`;
* `Arena.slot?_modify_self`, `Arena.slot?_modify_ne` — a write changes the slot it names and no
  other.
-/

namespace ConsHeap

/-! ### Slots -/

/-- A pair, or the room for one. `color` and `index` say which color class holds the pair and where;
`rootCount` is the number of handles that hold it. -/
structure Slot where
  car : Cell := .nil
  cdr : Cell := .nil
  color : Color := .void
  rootCount : Nat := 0
  index : Nat := 0
  deriving DecidableEq, Inhabited

/-- The pairs that a pair holds, car first. -/
def Slot.children (s : Slot) : List PairId :=
  s.car.pair?.toList ++ s.cdr.pair?.toList

/-- The page of a slot and its place there; there is no such place in empty pages. -/
def PairId.locate (id : PairId) (pageSize : Nat) : Except Fault (Nat × Nat) :=
  if pageSize = 0 then .error .divideByZero else .ok (id.page pageSize, id.offset pageSize)

/-! ### The arena -/

/-- Pages of slots. Slots of the newest page from `cursor` on have never been handed out; `freeList`
holds the recycled slots, the newest first. -/
structure Arena where
  pageSize : Nat
  pageSize_pos : 0 < pageSize
  maxPages : Option Nat
  pages : Array (Vector Slot pageSize)
  cursor : Nat
  freeList : List PairId

namespace Arena

/-- An arena without pages. The cursor stands at the end, so the first request asks for a page. -/
def empty (pageSize : Nat) (maxPages : Option Nat) (h : 0 < pageSize) : Arena :=
  { pageSize, pageSize_pos := h, maxPages, pages := #[], cursor := pageSize, freeList := [] }

/-- An arena without pages; empty pages are refused. -/
def create (pageSize : Nat) (maxPages : Option Nat) : Except Fault Arena :=
  if h : 0 < pageSize then .ok (empty pageSize maxPages h) else .error .emptyPages

/-- The number of pages. -/
def pageCount (a : Arena) : Nat :=
  a.pages.size

/-- The number of slots of all pages, whatever their color. -/
def totalSlots (a : Arena) : Nat :=
  a.pageCount * a.pageSize

/-- The number of slots that can be handed out without a new page. -/
def available (a : Arena) : Nat :=
  a.freeList.length + (a.pageSize - a.cursor)

/-- Whether an id names a slot of some page. -/
def contains (a : Arena) (id : PairId) : Bool :=
  id.index < a.totalSlots

/-- The slots of the newest page that were never handed out. -/
def uncarved (a : Arena) : List PairId :=
  -- without pages there is no newest one, and the cursor means nothing
  if a.pageCount = 0 then []
  else
    (List.range' ((a.pageCount - 1) * a.pageSize + a.cursor) (a.pageSize - a.cursor)).map
      PairId.ofNat

/-- Every slot that can be handed out without a new page: the recycled ones, of which the last is
handed out next, then the uncarved ones. -/
def voidSlots (a : Arena) : List PairId :=
  a.freeList.reverse ++ a.uncarved

/-! ### Reading and writing a slot -/

/-- The place of a slot inside its page. -/
def place (a : Arena) (id : PairId) : Fin a.pageSize :=
  ⟨id.offset a.pageSize, Nat.mod_lt _ a.pageSize_pos⟩

/-- The slot of an id, if its page exists. -/
def slot? (a : Arena) (id : PairId) : Option Slot :=
  a.pages[id.page a.pageSize]?.map fun p => p.get (a.place id)

/-- The fault of naming a slot outside all pages. -/
def outside (a : Arena) (id : PairId) : Fault :=
  .indexOutOfBounds a.pageCount (id.page a.pageSize)

/-- The slot of an id; an id outside all pages is a fault. -/
def slot (a : Arena) (id : PairId) : Except Fault Slot :=
  match a.slot? id with
  | some s => .ok s
  | none => .error (a.outside id)

/-- The arena after a write to one slot. -/
def modify (a : Arena) (id : PairId) (f : Slot → Slot) : Arena :=
  { a with
    pages := a.pages.modify (id.page a.pageSize) fun p =>
      ⟨p.toArray.modify (id.offset a.pageSize) f, by simp⟩ }

/-- All slots in the order of their numbers. -/
def slots (a : Arena) : List Slot :=
  a.pages.toList.flatMap fun p => p.toList

theorem slot?_isSome {a : Arena} {id : PairId} :
    (a.slot? id).isSome = true ↔ id.index < a.totalSlots := by
  rw [slot?, Option.isSome_map]
  simp only [getElem?_def]
  split
  · rename_i h
    exact iff_of_true rfl ((Nat.div_lt_iff_lt_mul a.pageSize_pos).1 h)
  · rename_i h
    exact iff_of_false (by simp) fun hi => h ((Nat.div_lt_iff_lt_mul a.pageSize_pos).2 hi)

theorem index_lt_of_slot? {a : Arena} {id : PairId} {x : Slot} (hx : a.slot? id = some x) :
    id.index < a.totalSlots := by
  rw [← slot?_isSome, hx]
  rfl

/-- A slot can be read exactly when it exists. -/
theorem slot_eq_ok {a : Arena} {id : PairId} {x : Slot} :
    a.slot id = .ok x ↔ a.slot? id = some x := by
  unfold slot
  cases a.slot? id <;> simp

private theorem slot?_modify_eq {a : Arena} {id other : PairId} {f : Slot → Slot} :
    (a.modify id f).slot? other =
      ((if id.page a.pageSize = other.page a.pageSize then
          a.pages[other.page a.pageSize]?.map fun p =>
            (⟨p.toArray.modify (id.offset a.pageSize) f, by simp⟩ : Vector Slot a.pageSize)
        else a.pages[other.page a.pageSize]?).map fun p => p.get (a.place other)) := by
  change ((a.pages.modify (id.page a.pageSize) fun p =>
      (⟨p.toArray.modify (id.offset a.pageSize) f, by simp⟩ :
        Vector Slot a.pageSize))[other.page a.pageSize]?).map (fun p => p.get (a.place other)) = _
  rw [Array.getElem?_modify]

theorem slot?_modify_self {a : Arena} {id : PairId} {f : Slot → Slot} :
    (a.modify id f).slot? id = (a.slot? id).map f := by
  rw [slot?_modify_eq, if_pos rfl, slot?, Option.map_map, Option.map_map]
  congr 1
  funext p
  simp [place, Vector.get, Array.getElem_modify]

theorem slot?_modify_ne {a : Arena} {id other : PairId} {f : Slot → Slot} (h : other ≠ id) :
    (a.modify id f).slot? other = a.slot? other := by
  rw [slot?_modify_eq, slot?]
  split
  · rename_i hp
    -- the two slots share their page, so they differ in their offset there
    rw [Option.map_map]
    congr 1
    funext p
    have ho : id.offset a.pageSize ≠ other.offset a.pageSize :=
      fun ho => h (PairId.eq_of_page_offset hp ho).symm
    simp [place, Vector.get, Array.getElem_modify, ho]
  · rfl

theorem slot?_modify {a : Arena} {id other : PairId} {f : Slot → Slot} :
    (a.modify id f).slot? other = if other = id then (a.slot? id).map f else a.slot? other := by
  split
  · rename_i h
    rw [h, slot?_modify_self]
  · rename_i h
    exact slot?_modify_ne h

/-- A write of what is there already. -/
theorem modify_eq_self {a : Arena} {id : PairId} {f : Slot → Slot} {x : Slot}
    (hx : a.slot? id = some x) (hf : f x = x) : a.modify id f = a := by
  obtain ⟨p, hp, rfl⟩ := Option.map_eq_some_iff.1 hx
  -- only the page of the slot is written to, and only at the place of the slot
  have hpage : (⟨p.toArray.modify (id.offset a.pageSize) f, by simp⟩ : Vector Slot a.pageSize) =
      p := by
    ext k hk : 1
    rw [Vector.getElem_mk, Array.getElem_modify]
    split
    · rename_i he
      subst he
      exact hf
    · rfl
  unfold modify
  congr 1
  refine Array.ext_getElem? fun i => ?_
  rw [Array.getElem?_modify]
  split
  · rename_i hi
    rw [← hi, hp, Option.map_some, hpage]
  · rfl

@[simp] theorem totalSlots_modify {a : Arena} {id : PairId} {f : Slot → Slot} :
    (a.modify id f).totalSlots = a.totalSlots := by
  simp [totalSlots, pageCount, modify]

/-! ### Handing out and taking back -/

/-- The largest number of slots that 32-bit ids can tell apart. -/
def maxSlots : Nat :=
  UInt32.size - 1

/-- Why no further page can be had, if so: the page limit comes first. -/
def refusal? (a : Arena) : Option Event :=
  if a.maxPages.any (· ≤ a.pageCount) then some (.pageLimitReached a.pageCount)
  else if (a.pageCount + 1) * a.pageSize > maxSlots then some .slotNumbersExhausted
  else none

/-- The arena with one more page of blank slots, none of them carved. -/
def addPage (a : Arena) : Arena :=
  { a with pages := a.pages.push (Vector.replicate a.pageSize {}), cursor := 0 }

/-- The next uncarved slot of the newest page. -/
def carve (a : Arena) : PairId × Arena :=
  (PairId.ofNat ((a.pageCount - 1) * a.pageSize + a.cursor), { a with cursor := a.cursor + 1 })

/-- The newest recycled slot. -/
def reuse (a : Arena) : Option PairId × Arena :=
  match a.freeList with
  | [] => (none, a)
  | id :: rest => (some id, { a with freeList := rest })

/-- A new page, or the reason why there is none. -/
def grow : Action Arena (Except HeapError Unit) := do
  match ← Action.ask refusal? with
  | some e =>
    -- the caller learns that there is no room; why is only reported
    Action.report e
    return .error (← Action.ask fun a => .outOfMemory a.pageCount a.pageSize)
  | none =>
    Action.update addPage
    Action.report (← Action.ask fun a => .pageAllocated (a.pageCount - 1) a.totalSlots)
    return .ok ()

/-- An uncarved slot, on a new page if the newest one is used up. -/
def extend : Action Arena (Except HeapError PairId) := do
  if ← Action.ask fun a => a.cursor == a.pageSize then
    match ← grow with
    | .ok () => return .ok (← Action.updateGet carve)
    | .error e => return .error e
  else
    return .ok (← Action.updateGet carve)

/-- Hand out a blank slot: a recycled one, else an uncarved one. -/
def next : Action Arena (Except HeapError PairId) := do
  match ← Action.updateGet reuse with
  | some id => return .ok id
  | none => extend

/-- The arena after a slot was blanked and put on the free list. -/
def retire (a : Arena) (id : PairId) : Arena :=
  -- a blank slot is void and holds nothing
  let b := a.modify id fun _ => {}
  { b with freeList := id :: b.freeList }

/-- Take a slot back. What its cells held is forgotten here; who releases managed objects reads the
slot first. -/
def recycle (id : PairId) : Action Arena Unit := do
  let _ ← Action.query (·.slot id)
  Action.update (·.retire id)

end Arena

end ConsHeap
