/-!
# Managed objects

Symbols and strings are leaves of the pair graph: they hold no pair, so their lifetime is plain
reference counting. `Objects` keeps every object ever made together with the number of cells that
hold it. Object ids are never used twice, so two cells hold the same object exactly when their ids
are equal.

* `Objects.strong_retain`, `Objects.strong_release` — what each operation does to one count;
* `Objects.strong_alloc` — a new object starts with the one reference that its maker owns.
-/

namespace ConsHeap

/-- The two kinds of managed object. -/
inductive ObjectKind where
  | symbol
  | string
  deriving DecidableEq, Repr

/-- A managed object: its kind and its text. -/
structure Managed where
  kind : ObjectKind
  text : String
  deriving DecidableEq, Repr

/-- The identity of a managed object: its place in order of creation. -/
structure ObjectId where
  number : Nat
  deriving DecidableEq, Repr

/-- An object together with the number of cells that hold it. -/
structure Counted where
  value : Managed
  strong : Nat
  deriving Repr

/-- Every object made so far, by id. -/
structure Objects where
  entries : Array Counted := #[]

namespace Objects

/-! ### Reading -/

/-- The object of an id, whether or not it is still held. -/
def value? (os : Objects) (o : ObjectId) : Option Managed :=
  os.entries[o.number]?.map (·.value)

/-- The number of cells that hold an object. -/
def strong (os : Objects) (o : ObjectId) : Nat :=
  (os.entries[o.number]?.map (·.strong)).getD 0

/-- An object is alive while some cell holds it. -/
def isLive (os : Objects) (o : ObjectId) : Bool :=
  0 < os.strong o

/-- The text of an object, as long as it is alive. -/
def text? (os : Objects) (o : ObjectId) : Option String :=
  if os.isLive o then (os.value? o).map (·.text) else none

/-! ### Counting -/

/-- A new object with one reference, and its id. -/
def alloc (os : Objects) (m : Managed) : ObjectId × Objects :=
  (⟨os.entries.size⟩, ⟨os.entries.push ⟨m, 1⟩⟩)

/-- One more reference. -/
def retain (os : Objects) (o : ObjectId) : Objects :=
  ⟨os.entries.modify o.number fun e => { e with strong := e.strong + 1 }⟩

/-- One reference less. -/
def release (os : Objects) (o : ObjectId) : Objects :=
  ⟨os.entries.modify o.number fun e => { e with strong := e.strong - 1 }⟩

theorem strong_alloc (os : Objects) (m : Managed) (o : ObjectId) :
    (os.alloc m).2.strong o = if o = (os.alloc m).1 then 1 else os.strong o := by
  rcases o with ⟨n⟩
  simp only [alloc, strong, Array.getElem?_push, ObjectId.mk.injEq]
  split <;> rfl

theorem strong_retain {os : Objects} {a : ObjectId} (h : a.number < os.entries.size)
    (o : ObjectId) :
    (os.retain a).strong o = if o = a then os.strong o + 1 else os.strong o := by
  rcases o with ⟨n⟩; rcases a with ⟨k⟩
  simp only [retain, strong, Array.getElem?_modify, ObjectId.mk.injEq]
  by_cases hn : k = n
  · subst hn; simp [Array.getElem?_eq_getElem h]
  · simp [hn, Ne.symm hn]

theorem strong_release (os : Objects) (a o : ObjectId) :
    (os.release a).strong o = if o = a then os.strong o - 1 else os.strong o := by
  -- an id that names no object is not found after the release either
  rcases o with ⟨n⟩; rcases a with ⟨k⟩
  simp only [release, strong, Array.getElem?_modify, ObjectId.mk.injEq]
  by_cases hn : k = n
  · subst hn; cases os.entries[k]? <;> simp
  · simp [hn, Ne.symm hn]

end Objects

end ConsHeap
