/-!
# Colors

Every slot of the heap carries exactly one color. `void` is a slot owned by the arena, `free` is a
disposed slot that waits to be recycled, and the six live colors partition the pairs in use: three
bulk colors and their rooted twins.

* `Color.isLive_iff` — a color is live exactly when it is a bulk or a root color;
* `Color.toBulk_toRoot`, `Color.toRoot_toBulk` — the two twin maps undo each other.
-/

namespace ConsHeap

/-- The color of a slot. -/
inductive Color where
  | void
  | white
  | grey
  | black
  | whiteRoot
  | greyRoot
  | blackRoot
  | free
  deriving DecidableEq, Repr, Inhabited

namespace Color

/-! ### Order and names -/

/-- The place of a color in the fixed order of all colors. -/
def index : Color → Fin 8
  | void => 0
  | white => 1
  | grey => 2
  | black => 3
  | whiteRoot => 4
  | greyRoot => 5
  | blackRoot => 6
  | free => 7

theorem index_injective {c d : Color} (h : c.index = d.index) : c = d := by
  revert h
  cases c <;> cases d <;> decide

instance : Ord Color where
  compare c d := compare c.index d.index

/-- All colors, in order. -/
def all : List Color :=
  [void, white, grey, black, whiteRoot, greyRoot, blackRoot, free]

theorem mem_all (c : Color) : c ∈ all := by
  cases c <;> decide

/-- Every place is that of a color. -/
theorem exists_index (i : Fin 8) : ∃ c : Color, c.index = i :=
  ⟨all[i], by revert i; decide⟩

/-- The name of a color, as messages write it. -/
def name : Color → String
  | void => "void"
  | white => "white"
  | grey => "grey"
  | black => "black"
  | whiteRoot => "white-root"
  | greyRoot => "grey-root"
  | blackRoot => "black-root"
  | free => "free"

/-- The color of a name. -/
def ofName? (text : String) : Option Color :=
  all.find? fun c => c.name == text

/-! ### Kinds -/

/-- Root colors belong to pairs that some handle holds. -/
def isRoot : Color → Bool
  | whiteRoot | greyRoot | blackRoot => true
  | _ => false

/-- Bulk colors belong to live pairs that no handle holds. -/
def isBulk : Color → Bool
  | white | grey | black => true
  | _ => false

/-- Live colors belong to pairs in use. -/
def isLive (c : Color) : Bool :=
  c.isRoot || c.isBulk

theorem isLive_iff {c : Color} : c.isLive = true ↔ c ≠ void ∧ c ≠ free := by
  cases c <;> decide

/-- The colors of live pairs, in order. -/
def live : List Color :=
  [white, grey, black, whiteRoot, greyRoot, blackRoot]

/-- The colors of rooted pairs, in order. -/
def roots : List Color :=
  [whiteRoot, greyRoot, blackRoot]

theorem mem_live {c : Color} : c ∈ live ↔ c.isLive = true := by
  cases c <;> decide

theorem mem_roots {c : Color} : c ∈ roots ↔ c.isRoot = true := by
  cases c <;> decide

/-! ### Twins -/

/-- The rooted twin of a bulk color; every other color is its own. -/
def toRoot : Color → Color
  | white => whiteRoot
  | grey => greyRoot
  | black => blackRoot
  | c => c

/-- The bulk twin of a root color; every other color is its own. -/
def toBulk : Color → Color
  | whiteRoot => white
  | greyRoot => grey
  | blackRoot => black
  | c => c

/-- White and black, and their rooted twins, exchange; every other color stays. -/
def opposite : Color → Color
  | white => black
  | black => white
  | whiteRoot => blackRoot
  | blackRoot => whiteRoot
  | c => c

theorem toBulk_toRoot {c : Color} (h : c.isBulk = true) : c.toRoot.toBulk = c := by
  revert h
  cases c <;> decide

theorem toRoot_toBulk {c : Color} (h : c.isRoot = true) : c.toBulk.toRoot = c := by
  revert h
  cases c <;> decide

@[simp] theorem opposite_opposite (c : Color) : c.opposite.opposite = c := by
  cases c <;> rfl

end Color

end ConsHeap
