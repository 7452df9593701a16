/-!
# Pair ids

A pair is named by its slot number, a 32-bit word. Slots are grouped into pages of one size, so a
slot number is a page and an offset inside that page; `PairId.eq_of_page_offset` says that the two
together name one slot only.
-/

namespace ConsHeap

/-- The number of a slot. -/
structure PairId where
  number : UInt32
  deriving DecidableEq, Repr, Inhabited

namespace PairId

/-- The slot number as a natural number. -/
def index (id : PairId) : Nat :=
  id.number.toNat

/-- The id of a slot number, of which only the low 32 bits are kept. -/
def ofNat (n : Nat) : PairId :=
  ⟨UInt32.ofNat n⟩

/-- The page that holds a slot. -/
def page (id : PairId) (pageSize : Nat) : Nat :=
  id.index / pageSize

/-- The place of a slot inside its page. -/
def offset (id : PairId) (pageSize : Nat) : Nat :=
  id.index % pageSize

/-- The text of an id: `#` and the slot number. -/
def text (id : PairId) : String :=
  "#" ++ toString id.index

theorem index_injective {a b : PairId} (h : a.index = b.index) : a = b := by
  cases a; cases b
  simpa [index, UInt32.toNat_inj] using h

theorem index_lt (id : PairId) : id.index < UInt32.size :=
  UInt32.toNat_lt id.number

@[simp] theorem index_ofNat {n : Nat} (h : n < UInt32.size) : (ofNat n).index = n := by
  simpa [index, ofNat] using Nat.mod_eq_of_lt h

@[simp] theorem ofNat_index (id : PairId) : ofNat id.index = id := by
  simp [index, ofNat]

theorem eq_of_page_offset {a b : PairId} {pageSize : Nat}
    (hp : a.page pageSize = b.page pageSize) (ho : a.offset pageSize = b.offset pageSize) :
    a = b := by
  refine index_injective ?_
  rw [← Nat.div_add_mod a.index pageSize, ← Nat.div_add_mod b.index pageSize]
  simp only [page, offset] at hp ho
  rw [hp, ho]

end PairId

end ConsHeap
