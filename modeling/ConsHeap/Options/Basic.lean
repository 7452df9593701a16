import ConsHeap.Error

/-!
# Options

The tuning of a collector, fixed when it is made: the size of a page, how much marking and recycling
each event pays for, and how many pages there may be. `Options.Valid` says which options can be
used, and `Options.problem?_eq_none` that the check answers a problem for exactly the others.
-/

namespace ConsHeap

/-- The options of a collector. -/
structure Options where
  /-- Pairs per page. -/
  pageSize : Nat := 256
  /-- Marking steps run by each allocation, root, unroot or write of a pair. -/
  garbageSteps : Nat := 4
  /-- Disposed pairs recycled by each allocation, root or unroot. -/
  recycleSteps : Nat := 2
  /-- The largest number of pages; without one the arena grows as long as it can. -/
  maxPages : Option Nat := none
  deriving DecidableEq, Repr

namespace Options

/-- Options under which no event pays for any work: only explicit steps move pairs. -/
def manual (pageSize : Nat) : Options :=
  { pageSize, garbageSteps := 0, recycleSteps := 0, maxPages := none }

/-- The options that a collector can be made with. -/
structure Valid (o : Options) : Prop where
  pageSize_pos : 0 < o.pageSize
  pageSize_lt : o.pageSize < UInt32.size
  maxPages_pos : o.maxPages ≠ some 0

/-- What is wrong with options, if anything: the page size is looked at before the page limit. -/
def problem? (o : Options) : Option HeapError :=
  if o.pageSize = 0 then some (.invalidOption "page_size must be at least 1")
  else if o.pageSize ≥ UInt32.size then some (.invalidOption "page_size must fit in 32 bits")
  else if o.maxPages = some 0 then some (.invalidOption "max_pages must be at least 1")
  else none

theorem problem?_eq_none {o : Options} : o.problem? = none ↔ o.Valid := by
  unfold problem?
  constructor
  · intro h
    -- each refusal is a problem, so only the last branch is left
    split at h
    · exact absurd h (by simp)
    · split at h
      · exact absurd h (by simp)
      · split at h
        · exact absurd h (by simp)
        · exact ⟨by omega, by omega, by assumption⟩
  · rintro ⟨h₁, h₂, h₃⟩
    rw [if_neg (by omega), if_neg (by omega), if_neg h₃]

end Options

end ConsHeap
