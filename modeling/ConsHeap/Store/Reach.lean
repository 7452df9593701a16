import ConsHeap.Store.Basic

/-!
# Reachability

A pair is reachable when a root class holds it or a reachable pair does. `Store.Reaches` says so as
a relation; `Store.reachable` computes it, breadth first, with one mark for each slot. The traversal
ends because every pair it finds has just been marked: unmarked slots and found pairs that were not
visited yet together become fewer with each visit (`Sweep.unmarked_mark`).
-/

namespace ConsHeap

/-! ### The relation -/

/-- The pairs of the root classes and all that they lead to through cars and cdrs. -/
inductive Store.Reaches (s : Store) : PairId → Prop where
  | root {id : PairId} {c : Color} (isRoot : c.isRoot = true) (mem : id ∈ s.classes.members c) :
    Reaches s id
  | edge {id child : PairId} {slot : Slot} (reaches : Reaches s id)
    (slot_eq : s.arena.slot? id = some slot) (mem : child ∈ slot.children) : Reaches s child

/-! ### Marks -/

/-- A traversal under way: which of `n` slots are marked, and the marked pairs in the order in which
they were found. -/
structure Sweep (n : Nat) where
  marked : Vector Bool n
  found : Array PairId

namespace Sweep

variable {n : Nat}

/-- Nothing is marked yet. -/
def start : Sweep n :=
  ⟨Vector.replicate n false, #[]⟩

/-- Whether a pair is marked. -/
def has (w : Sweep n) (id : PairId) : Bool :=
  w.marked[id.index]?.getD false

/-- A pair marked, unless it was marked before. -/
def mark (w : Sweep n) (id : PairId) : Sweep n :=
  match w with
  | ⟨marked, found⟩ =>
    if h : id.index < n then
      if marked[id.index] then ⟨marked, found⟩
      else ⟨marked.set id.index true, found.push id⟩
    else ⟨marked, found⟩

/-- The number of slots without a mark. -/
def unmarked (w : Sweep n) : Nat :=
  w.marked.count false

theorem unmarked_mark (w : Sweep n) (id : PairId) :
    (w.mark id).unmarked + (w.mark id).found.size = w.unmarked + w.found.size ∧
      w.found.size ≤ (w.mark id).found.size := by
  unfold mark
  split
  rename_i marked found
  split
  · rename_i h
    split
    · simp
    · rename_i hm
      -- one mark is set and one pair is found, so the sum stays
      have hf : marked[id.index] = false := by simpa using hm
      have hc : 0 < marked.count false :=
        Vector.count_pos_iff.2 (hf ▸ Vector.getElem_mem h)
      simp only [unmarked, Array.size_push, Vector.count_set, hf]
      simp only [beq_self_eq_true, if_true, Bool.true_eq_false, beq_iff_eq, if_false]
      omega
  · simp

theorem unmarked_foldl_mark (ids : List PairId) (w : Sweep n) :
    (ids.foldl mark w).unmarked + (ids.foldl mark w).found.size = w.unmarked + w.found.size ∧
      w.found.size ≤ (ids.foldl mark w).found.size := by
  induction ids generalizing w with
  | nil => simp
  | cons id ids ih =>
    have h₁ := unmarked_mark w id
    have h₂ := ih (w.mark id)
    exact ⟨h₂.1.trans h₁.1, Nat.le_trans h₁.2 h₂.2⟩

end Sweep

/-! ### The traversal -/

/-- Visit the found pairs from place `next` on, marking what they hold. An edge that leads outside
all pages is a fault. -/
def Arena.spread (a : Arena) (w : Sweep a.totalSlots) (next : Nat) :
    Except Fault (Sweep a.totalSlots) :=
  if h : next < w.found.size then
    match a.slot w.found[next] with
    | .error f => .error f
    | .ok slot =>
      match slot.children.find? fun child => !a.contains child with
      | some child => .error (a.outside child)
      | none => a.spread (slot.children.foldl Sweep.mark w) (next + 1)
  else .ok w
termination_by w.unmarked + (w.found.size - next)
decreasing_by
  -- every pair found by this visit was unmarked, and one pair less is to be visited
  have := Sweep.unmarked_foldl_mark slot.children w
  omega

namespace Store

/-- All rooted pairs, by color and then by position. -/
def roots (s : Store) : List PairId :=
  Color.roots.flatMap fun c => (s.classes.members c).toList

/-- The reachable pairs, marked and in the order in which a breadth-first visit finds them. How many
to expect (all slots but the vacant ones) would only be a hint on how much room to reserve, and no
result depends on it. -/
def reachable (s : Store) : Except Fault (Sweep s.arena.totalSlots) :=
  s.arena.spread (s.roots.foldl Sweep.mark Sweep.start) 0

end Store

end ConsHeap
