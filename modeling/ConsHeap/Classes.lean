import ConsHeap.Color
import ConsHeap.PairId

/-!
# Color classes

One sequence of pairs for each color. A class is unordered as a set but addressed by position, so
taking a member out moves the last member into the gap.

The view is `Classes.members`; `Classes.members_modify_self` and `Classes.members_modify_ne` say
that a change of one class changes no other.
-/

namespace ConsHeap

/-- The members of each color class. -/
structure Classes where
  lists : Vector (Array PairId) 8 := Vector.replicate 8 #[]

namespace Classes

/-- The members of a class, in order of position. -/
def members (cs : Classes) (c : Color) : Array PairId :=
  cs.lists[c.index]

/-- The classes after a change of one of them. -/
def modify (cs : Classes) (c : Color) (f : Array PairId → Array PairId) : Classes :=
  ⟨⟨cs.lists.toArray.modify c.index f, by simp⟩⟩

/-- The number of members of a class. -/
def size (cs : Classes) (c : Color) : Nat :=
  (cs.members c).size

/-- A new last member. -/
def push (cs : Classes) (c : Color) (id : PairId) : Classes :=
  cs.modify c (·.push id)

/-- The last member, taken out. -/
def pop (cs : Classes) (c : Color) : Option PairId × Classes :=
  match (cs.members c).back? with
  | some id => (some id, cs.modify c (·.pop))
  | none => (none, cs)

/-- All members, taken out. -/
def take (cs : Classes) (c : Color) : Array PairId × Classes :=
  (cs.members c, cs.modify c fun _ => #[])

/-- The member at a position taken out, and the last one moved into its place. -/
def swapRemove (cs : Classes) (c : Color) (i : Nat) : Classes :=
  cs.modify c fun ids => (ids.swapIfInBounds i (ids.size - 1)).pop

/-! ### What a change of one class does to the view -/

@[simp] theorem members_default (c : Color) : ({} : Classes).members c = #[] := by
  simp [members]

theorem members_modify_self {cs : Classes} {c : Color} {f : Array PairId → Array PairId} :
    (cs.modify c f).members c = f (cs.members c) := by
  simp [members, modify, Array.getElem_modify_self]

theorem members_modify_ne {cs : Classes} {c d : Color} {f : Array PairId → Array PairId}
    (h : d ≠ c) : (cs.modify c f).members d = cs.members d := by
  -- different colors have different places in the vector
  have hi : (c.index : Nat) ≠ d.index := fun hi =>
    h (Color.index_injective (Fin.ext hi)).symm
  simp [members, modify, Array.getElem_modify_of_ne hi]

theorem members_modify {cs : Classes} {c d : Color} {f : Array PairId → Array PairId} :
    (cs.modify c f).members d = if d = c then f (cs.members c) else cs.members d := by
  split
  · rename_i h
    rw [h, members_modify_self]
  · rename_i h
    exact members_modify_ne h

/-- The members are all that there is to know of classes. -/
theorem eq_of_members {cs ds : Classes} (h : ∀ c, cs.members c = ds.members c) : cs = ds := by
  obtain ⟨lists⟩ := cs
  obtain ⟨lists'⟩ := ds
  congr 1
  ext i hi : 1
  -- every place in the vector is that of a color
  obtain ⟨c, hc⟩ := Color.exists_index ⟨i, hi⟩
  have hm := h c
  simp only [members, hc] at hm
  exact hm

theorem modify_modify {cs : Classes} {c : Color} {f g : Array PairId → Array PairId} :
    (cs.modify c f).modify c g = cs.modify c fun ids => g (f ids) := by
  refine eq_of_members fun d => ?_
  simp only [members_modify, if_pos]
  split <;> rfl

/-- A class replaced by its own members. -/
theorem modify_members {cs : Classes} {c : Color} :
    (cs.modify c fun _ => cs.members c) = cs := by
  refine eq_of_members fun d => ?_
  rw [members_modify]
  split
  · rename_i h
    rw [h]
  · rfl

theorem size_modify {cs : Classes} {c d : Color} {f : Array PairId → Array PairId} :
    (cs.modify c f).size d = if d = c then (f (cs.members c)).size else cs.size d := by
  rw [size, members_modify]
  split <;> rfl

theorem size_push {cs : Classes} {c d : Color} {id : PairId} :
    (cs.push c id).size d = if d = c then cs.size c + 1 else cs.size d := by
  rw [push, size_modify, Array.size_push]
  rfl

theorem size_swapRemove {cs : Classes} {c d : Color} {i : Nat} :
    (cs.swapRemove c i).size d = if d = c then cs.size c - 1 else cs.size d := by
  rw [swapRemove, size_modify, Array.size_pop, Array.size_swapIfInBounds]
  rfl

end Classes

end ConsHeap
