import ConsHeap.Proofs.Store.Repaint
import Mathlib.Algebra.Order.BigOperators.Group.Finset

/-!
# References held by slots

`Store.held s o` is the number of fields, over all slots of a store, that hold the managed object
`o`. Vacant slots are blank and hold nothing, so that a new page changes no such number, and neither
does a recoloring. A write to one slot changes it by what that slot holds more or less.
-/

namespace ConsHeap

/-- How many of the two fields of a slot hold an object. -/
def Slot.holds (x : Slot) (o : ObjectId) : Nat :=
  [x.car, x.cdr].count (.managed o)

theorem Slot.holds_eq (x : Slot) (o : ObjectId) :
    x.holds o = (if x.car = .managed o then 1 else 0) + (if x.cdr = .managed o then 1 else 0) := by
  simp only [holds, List.count_cons, List.count_nil, beq_iff_eq]
  omega

theorem Slot.holds_pos {x : Slot} {o : ObjectId} :
    0 < x.holds o ↔ x.car = .managed o ∨ x.cdr = .managed o := by
  have hone : ∀ cell : Cell, 0 < (if cell = .managed o then 1 else 0) ↔ cell = .managed o := by
    intro cell
    by_cases hcell : cell = .managed o
    · rw [if_pos hcell]
      exact iff_of_true Nat.one_pos hcell
    · rw [if_neg hcell]
      exact iff_of_false (Nat.lt_irrefl 0) hcell
  rw [holds_eq, Nat.add_pos_iff_pos_or_pos, hone, hone]

@[simp] theorem Slot.holds_blank (o : ObjectId) : ({} : Slot).holds o = 0 := by
  rw [holds_eq]
  simp

namespace Store

variable {s s' : Store} {loose : List PairId} {id : PairId} {x y : Slot} {o : ObjectId}

/-- How many fields of all slots hold an object. -/
def held (s : Store) (o : ObjectId) : Nat :=
  ∑ n ∈ Finset.range s.arena.totalSlots, (s.look (.ofNat n)).elim 0 fun x => x.holds o

/-- A slot that can be read has its number below the total. -/
theorem index_lt_of_look (hx : s.look id = some x) : id.index < s.arena.totalSlots := by
  obtain ⟨y, hy, -⟩ := look_eq_some.1 hx
  exact Arena.index_lt_of_slot? hy

/-- The numbers of slots fit into ids. -/
theorem Sound.index_ofNat (h : s.Sound loose) {n : Nat} (hn : n < s.arena.totalSlots) :
    (PairId.ofNat n).index = n :=
  h.arena.index_ofNat hn

/-- What a slot holds is counted. -/
theorem holds_le_held (hx : s.look id = some x) (o : ObjectId) : x.holds o ≤ s.held o := by
  -- the slot is one of those that are summed over
  have hid : id.index ∈ Finset.range s.arena.totalSlots :=
    Finset.mem_range.2 (index_lt_of_look hx)
  have hle := Finset.single_le_sum (f := fun n => (s.look (.ofNat n)).elim 0 fun x => x.holds o)
    (fun _ _ => Nat.zero_le _) hid
  simp only [PairId.ofNat_index, hx, Option.elim_some] at hle
  exact hle

/-- What is counted is held by a slot. -/
theorem held_pos : 0 < s.held o ↔ ∃ id x, s.look id = some x ∧ 0 < x.holds o := by
  constructor
  · intro hpos
    obtain ⟨n, -, hn⟩ := Finset.exists_ne_zero_of_sum_ne_zero (Nat.ne_of_gt hpos)
    cases hx : s.look (.ofNat n) with
    | none =>
      rw [hx] at hn
      exact absurd rfl hn
    | some x =>
      rw [hx] at hn
      exact ⟨_, x, hx, Nat.pos_of_ne_zero hn⟩
  · rintro ⟨id, x, hx, hpos⟩
    exact Nat.lt_of_lt_of_le hpos (holds_le_held hx o)

/-- One slot is changed, and what it held counts no more. -/
theorem Sound.held_update (h : s.Sound loose) (htotal : s'.arena.totalSlots = s.arena.totalSlots)
    (hx : s.look id = some x) (hy : s'.look id = some y)
    (hother : ∀ j, j ≠ id → s'.look j = s.look j) (o : ObjectId) :
    s'.held o + x.holds o = s.held o + y.holds o := by
  have hid : id.index ∈ Finset.range s.arena.totalSlots :=
    Finset.mem_range.2 (index_lt_of_look hx)
  -- different numbers below the total are numbers of different slots
  have hrest : ∑ n ∈ (Finset.range s.arena.totalSlots).erase id.index,
      ((s'.look (.ofNat n)).elim 0 fun x => x.holds o) =
      ∑ n ∈ (Finset.range s.arena.totalSlots).erase id.index,
        ((s.look (.ofNat n)).elim 0 fun x => x.holds o) := by
    refine Finset.sum_congr rfl fun n hn => ?_
    obtain ⟨hne, hlt⟩ := Finset.mem_erase.1 hn
    rw [hother]
    intro he
    refine hne ?_
    rw [← he, h.index_ofNat (Finset.mem_range.1 hlt)]
  -- so the two sums differ in the term of the slot
  unfold held
  rw [htotal, ← Finset.add_sum_erase _ _ hid, ← Finset.add_sum_erase _ _ hid, hrest,
    PairId.ofNat_index, hx, hy]
  simp only [Option.elim_some]
  omega

/-- Slots that hold the same cells hold the same objects. -/
theorem held_congr (htotal : s'.arena.totalSlots = s.arena.totalSlots)
    (hlook : ∀ j, (s'.look j).map (fun x => (x.car, x.cdr)) =
      (s.look j).map fun x => (x.car, x.cdr)) (o : ObjectId) : s'.held o = s.held o := by
  unfold held
  rw [htotal]
  refine Finset.sum_congr rfl fun n _ => ?_
  -- a slot exists on both sides or on neither
  have hn := hlook (.ofNat n)
  cases hs' : s'.look (.ofNat n) with
  | none =>
    rw [hs', Option.map_none] at hn
    rw [Option.map_eq_none_iff.1 hn.symm]
  | some y =>
    rw [hs', Option.map_some] at hn
    obtain ⟨x, hx, he⟩ := Option.map_eq_some_iff.1 hn.symm
    rw [hx]
    simp only [Prod.mk.injEq] at he
    simp only [Option.elim_some, Slot.holds_eq, he.1, he.2]

theorem Repaints.held_eq {f : PairId → Color → Color} (h : s.Repaints f s') (o : ObjectId) :
    s'.held o = s.held o := by
  refine held_congr h.layout.totalSlots_eq (fun j => ?_) o
  rw [h.look, Option.map_map]
  rfl

/-- The class of a pair does not matter to what it holds. -/
theorem held_enlist {c : Color} (s : Store) (id : PairId) (o : ObjectId) :
    (s.enlist c id).held o = s.held o := by
  refine held_congr layout_enlist.totalSlots_eq (fun j => ?_) o
  rw [look_enlist]
  split
  · rename_i hj
    rw [hj, Option.map_map]
    rfl
  · rfl

/-- A blank slot that was handed out holds nothing, and the slots of a new page do not either. -/
theorem Sound.held_hands (h : s.Sound loose) {b : Arena} (hb : s.arena.Hands id b) (o : ObjectId) :
    (⟨b, s.classes⟩ : Store).held o = s.held o := by
  have hb' : (⟨b, s.classes⟩ : Store).Sound (id :: loose) := h.hands hb
  -- there may be a page more, whose slots are counted as well
  have hle : s.arena.totalSlots ≤ b.totalSlots := by
    unfold Arena.totalSlots
    rw [hb.pageSize_eq]
    refine Nat.mul_le_mul_right _ ?_
    rcases hb.pages with he | ⟨-, he⟩ <;> omega
  unfold held
  refine (Finset.sum_subset_zero_on_sdiff (Finset.range_subset_range.2 hle) (fun n hn => ?_)
    fun n hn => ?_).symm
  · -- the slot did not exist before
    obtain ⟨hnb, hns⟩ := Finset.mem_sdiff.1 hn
    rw [Finset.mem_range] at hnb hns
    have hidx : (PairId.ofNat n).index = n := hb'.index_ofNat hnb
    have hnone : s.arena.slot? (.ofNat n) = none := by
      rw [← Option.not_isSome_iff_eq_none, Arena.slot?_isSome, hidx]
      exact hns
    unfold look
    rcases hb.slots (.ofNat n) with he | ⟨-, he⟩
    · rw [show (⟨b, s.classes⟩ : Store).arena.slot? (.ofNat n) = _ from he, hnone]
      rfl
    · rw [show (⟨b, s.classes⟩ : Store).arena.slot? (.ofNat n) = _ from he]
      exact Slot.holds_blank o
  · -- the slot is that of before
    rw [Finset.mem_range] at hn
    have hidx : (PairId.ofNat n).index = n := h.index_ofNat hn
    unfold look
    rcases hb.slots (.ofNat n) with he | ⟨hnone, -⟩
    · rw [show (⟨b, s.classes⟩ : Store).arena.slot? (.ofNat n) = _ from he]
    · have hsome : (s.arena.slot? (.ofNat n)).isSome = true := by
        rw [Arena.slot?_isSome, hidx]
        exact hn
      rw [hnone] at hsome
      exact absurd hsome (by simp)

end Store

end ConsHeap
