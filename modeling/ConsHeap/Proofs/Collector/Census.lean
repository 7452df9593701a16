import ConsHeap.Collector.Inspect
import ConsHeap.Proofs.Collector.Invariant
import ConsHeap.Proofs.Store.Held
import Mathlib.Data.Set.Card

/-!
# The census of a sound collector

Where a slot is listed, what color it carries and how many slots of that color there are is kept in
three places: the lists of vacant slots and of members, the stamps in the slots, and the sizes of
the lists. On a sound collector they agree:

* `Collector.Sound.mem_conses` — the slots listed under a color are those that carry it;
* `Collector.Sound.length_conses` — the count of a color is the length of its list;
* `Collector.Sound.census_perm` — the lists of all colors together hold every slot number once;
* `Collector.Sound.totalSlots_eq_ncard` — so the total is the number of slots that there are;
* `Collector.Sound.count_eq_ncard` — and a count is the number of slots with that color, however
  they are listed. What is counted before and after some work is compared by it.
-/

namespace ConsHeap

/-! ### Sets of pairs, counted -/

instance : Finite PairId :=
  Finite.of_injective (fun id : PairId => (⟨id.index, id.index_lt⟩ : Fin UInt32.size))
    fun _ _ he => PairId.index_injective (Fin.mk.inj he)

/-- A list without duplicates has as many members as the set of them. -/
theorem length_eq_ncard {ids : List PairId} (h : ids.Nodup) :
    ids.length = {id | id ∈ ids}.ncard := by
  rw [← List.toFinset_card_of_nodup h, ← Set.ncard_coe_finset]
  congr 1
  ext id
  rw [Finset.mem_coe, List.mem_toFinset]
  rfl

theorem ncard_le_length (ids : List PairId) : {id | id ∈ ids}.ncard ≤ ids.length := by
  rw [← List.coe_toFinset, Set.ncard_coe_finset]
  exact List.toFinset_card_le ids

/-- Members of a list without duplicates are picked out as a set of them is. -/
theorem countP_eq_ncard {ids : List PairId} {p : PairId → Bool} (h : ids.Nodup) :
    ids.countP p = {id | id ∈ ids ∧ p id = true}.ncard := by
  rw [List.countP_eq_length_filter, length_eq_ncard (h.filter p)]
  simp only [List.mem_filter]

namespace Collector

variable {c : Collector} {color : Color} {id : PairId} {x : Slot}

theorem conses_of_ne_void (hc : color ≠ .void) :
    c.conses color = (c.store.classes.members color).toList := by
  cases color with
  | void => exact absurd rfl hc
  | _ => rfl

theorem count_of_ne_void (hc : color ≠ .void) : c.count color = c.store.size color := by
  cases color with
  | void => exact absurd rfl hc
  | _ => rfl

/-! ### The lists and the counts -/

namespace Sound

variable (h : c.Sound)

include h

/-- **A slot is listed under the color that it carries**, and under no other. -/
theorem mem_conses : id ∈ c.conses color ↔ ∃ x, c.look id = some x ∧ x.color = color := by
  by_cases hc : color = .void
  · rw [hc]
    exact h.store.mem_voidSlots
  · rw [conses_of_ne_void hc, Array.mem_toList_iff]
    exact h.store.mem_members hc

theorem nodup_conses : (c.conses color).Nodup := by
  by_cases hc : color = .void
  · rw [hc]
    exact h.store.arena.void_nodup
  · rw [conses_of_ne_void hc]
    exact h.store.nodup_members

theorem length_conses : (c.conses color).length = c.count color := by
  by_cases hc : color = .void
  · rw [hc]
    exact h.store.arena.length_voidSlots
  · rw [conses_of_ne_void hc, count_of_ne_void hc, Array.length_toList]
    rfl

/-- A color counts no slots exactly when none carries it. -/
theorem count_eq_zero_iff :
    c.count color = 0 ↔ ∀ id x, c.look id = some x → x.color ≠ color := by
  rw [← h.length_conses, List.length_eq_zero_iff, List.eq_nil_iff_forall_not_mem]
  constructor
  · intro hnone id x hx hc
    exact hnone id (h.mem_conses.2 ⟨x, hx, hc⟩)
  · intro hne id hid
    obtain ⟨x, hx, hc⟩ := h.mem_conses.1 hid
    exact hne id x hx hc

/-- A slot that carries a color is listed at the position that it records. -/
theorem getElem?_conses (hx : c.slot id = .ok x) (hc : x.color ≠ .void) :
    (c.conses x.color)[x.index]? = some id := by
  rw [conses_of_ne_void hc, Array.getElem?_toList]
  exact h.store.listed (slot?_of_slot hx) List.not_mem_nil hc

/-- A slot carries one color, so the lists have nothing in common. -/
theorem nodup_census : (Color.all.flatMap c.conses).Nodup := by
  refine List.nodup_flatMap.2 ⟨fun _ _ => h.nodup_conses, ?_⟩
  have hdistinct : Color.all.Nodup := by decide
  refine hdistinct.imp fun {d e} hne id hd he => hne ?_
  obtain ⟨x, hx, rfl⟩ := h.mem_conses.1 hd
  obtain ⟨y, hy, rfl⟩ := h.mem_conses.1 he
  rw [hx] at hy
  rw [Option.some.inj hy]

/-- **Every slot number is listed once**, among all colors together. -/
theorem census_perm :
    ((Color.all.flatMap c.conses).map PairId.index).Perm (List.range c.totalSlots) := by
  have hnodup := h.nodup_census.map fun _ _ he => PairId.index_injective he
  refine (List.perm_ext_iff_of_nodup hnodup List.nodup_range).2 fun n => ?_
  rw [List.mem_range, List.mem_map]
  constructor
  · rintro ⟨id, hid, rfl⟩
    obtain ⟨d, -, hd⟩ := List.mem_flatMap.1 hid
    obtain ⟨x, hx, -⟩ := h.mem_conses.1 hd
    exact Store.index_lt_of_look hx
  · -- below the total every number is that of a slot, and its color lists it
    intro hn
    have hidx : (PairId.ofNat n).index = n := h.store.index_ofNat hn
    have hsome : (c.store.arena.slot? (.ofNat n)).isSome = true := by
      rw [Arena.slot?_isSome, hidx]
      exact hn
    obtain ⟨x, hx⟩ := Option.isSome_iff_exists.1 hsome
    exact ⟨_, List.mem_flatMap.2 ⟨x.color, Color.mem_all _,
      h.mem_conses.2 ⟨_, Store.look_of_slot? hx, rfl⟩⟩, hidx⟩

/-- The total is the number of slots that there are. -/
theorem totalSlots_eq_ncard : c.totalSlots = {id : PairId | id.index < c.totalSlots}.ncard := by
  have hmem : ∀ id, id ∈ Color.all.flatMap c.conses ↔ id.index < c.totalSlots := by
    intro id
    rw [← List.mem_range, ← h.census_perm.mem_iff,
      List.mem_map_of_injective fun _ _ he => PairId.index_injective he]
  calc c.totalSlots = ((Color.all.flatMap c.conses).map PairId.index).length := by
        rw [h.census_perm.length_eq, List.length_range]
    _ = (Color.all.flatMap c.conses).length := List.length_map _
    _ = {id | id ∈ Color.all.flatMap c.conses}.ncard := length_eq_ncard h.nodup_census
    _ = {id : PairId | id.index < c.totalSlots}.ncard := by simp only [hmem]

/-- A void slot is blank. -/
theorem eq_blank_of_void (hx : c.slot id = .ok x) (hc : x.color = .void) : x = {} := by
  have hslot := slot?_of_slot hx
  have hvoid := h.store.vacant hslot List.not_mem_nil hc
  rw [h.store.arena.void_blank id hvoid] at hslot
  exact (Option.some.inj hslot).symm

/-- **A count is the number of slots of that color.** -/
theorem count_eq_ncard :
    c.count color = {id | ∃ x, c.look id = some x ∧ x.color = color}.ncard := by
  rw [← h.length_conses, length_eq_ncard h.nodup_conses]
  simp only [h.mem_conses]

end Sound

end Collector

end ConsHeap
