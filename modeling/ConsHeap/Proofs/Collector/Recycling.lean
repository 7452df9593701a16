import ConsHeap.Proofs.Collector.Marking
import ConsHeap.Proofs.Objects
import ConsHeap.Proofs.Store.Held
import Mathlib.Data.Multiset.Count

/-!
# Recycling and the references of cells

A disposed pair still owns what its cells hold; only when its slot goes back to the arena are the
references given up. `Collector.Recycled c id x c'` says all that recycling the pair `id` with slot
`x` does.

`Collector.Balanced c cells` says that the strong count of every managed object is the number of
fields of slots that hold it plus the number of times it occurs among `cells`, the cells outside the
heap that own a reference. Recycling keeps the balance, since it releases what it blanks.
-/

namespace ConsHeap

namespace Collector

variable {c c' : Collector} {id j : PairId} {x y : Slot} {es : Array Event} {n : Nat}
  {loose : List PairId} {cells : Multiset Cell} {cell : Cell} {o : ObjectId}

/-! ### The balance -/

/-- Every managed object is counted once for each field that holds it and once for each of the
given cells that does. -/
def Balanced (c : Collector) (cells : Multiset Cell) : Prop :=
  ∀ o, c.objects.strong o = c.store.held o + cells.count (.managed o)

theorem count_cons (cell : Cell) (cells : Multiset Cell) (o : ObjectId) :
    (cell ::ₘ cells).count (.managed o) =
      cells.count (.managed o) + if cell = .managed o then 1 else 0 := by
  rw [Multiset.count_cons]
  simp only [eq_comm]

/-- A collector that was just made holds nothing. -/
theorem Balanced.empty {opts : Options} (hv : opts.Valid) :
    (Collector.empty opts hv).Balanced 0 := by
  intro o
  have hzero : (Collector.empty opts hv).store.held o = 0 := by
    unfold Store.held
    rw [show (Collector.empty opts hv).store.arena.totalSlots = 0 from Nat.zero_mul _]
    exact Finset.sum_range_zero _
  rw [hzero]
  exact Objects.strong_empty o

/-- An object that some field holds is alive. -/
theorem Balanced.strong_pos_of_held (h : c.Balanced cells) (ho : 0 < c.store.held o) :
    0 < c.objects.strong o := by
  rw [h o]
  omega

theorem Balanced.strong_pos_of_mem (h : c.Balanced cells) (ho : .managed o ∈ cells) :
    0 < c.objects.strong o := by
  rw [h o]
  have := Multiset.count_pos.2 ho
  omega

/-- As long as no object is counted otherwise and no field holds another object, the balance
stays. -/
theorem Balanced.congr (h : c.Balanced cells) (hobjects : c'.objects = c.objects)
    (hheld : ∀ o, c'.store.held o = c.store.held o) : c'.Balanced cells := by
  intro o
  rw [hobjects, hheld]
  exact h o

/-- Cells that hold no object do not matter to the balance. -/
theorem Balanced.of_count {cells' : Multiset Cell} (h : c.Balanced cells)
    (hcount : ∀ o, cells'.count (.managed o) = cells.count (.managed o)) : c.Balanced cells' := by
  intro o
  rw [hcount]
  exact h o

section Yields

variable {α : Type} {Q : α → Traced Collector → Prop}

theorem yields_onArena {a : Action Arena α} : (onArena a).Yields ⟨c, es⟩ Q ↔
    a.Yields ⟨c.store.arena, es⟩ fun r m =>
      Q r ⟨{ c with store := { c.store with arena := m.state } }, m.events⟩ :=
  Action.yields_focus

theorem yields_discard {Q : Unit → Traced Collector → Prop} : (discard cell).Yields ⟨c, es⟩ Q ↔
    Q () ⟨{ c with objects := c.objects.discard cell }, es⟩ := by
  unfold Collector.discard onObjects
  exact Action.yields_update

theorem yields_modifySlot {f : Slot → Slot} {Q : Unit → Traced Collector → Prop} :
    (modifySlot id f).Yields ⟨c, es⟩ Q ↔
      Q () ⟨{ c with store := { c.store with arena := c.store.arena.modify id f } }, es⟩ :=
  Action.yields_update

end Yields

/-- One reference more, for one cell more. -/
theorem Balanced.gain {os : Objects} (h : c.Balanced cells)
    (hos : ∀ o, os.strong o = c.objects.strong o + if cell = .managed o then 1 else 0) :
    ({ c with objects := os } : Collector).Balanced (cell ::ₘ cells) := by
  intro o
  calc os.strong o = c.objects.strong o + if cell = .managed o then 1 else 0 := hos o
    _ = c.store.held o + cells.count (.managed o) + if cell = .managed o then 1 else 0 := by
      rw [h o]
    _ = c.store.held o + (cell ::ₘ cells).count (.managed o) := by
      rw [count_cons, Nat.add_assoc]

/-- A cell that was counted outside is discarded. -/
theorem Balanced.discard (h : c.Balanced (cell ::ₘ cells)) :
    ({ c with objects := c.objects.discard cell } : Collector).Balanced cells := by
  intro o
  calc (c.objects.discard cell).strong o
      = c.objects.strong o - (if cell = .managed o then 1 else 0) := Objects.strong_discard
    _ = c.store.held o + (cell ::ₘ cells).count (.managed o) -
        (if cell = .managed o then 1 else 0) := by rw [h o]
    _ = c.store.held o + cells.count (.managed o) := by
      rw [count_cons, ← Nat.add_assoc, Nat.add_sub_cancel]

/-! ### One slot -/

/-- `c'` is `c` after the slot of `id` was blanked and given back to the arena, and what its cells
held was released. -/
def returned (c : Collector) (id : PairId) (x : Slot) : Collector :=
  { c with
    store := ⟨c.store.arena.retire id, c.store.classes⟩
    objects := (c.objects.discard x.car).discard x.cdr }

/-- A loose pair can always be recycled. -/
theorem recycleSlot_yields (hx : c.look id = some x) :
    (recycleSlot id).Yields ⟨c, es⟩ fun _ u => u = ⟨c.returned id x, es⟩ := by
  obtain ⟨s, hs, rfl⟩ := slot_of_look hx
  have hs' : c.store.arena.slot id = .ok s := hs
  unfold recycleSlot Arena.recycle
  simp only [Action.yields_bind, Action.yields_query, yields_onArena, Action.yields_update,
    yields_discard]
  exact ⟨s, hs, s, hs', rfl⟩

theorem look_returned : (c.returned id x).look j =
    if j = id then (c.look id).map fun _ => {} else c.look j := by
  change (⟨c.store.arena.retire id, c.store.classes⟩ : Store).look j = _
  unfold Store.look
  rw [Arena.slot?_retire]
  split
  · unfold look Store.look
    rw [Option.map_map, Option.map_map]
    rfl
  · rfl

/-- What a slot held is held no more once it is blank. -/
theorem held_returned (hstore : c.store.Sound loose) (hx : c.look id = some x) (o : ObjectId) :
    (c.returned id x).store.held o + x.holds o = c.store.held o := by
  have hblank : (c.returned id x).look id = some {} := by
    rw [look_returned, if_pos rfl, hx]
    rfl
  -- the sum over all slots changes by what the one slot held
  have htotal : (c.returned id x).store.arena.totalSlots = c.store.arena.totalSlots :=
    Arena.totalSlots_modify
  have hheld := hstore.held_update htotal hx hblank
    (fun j hj => by
      change (c.returned id x).look j = _
      rw [look_returned, if_neg hj]
      rfl) o
  rw [Slot.holds_blank] at hheld
  exact hheld

/-- What was blanked is released, so the balance stays. -/
theorem Balanced.returned (h : c.Balanced cells) (hstore : c.store.Sound loose)
    (hx : c.look id = some x) : (c.returned id x).Balanced cells := by
  intro o
  have hheld := held_returned hstore hx o
  rw [Slot.holds_eq] at hheld
  change ((c.objects.discard x.car).discard x.cdr).strong o = _
  rw [Objects.strong_discard, Objects.strong_discard, h o]
  omega

/-! ### A recycling step -/

/-- `c'` is `c` after the disposed pair `id` was given back to the arena. -/
structure Recycled (c : Collector) (id : PairId) (x : Slot) (c' : Collector) : Prop where
  look_eq : c.look id = some x
  color_eq : x.color = .free
  store : c'.store.Sound []
  arena : c'.store.arena = c.store.arena.retire id
  frame : c' = { c with
    store := c'.store
    objects := (c.objects.discard x.car).discard x.cdr
    stats := { c.stats with pairsRecycled := c.stats.pairsRecycled + 1 } }

/-- **A recycling step gives one disposed pair back**, if there is one. -/
theorem Sound.recycle (h : c.store.Sound []) :
    Collector.recycle.Yields ⟨c, es⟩ fun r u =>
      match r with
      | none => u = ⟨c, es⟩ ∧ ∀ j x, c.look j = some x → x.color ≠ .free
      | some id => ∃ x, c.Recycled id x u.state ∧ u.events = es.push (.recycled id) := by
  unfold Collector.recycle
  rw [Action.yields_bind, yields_onStore]
  refine h.classPop.mono fun r m hm => ?_
  obtain ⟨s, es'⟩ := m
  obtain ⟨rfl, hm⟩ := hm
  cases r with
  | none =>
    rw [Action.yields_pure]
    obtain ⟨rfl, hempty⟩ := hm
    exact ⟨rfl, fun j x hx => h.look_of_empty (by decide) hempty hx⟩
  | some id =>
    -- the pair taken out of its class is loose until its slot is given back
    obtain ⟨rfl, hback, hsound⟩ := hm
    obtain ⟨x, hx, hcol, -⟩ := h.look_back hback
    rw [Action.yields_bind]
    refine (recycleSlot_yields
      (c := { c with store := ⟨c.store.arena, c.store.classes.modify .free (·.pop)⟩ })
      (x := x) hx).mono fun _ u hu => ?_
    rw [hu, Action.yields_bind, yields_tally, Action.yields_bind, Action.yields_report,
      Action.yields_pure]
    exact ⟨x, ⟨hx, hcol, hsound.retire, rfl, rfl⟩, rfl⟩

namespace Recycled

variable (hs : c.Recycled id x c')

include hs

theorem look_eq_ite (j : PairId) : c'.look j = if j = id then some {} else c.look j := by
  unfold look Store.look
  rw [hs.arena, Arena.slot?_retire]
  have hx := hs.look_eq
  split
  · obtain ⟨s, hslot, -⟩ := Store.look_eq_some.1 hx
    rw [hslot]
    rfl
  · rfl

/-- A slot that is not vacant after the recycling was as it is before. -/
theorem look_of_ne_void (hy : c'.look j = some y) (hcol : y.color ≠ .void) :
    c.look j = some y := by
  rw [hs.look_eq_ite] at hy
  split at hy
  · obtain rfl := Option.some.inj hy
    exact absurd rfl hcol
  · exact hy

/-- Live pairs are not recycled. -/
theorem look_of_isLive (hy : c.look j = some y) (hl : y.color.isLive = true) :
    c'.look j = some y := by
  rw [hs.look_eq_ite, if_neg, hy]
  -- the pair recycled was free, and that is no live color
  rintro rfl
  rw [hs.look_eq] at hy
  obtain rfl := Option.some.inj hy
  rw [hs.color_eq] at hl
  exact absurd hl (by decide)

theorem isLive_iff : c'.IsLive j ↔ c.IsLive j := by
  constructor
  · rintro ⟨y, hy, hl⟩
    exact ⟨y, hs.look_of_ne_void hy (Color.ne_void_of_isLive hl), hl⟩
  · rintro ⟨y, hy, hl⟩
    exact ⟨y, hs.look_of_isLive hy hl, hl⟩

theorem graph_eq : c'.graph = c.graph := by
  funext j
  refine Option.ext fun m => ?_
  rw [graph_eq_some, graph_eq_some]
  constructor
  · rintro ⟨y, hy, hl, rfl⟩
    exact ⟨y, hs.look_of_ne_void hy (Color.ne_void_of_isLive hl), hl, rfl⟩
  · rintro ⟨y, hy, hl, rfl⟩
    exact ⟨y, hs.look_of_isLive hy hl, hl, rfl⟩

theorem held_eq (o : ObjectId) : c'.store.held o = (c.returned id x).store.held o := by
  unfold Store.held Store.look
  rw [hs.arena]
  rfl

theorem balanced (h : c.Balanced cells) (hstore : c.store.Sound []) : c'.Balanced cells :=
  (h.returned hstore hs.look_eq).congr (by rw [hs.frame]; rfl) hs.held_eq

/-- **Recycling keeps the invariant.** A vacant slot is blank, and live pairs held none of the
disposed ones. -/
theorem sound (h : c.Sound) : c'.Sound where
  store := hs.store
  pageSize_eq := by
    rw [hs.arena, hs.frame]
    exact h.pageSize_eq
  maxPages_eq := by
    rw [hs.arena, hs.frame]
    exact h.maxPages_eq
  rooted := by
    intro j y hy
    rw [hs.look_eq_ite] at hy
    split at hy
    · obtain rfl := Option.some.inj hy
      decide
    · exact h.rooted hy
  closed := by
    intro j y child hy hl hchild
    rw [hs.isLive_iff]
    exact h.closed (hs.look_of_ne_void hy (Color.ne_void_of_isLive hl)) hl hchild
  tricolor := by
    intro j y child z hy hto hchild hz
    have hgen : c'.generation = c.generation := by rw [hs.frame]
    rw [hgen] at hto ⊢
    rw [← Bool.not_eq_true]
    intro hfrom
    -- both pairs are live, so neither of them is the one recycled
    have hy' := hs.look_of_ne_void hy (Color.ne_void_of_isLive (Generation.isLive_of_isTo hto))
    have hz' := hs.look_of_ne_void hz (Color.ne_void_of_isLive (Generation.isLive_of_isFrom hfrom))
    rw [h.tricolor hy' hto hchild hz'] at hfrom
    exact absurd hfrom (by decide)

end Recycled

end Collector

end ConsHeap
