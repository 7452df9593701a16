import ConsHeap.Proofs.Collector.Checks
import ConsHeap.Proofs.Heap.Operations

/-!
# References are kept by whatever does not fault

`Heap.Owned` is about programs that keep to handles. This file is about all programs: they may have
worked on the collector behind the back of the heap, so that a handle need not own a root any more,
and the pair of a handle need not even be in use. What is left is that every reference to a managed
object is accounted for, by fields and by a multiset of cells outside (`Heap.Kept`).

Each operation has one lemma of one shape. If it ends without a fault, its copies and what it gives
up are accounted for again, and no object that was dead has come back: `Heap.Keeps` relates the heap
before and after.
-/

namespace ConsHeap

namespace Heap

variable {α : Type} {H H' K : Heap} {cells cells' : Multiset Cell} {cell : Cell} {id : PairId}
  {es es' : Array Event} {f car cdr value tail : Handle} {side : Collector.Side}
  {op : Collector.Op} {reply : Collector.Reply} {c' : Collector}

/-! ### The books -/

/-- The fields of the heap and the cells `cells` outside own all references. -/
structure Kept (H : Heap) (cells : Multiset Cell) : Prop where
  sound : H.collector.Sound
  balanced : H.collector.Balanced cells

/-- What follows for a heap from an operation on it: the books are right for the cells `cells`, and
the dead are dead. -/
structure Keeps (H : Heap) (cells : Multiset Cell) (H' : Heap) : Prop where
  kept : H'.Kept cells
  ages : H.objects.Ages H'.objects

theorem Keeps.trans (h : H.Keeps cells H') (h' : H'.Keeps cells' K) : H.Keeps cells' K :=
  ⟨h'.kept, h.ages.trans h'.ages⟩

theorem Kept.keeps (h : H.Kept cells) : H.Keeps cells H :=
  ⟨h, .refl _⟩

theorem Kept.create {o : Options} (created : Heap.create o = .ok H) : H.Kept 0 := by
  have howned := Owned.create created
  exact ⟨howned.sound, howned.balanced⟩

namespace Kept

/-- What an outside cell holds is alive. -/
theorem alive_of_mem (h : H.Kept cells) (hmem : cell ∈ cells) (a : ObjectId)
    (ha : cell = .managed a) : 0 < H.objects.strong a :=
  h.balanced.strong_pos_of_mem (ha ▸ hmem)

/-- What a field holds is alive, whatever became of its pair. -/
theorem alive_of_slot (h : H.Kept cells) (side : Collector.Side) {x : Slot}
    (hx : H.slot id = .ok x) (a : ObjectId) (ha : side.get x = .managed a) :
    0 < H.objects.strong a := by
  have hheld := Store.holds_le_held (Collector.look_of_slot hx) a
  rw [Slot.holds_eq] at hheld
  refine h.balanced.strong_pos_of_held (Nat.lt_of_lt_of_le ?_ hheld)
  cases side with
  | car => rw [if_pos (show x.car = _ from ha)]; omega
  | cdr => rw [if_pos (show x.cdr = _ from ha)]; omega

/-- Cells without an object do not matter. -/
theorem cons_iff (hcell : cell.managed? = none) : H.Kept (cell ::ₘ cells) ↔ H.Kept cells := by
  have hcount : ∀ o, (cell ::ₘ cells).count (.managed o) = cells.count (.managed o) :=
    fun o => Multiset.count_cons_of_ne (Cell.ne_managed hcell o) cells
  constructor
  · intro h
    exact ⟨h.sound, h.balanced.of_count fun o => (hcount o).symm⟩
  · intro h
    exact ⟨h.sound, h.balanced.of_count hcount⟩

/-- A cell is copied, if its object is alive. -/
theorem copy (h : H.Kept cells) (halive : ∀ a, cell = .managed a → 0 < H.objects.strong a) :
    H.Keeps (cell ::ₘ cells) (H.withObjects (H.objects.acquire cell)) where
  kept :=
    { sound := h.sound.withObjects _
      balanced := h.balanced.gain fun _ =>
        Objects.strong_acquire fun a ha => Objects.lt_size_of_strong (halive a ha) }
  ages := .acquire halive

/-- A cell is dropped. -/
theorem release (h : H.Kept (cell ::ₘ cells)) :
    H.Keeps cells (H.withObjects (H.objects.discard cell)) where
  kept :=
    { sound := h.sound.withObjects _
      balanced := h.balanced.discard }
  ages := (Objects.Releases.discard _ _).ages

/-- An object is made, and whoever made it holds it. -/
theorem alloc (h : H.Kept cells) (m : Managed) :
    H.Keeps (.managed (H.objects.alloc m).1 ::ₘ cells) (H.withObjects (H.objects.alloc m).2) where
  kept :=
    { sound := h.sound.withObjects _
      balanced := h.balanced.gain fun _ => Objects.strong_alloc_add }
  ages := .alloc m

/-! ### The collector -/

/-- **An operation of the collector** takes over the references of its cells. -/
theorem perform (h : H.Kept (op.cells + cells))
    (hdone : Collector.perform op ⟨H.collector, es⟩ = .ok reply ⟨c', es'⟩) :
    H.Keeps cells { H with collector := c' } := by
  have hperforms := h.sound.performs_of_ok hdone
  exact ⟨⟨hperforms.sound h.sound, hperforms.balanced h.sound h.balanced⟩, hperforms.releases.ages⟩

/-- What is done by calling the collector is an operation of it. -/
theorem onCollector {a : Action Collector α} (h : H.Kept (op.cells + cells))
    (answer : α → Collector.Reply) (hop : Collector.perform op = (do return answer (← a))) :
    (Heap.onCollector a).Leaves ⟨H, es⟩ fun _ u => H.Keeps cells u.state := by
  refine Action.leaves_focus.2 ?_
  intro x m hx
  have hdone : Collector.perform op ⟨H.collector, es⟩ = .ok (answer x) m := by
    rw [hop]
    exact Action.bind_eq_ok.2 ⟨x, m, hx, rfl⟩
  exact h.perform hdone

/-- The same for an operation that is given no cells. -/
theorem onCollector_plain {a : Action Collector α} {answer : α → Collector.Reply}
    (h : H.Kept cells) (op : Collector.Op) (hcells : op.cells = 0)
    (hop : Collector.perform op = (do return answer (← a))) :
    (Heap.onCollector a).Leaves ⟨H, es⟩ fun _ u => H.Keeps cells u.state := by
  apply onCollector _ answer hop
  rw [hcells, zero_add]
  exact h

/-! ### Handles -/

/-- A handle for a cell that was copied. -/
theorem object (h : H.Kept (cell ::ₘ cells)) :
    (Heap.object cell).Leaves ⟨H, es⟩ fun r u => H.Keeps (r.cell ::ₘ cells) u.state := by
  cases hp : cell.pair? with
  | none =>
    rw [object_of_none hp]
    exact (yields_adopt.2 h.keeps).leaves
  | some id =>
    rw [object_of_pair hp, Action.leaves_bind]
    refine (h.onCollector_plain (.acquire id) rfl rfl).mono fun _ m hm => ?_
    exact (yields_adopt.2 hm).leaves

/-- A cell that a handle holds is copied. -/
theorem cellOf (h : H.Kept cells) (hf : f.cell ∈ cells) :
    (Heap.cellOf f).Leaves ⟨H, es⟩ fun r u => r = f.cell ∧ H.Keeps (f.cell ::ₘ cells) u.state := by
  have hcopy := h.copy (h.alive_of_mem hf)
  have hrest : ∀ es, (do Heap.acquire f.cell; return f.cell : Action Heap Cell).Leaves ⟨H, es⟩
      fun r u => r = f.cell ∧ H.Keeps (f.cell ::ₘ cells) u.state := by
    intro es
    refine Action.Yields.bind_leaves (yields_acquire.2 ?_)
    exact Action.leaves_pure.2 ⟨rfl, hcopy⟩
  cases hp : f.cell.pair? with
  | none =>
    rw [cellOf_of_none hp]
    exact hrest es
  | some id =>
    rw [cellOf_of_pair hp, Action.leaves_bind, Action.leaves_query]
    intro slot _
    rw [Action.leaves_bind, Action.leaves_require]
    intro _
    exact hrest es

/-- One more handle. -/
theorem clone (h : H.Kept cells) (hf : f.cell ∈ cells) :
    (Heap.clone f).Leaves ⟨H, es⟩ fun r u => H.Keeps (r.cell ::ₘ cells) u.state := by
  have hrest : ∀ {H' : Heap} {es}, H.Keeps cells H' →
      (do Heap.acquire f.cell; return f : Action Heap Handle).Leaves ⟨H', es⟩
        fun r u => H.Keeps (r.cell ::ₘ cells) u.state := by
    intro H' es hkeeps
    refine Action.Yields.bind_leaves (yields_acquire.2 ?_)
    have hcopy := hkeeps.kept.copy (hkeeps.kept.alive_of_mem hf)
    exact Action.leaves_pure.2 (hkeeps.trans hcopy)
  cases hp : f.cell.pair? with
  | none =>
    rw [clone_of_none hp]
    exact hrest h.keeps
  | some id =>
    rw [clone_of_pair hp, Action.leaves_bind]
    exact (h.onCollector_plain (.retain id) rfl rfl).mono fun _ m hm => hrest hm

/-- A handle is given up. -/
theorem drop (h : H.Kept (f.cell ::ₘ cells)) :
    (Heap.drop f).Leaves ⟨H, es⟩ fun _ u => H.Keeps cells u.state := by
  cases hp : f.cell.pair? with
  | none =>
    rw [drop_of_none hp]
    exact (yields_discard.2 h.release).leaves
  | some id =>
    -- the root goes first; the work that this pays for may release other objects
    rw [drop_of_pair hp, Action.leaves_bind]
    refine (h.onCollector_plain (.unroot id) rfl rfl).mono fun _ m hm => ?_
    exact (yields_discard.2 (hm.trans hm.kept.release)).leaves

/-- While a fault is under way, the cell of a handle is given up in any case. -/
theorem dropUnwinding (h : H.Kept (f.cell ::ₘ cells)) (collectorInUse : Bool) :
    (Heap.dropUnwinding f collectorInUse).Leaves ⟨H, es⟩ fun _ u => H.Keeps cells u.state := by
  unfold Heap.dropUnwinding
  cases collectorInUse with
  | true => exact (yields_discard.2 h.release).leaves
  | false => exact h.drop

/-! ### New values -/

/-- A value without an object. -/
theorem adopt (h : H.Kept cells) (hcell : cell.managed? = none) :
    (Heap.adopt cell).Leaves ⟨H, es⟩ fun r u => H.Keeps (r.cell ::ₘ cells) u.state :=
  (yields_adopt.2 ((cons_iff hcell).2 h).keeps).leaves

theorem string (h : H.Kept cells) (text : String) :
    (Heap.string text).Leaves ⟨H, es⟩ fun r u => H.Keeps (r.cell ::ₘ cells) u.state := by
  apply Action.Yields.leaves
  unfold Heap.string
  rw [Action.yields_bind, yields_onCollector, Action.yields_updateGet, yields_adopt]
  exact h.alloc ⟨.string, text⟩

/-- A symbol is held once more, or made. -/
theorem symbol (h : H.Kept cells) (name : String) :
    (Heap.symbol name).Leaves ⟨H, es⟩ fun r u => H.Keeps (r.cell ::ₘ cells) u.state := by
  apply Action.Yields.leaves
  unfold Heap.symbol
  rw [Action.yields_bind, Action.yields_updateGet, yields_adopt]
  exact ⟨⟨h.sound.withObjects _, h.balanced.gain (SymbolTable.strong_intern name)⟩,
    SymbolTable.ages_intern name⟩

/-! ### Pairs -/

/-- A pair takes over copies of two cells, or gives them up if there is no room for it. -/
theorem cons (h : H.Kept cells) (hcar : car.cell ∈ cells) (hcdr : cdr.cell ∈ cells) :
    (Heap.cons car cdr).Leaves ⟨H, es⟩ fun r u =>
      match r with
      | .ok f => H.Keeps (f.cell ::ₘ cells) u.state
      | .error _ => H.Keeps cells u.state := by
  unfold Heap.cons
  rw [Action.leaves_bind]
  refine (h.cellOf hcar).mono fun a m hm => ?_
  obtain ⟨rfl, hm⟩ := hm
  rw [Action.leaves_bind]
  refine (hm.kept.cellOf (Multiset.mem_cons_of_mem hcdr)).onFault.mono fun b w hw => ?_
  obtain ⟨rfl, hw⟩ := hw
  -- two copies are held now, and the allocation takes over both, whatever it answers
  have hcopies := hm.trans hw
  have howned : w.state.Kept ((Collector.Op.make car.cell cdr.cell).cells + cells) := by
    have hkept := hcopies.kept
    rwa [Multiset.cons_swap, ← Multiset.singleton_add cdr.cell, ← Multiset.cons_add] at hkept
  rw [Action.leaves_bind]
  refine (howned.onCollector Collector.allocated ?_).mono fun r u hu => ?_
  · exact congrArg (Collector.make car.cell cdr.cell >>= ·) (funext fun r => by cases r <;> rfl)
  · have hmade := hcopies.trans hu
    cases r with
    | error e => exact Action.leaves_pure.2 hmade
    | ok id =>
      refine Action.Yields.bind_leaves (yields_adopt.2 ?_)
      exact Action.leaves_pure.2 ⟨(cons_iff rfl).2 hmade.kept, hmade.ages⟩

/-- A list is built from its end, and what was built is given up where there is no room. -/
theorem prepend (items : List Handle) (h : H.Kept (tail.cell ::ₘ cells))
    (hitems : ∀ f ∈ items, f.cell ∈ cells) :
    (Heap.prepend items tail).Leaves ⟨H, es⟩ fun r u =>
      match r with
      | .ok front => H.Keeps (front.cell ::ₘ cells) u.state
      | .error _ => H.Keeps cells u.state := by
  induction items generalizing H tail es with
  | nil =>
    unfold Heap.prepend
    exact Action.leaves_pure.2 h.keeps
  | cons item rest ih =>
    have hitem : item.cell ∈ tail.cell ::ₘ cells :=
      Multiset.mem_cons_of_mem (hitems item List.mem_cons_self)
    unfold Heap.prepend
    rw [Action.leaves_bind]
    refine (h.cons hitem (Multiset.mem_cons_self _ _)).onFault.mono fun r m hm => ?_
    cases r with
    | error e =>
      -- the tail is given up with everything that was built
      rw [Action.leaves_bind]
      refine hm.kept.drop.mono fun _ u hu => ?_
      exact Action.leaves_pure.2 (hm.trans hu)
    | ok front =>
      -- the new front is held instead of the old one
      have hswap : m.state.Kept (tail.cell ::ₘ front.cell ::ₘ cells) := by
        rw [Multiset.cons_swap]
        exact hm.kept
      rw [Action.leaves_bind]
      refine hswap.drop.onFault.mono fun _ w hw => ?_
      have hbuilt := hm.trans hw
      refine (ih hw.kept fun f hf => hitems f (List.mem_cons_of_mem _ hf)).mono fun r u hu => ?_
      cases r with
      | ok front => exact hbuilt.trans hu
      | error e => exact hbuilt.trans hu

theorem list (items : List Handle) (h : H.Kept cells) (hitems : ∀ f ∈ items, f.cell ∈ cells) :
    (Heap.list items).Leaves ⟨H, es⟩ fun r u =>
      match r with
      | .ok front => H.Keeps (front.cell ::ₘ cells) u.state
      | .error _ => H.Keeps cells u.state := by
  unfold Heap.list Heap.nil
  refine Action.Yields.bind_leaves (yields_adopt.2 ?_)
  exact prepend items.reverse ((cons_iff rfl).2 h) fun f hf => hitems f (List.mem_reverse.1 hf)

/-- What one side of a pair holds is copied for a new handle. -/
theorem get (h : H.Kept cells) :
    (Heap.get f side).Leaves ⟨H, es⟩ fun r u =>
      H.Keeps (r.elim cells fun g => g.cell ::ₘ cells) u.state := by
  cases hp : f.cell.pair? with
  | none =>
    rw [get_of_none hp]
    exact Action.leaves_pure.2 h.keeps
  | some id =>
    rw [get_of_pair hp, Action.leaves_bind, Action.leaves_query]
    intro slot hslot
    -- the field that is read keeps its object alive until it is copied
    have hcopy := h.copy (h.alive_of_slot side hslot)
    refine Action.Yields.bind_leaves (yields_acquire.2 ?_)
    rw [Action.leaves_bind]
    refine hcopy.kept.object.mono fun r m hm => ?_
    exact Action.leaves_pure.2 (hcopy.trans hm)

theorem set (h : H.Kept cells) (hvalue : value.cell ∈ cells) :
    (Heap.set f side value).Leaves ⟨H, es⟩ fun _ u => H.Keeps cells u.state := by
  cases hp : f.cell.pair? with
  | none =>
    rw [set_of_none hp]
    exact Action.leaves_pure.2 h.keeps
  | some id =>
    rw [set_of_pair hp, Action.leaves_bind]
    refine (h.cellOf hvalue).mono fun cell m hm => ?_
    obtain ⟨rfl, hm⟩ := hm
    rw [Action.leaves_bind]
    -- the copy is stored, and what stood there is given up
    have howned : m.state.Kept ((Collector.Op.write id side value.cell).cells + cells) :=
      Multiset.singleton_add value.cell cells ▸ hm.kept
    refine (howned.onCollector _ rfl).mono fun _ u hu => ?_
    exact Action.leaves_pure.2 (hm.trans hu)

theorem unset (h : H.Kept cells) :
    (Heap.unset f side).Leaves ⟨H, es⟩ fun _ u => H.Keeps cells u.state := by
  cases hp : f.cell.pair? with
  | none =>
    rw [unset_of_none hp]
    exact Action.leaves_pure.2 h.keeps
  | some id =>
    rw [unset_of_pair hp, Action.leaves_bind]
    have howned : H.Kept ((Collector.Op.write id side .nil).cells + cells) :=
      Multiset.singleton_add Cell.nil cells ▸ (cons_iff rfl).2 h
    refine (howned.onCollector _ rfl).mono fun _ u hu => ?_
    exact Action.leaves_pure.2 hu

/-! ### Collection -/

theorem collect (h : H.Kept cells) :
    Heap.collect.Leaves ⟨H, es⟩ fun _ u => H.Keeps cells u.state := by
  unfold Heap.collect Heap.prune
  rw [Action.leaves_bind]
  refine (h.onCollector_plain .cycle rfl rfl).mono fun n m hm => ?_
  apply Action.Yields.leaves
  rw [Action.yields_bind, Action.yields_updateGet, Action.yields_bind, Action.yields_report,
    Action.yields_pure]
  -- the table of symbols owns nothing
  exact ⟨⟨hm.kept.sound, hm.kept.balanced⟩, hm.ages⟩

end Kept

end Heap

end ConsHeap
