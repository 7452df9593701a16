import ConsHeap.Proofs.Heap.Ownership

/-!
# What heap operations do

Each operation on handles is followed through the collector and the table of symbols, and what is
left is a statement about owners and the graph: `Heap.Owned` before, `Heap.Becomes` after. A handle
passed to an operation is among the owners, so its pair is rooted and no check of the discipline can
fail. The one check that is left is that of the largest root count, `Heap.Room`.

* `Heap.Owned.clone`, `Heap.Owned.object`, `Heap.Owned.drop` — a handle more or less;
* `Heap.Owned.leak` — a handle given up while the collector is in use, whose root stays;
* `Heap.Owned.cons`, `Heap.Owned.set`, `Heap.Owned.unset` — one pair more, or one pair changed;
* `Heap.Owned.collect` — a collection.
-/

namespace ConsHeap

namespace Heap

variable {α : Type} {H H' : Heap} {E : Graph} {hs loose : Multiset Cell} {cell : Cell}
  {id : PairId} {n : Node} {es : Array Event} {f car cdr value tail : Handle}
  {side : Collector.Side}

/-! ### Primitive actions -/

theorem yields_onCollector {a : Action Collector α} {Q : α → Traced Heap → Prop} :
    (onCollector a).Yields ⟨H, es⟩ Q ↔
      a.Yields ⟨H.collector, es⟩ fun r m => Q r ⟨{ H with collector := m.state }, m.events⟩ :=
  Action.yields_focus

theorem yields_adopt {Q : Handle → Traced Heap → Prop} :
    (adopt cell).Yields ⟨H, es⟩ Q ↔ Q ⟨H.ident, cell⟩ ⟨H, es⟩ :=
  Action.yields_ask

theorem yields_acquire {Q : Unit → Traced Heap → Prop} :
    (Heap.acquire cell).Yields ⟨H, es⟩ Q ↔
      Q () ⟨H.withObjects (H.objects.acquire cell), es⟩ := by
  unfold Heap.acquire Collector.onObjects
  rw [yields_onCollector, Action.yields_update]
  rfl

theorem yields_discard {Q : Unit → Traced Heap → Prop} :
    (Heap.discard cell).Yields ⟨H, es⟩ Q ↔
      Q () ⟨H.withObjects (H.objects.discard cell), es⟩ := by
  unfold Heap.discard
  rw [yields_onCollector, Collector.yields_discard]
  rfl

/-- The slot of a pair in use can be read. -/
theorem slot_of_graph (hn : H.graph id = some n) :
    ∃ s, H.slot id = .ok s ∧ ∀ side : Collector.Side, side.get s = side.getNode n := by
  obtain ⟨x, hx, -, rfl⟩ := Collector.graph_eq_some.1 hn
  obtain ⟨s, hs, rfl⟩ := Collector.slot_of_look hx
  exact ⟨s, hs, fun side => by cases side <;> rfl⟩

/-- The root count of a slot is that of its pair in the graph. -/
theorem rootCount_of_graph {c : Collector} {s : Slot} (hs : c.slot id = .ok s)
    (hn : c.graph id = some n) : s.rootCount = n.roots := by
  obtain ⟨x, hx, -, rfl⟩ := Collector.graph_eq_some.1 hn
  obtain rfl := Option.some.inj ((Collector.look_of_slot hs).symm.trans hx)
  rfl

/-! ### Room for roots -/

/-- One more root on the pair of a cell, if it is one, still fits. -/
def Room (H : Heap) (cell : Cell) : Prop :=
  ∀ id n, cell = .pair id → H.graph id = some n → n.roots < Collector.maxRoots

/-- A pair in use with room for one more root may be acquired. -/
theorem Owned.liveArgs_acquire (hcell : H.Has (.pair id)) (hroom : H.Room (.pair id)) :
    Collector.Op.LiveArgs H.collector (.acquire id) := by
  obtain ⟨n, hn⟩ : ∃ n, H.graph id = some n := hcell
  have hmax := hroom id n rfl hn
  obtain ⟨x, hx, hl, rfl⟩ := Collector.graph_eq_some.1 hn
  exact ⟨x, hx, hl, fun _ => hmax⟩

/-- What follows from an operation that made a handle of an object `m`: among the objects that were
alive, the one of the handle can only be a symbol of that name. -/
structure Supplies (H : Heap) (m : Managed) (hs loose : Multiset Cell) (o : ObjectId) (H' : Heap) :
    Prop where
  becomes : H.Becomes H.graph (.managed o ::ₘ hs) loose H'
  value : H'.objects.value? o = some m
  eq_iff : ∀ {a}, 0 < H.objects.strong a →
    (a = o ↔ m.kind = .symbol ∧ H.objects.value? a = some m)

/-! ### Operations by the kind of their handle -/

theorem object_of_pair (h : cell.pair? = some id) : Heap.object cell = (do
    onCollector (Collector.acquire id)
    adopt cell) := by
  unfold Heap.object
  rw [h]

theorem object_of_none (h : cell.pair? = none) : Heap.object cell = adopt cell := by
  unfold Heap.object
  rw [h]

theorem cellOf_of_pair (h : f.cell.pair? = some id) : cellOf f = (do
    let slot ← Action.query (·.slot id)
    Action.require (slot.color.isRoot = true) (.unrootedHandle id slot.color)
    acquire f.cell
    return f.cell) := by
  unfold cellOf
  rw [h]

theorem cellOf_of_none (h : f.cell.pair? = none) : cellOf f = (do
    acquire f.cell
    return f.cell) := by
  unfold cellOf
  rw [h]

theorem clone_of_pair (h : f.cell.pair? = some id) : clone f = (do
    onCollector (Collector.retain id)
    acquire f.cell
    return f) := by
  unfold clone
  rw [h]

theorem clone_of_none (h : f.cell.pair? = none) : clone f = (do
    acquire f.cell
    return f) := by
  unfold clone
  rw [h]

theorem drop_of_pair (h : f.cell.pair? = some id) : drop f = (do
    let _ ← onCollector (Collector.unroot id)
    discard f.cell) := by
  unfold drop
  rw [h]

theorem drop_of_none (h : f.cell.pair? = none) : drop f = discard f.cell := by
  unfold drop
  rw [h]

theorem get_of_pair (h : f.cell.pair? = some id) : get f side = (do
    let slot ← Action.query (·.slot id)
    acquire (side.get slot)
    return some (← Heap.object (side.get slot))) := by
  unfold get
  rw [h]

theorem get_of_none (h : f.cell.pair? = none) : get f side = return none := by
  unfold get
  rw [h]

theorem set_of_pair (h : f.cell.pair? = some id) : set f side value = (do
    let cell ← cellOf value
    onCollector (Collector.write id side cell)
    return .ok ()) := by
  unfold set
  rw [h]

theorem set_of_none (h : f.cell.pair? = none) :
    set f side value = return .error (notAPair side) := by
  unfold set
  rw [h]

theorem unset_of_pair (h : f.cell.pair? = some id) : unset f side = (do
    onCollector (Collector.write id side .nil)
    return .ok ()) := by
  unfold unset
  rw [h]

theorem unset_of_none (h : f.cell.pair? = none) :
    unset f side = return .error (notAPair side) := by
  unfold unset
  rw [h]

namespace Owned

/-! ### Handles more and less -/

/-- A change of the roots of one pair is a change of the handles on it. -/
theorem rerooted {op : Collector.Op} {reply : Collector.Reply} {c' : Collector}
    (hs' : Multiset Cell) (count : Nat → Nat) (h : H.Owned hs loose)
    (hp : H.collector.Performs op reply c') (hn : H.graph id = some n) (hcells : op.cells = 0)
    (heffect : op.effect reply H.graph =
      H.graph.alter id fun n => { n with roots := count n.roots })
    (hself : hs'.count (.pair id) = count (hs.count (.pair id)))
    (hother : ∀ cell, cell ≠ .pair id → hs'.count cell = hs.count cell) :
    H.Becomes H.graph hs' loose { H with collector := c' } := by
  have howned : H.Owned hs (op.cells + loose) := by rwa [hcells, zero_add]
  have hperforms := howned.performs hs' hp (fun j => ?_) fun o => hother _ (by simp)
  · -- roots aside, the graph is that of before
    refine hperforms.mono ?_
    rw [heffect]
    exact Graph.alter_within (fun _ => rfl) fun _ => rfl
  · rw [heffect, Graph.roots_alter hn]
    split
    · rename_i hj
      calc hs'.count (.pair j) = count (hs.count (.pair id)) := by rw [hj, hself]
        _ = count n.roots := by rw [h.roots, Graph.roots_of_node hn]
    · rename_i hj
      calc hs'.count (.pair j) = hs.count (.pair j) := hother _ fun he => hj (Cell.pair.inj he)
        _ = H.graph.roots j := h.roots j

/-- A root more on a pair is a handle more. -/
theorem rooted {op : Collector.Op} {c' : Collector} (h : H.Owned hs loose)
    (hop : op = .retain id ∨ op = .acquire id) (hp : H.collector.Performs op .done c')
    (hcell : H.Has (.pair id)) :
    H.Becomes H.graph (.pair id ::ₘ hs) loose { H with collector := c' } := by
  obtain ⟨n, hn⟩ : ∃ n, H.graph id = some n := hcell
  refine h.rerooted _ (fun n => n + 1) hp hn ?_ ?_ (Multiset.count_cons_self _ _)
    fun cell hne => Multiset.count_cons_of_ne hne hs
  · rcases hop with rfl | rfl <;> rfl
  · rcases hop with rfl | rfl <;> rfl

/-- A handle of a cell that was copied. -/
theorem object (h : H.Owned hs (cell ::ₘ loose)) (hcell : ∀ id, cell = .pair id → H.Has (.pair id))
    (hroom : H.Room cell) :
    (Heap.object cell).Yields ⟨H, es⟩ fun r u =>
      r = ⟨H.ident, cell⟩ ∧ H.Becomes H.graph (cell ::ₘ hs) loose u.state := by
  cases hp : cell.pair? with
  | none =>
    rw [object_of_none hp, yields_adopt]
    exact ⟨rfl, (h.adopt hp).becomes⟩
  | some id =>
    rw [object_of_pair hp, Action.yields_bind, yields_onCollector]
    obtain rfl := Cell.pair?_eq_some.1 hp
    have hargs : Collector.Op.LiveArgs H.collector (.acquire id) :=
      liveArgs_acquire (hcell id rfl) hroom
    refine (h.sound.acquire hargs).mono fun _ m hm => ?_
    rw [yields_adopt]
    exact ⟨rfl, (cons_loose_pair.1 h).rooted (.inr rfl) hm (hcell id rfl)⟩

/-- The cell of a handle can always be copied. -/
theorem cellOf (h : H.Owned hs loose) (hf : f.cell ∈ hs) :
    (Heap.cellOf f).Yields ⟨H, es⟩ fun r u =>
      r = f.cell ∧ u = ⟨H.withObjects (H.objects.acquire f.cell), es⟩ := by
  cases hp : f.cell.pair? with
  | none =>
    rw [cellOf_of_none hp, Action.yields_bind, yields_acquire, Action.yields_pure]
    exact ⟨rfl, rfl⟩
  | some id =>
    -- the pair of a handle is rooted, so the check passes
    have hcell := Cell.pair?_eq_some.1 hp
    obtain ⟨x, hx, hr⟩ := h.look_of_mem (hcell ▸ hf)
    obtain ⟨s, hs, rfl⟩ := Collector.slot_of_look hx
    rw [cellOf_of_pair hp, Action.yields_bind, Action.yields_query]
    refine ⟨s, hs, ?_⟩
    rw [Action.yields_bind, Action.yields_require]
    refine ⟨hr, ?_⟩
    rw [Action.yields_bind, yields_acquire, Action.yields_pure]
    exact ⟨rfl, rfl⟩

/-- One more handle. -/
theorem clone (h : H.Owned hs loose) (hf : f.cell ∈ hs) (hroom : H.Room f.cell) :
    (Heap.clone f).Yields ⟨H, es⟩ fun r u =>
      r = f ∧ H.Becomes H.graph (f.cell ::ₘ hs) loose u.state := by
  have hhas := h.has_of_mem hf
  cases hp : f.cell.pair? with
  | none =>
    rw [clone_of_none hp, Action.yields_bind, yields_acquire, Action.yields_pure]
    have hcopied := h.acquire hhas
    exact ⟨rfl, hcopied.trans (hcopied.owned.adopt hp).becomes⟩
  | some id =>
    have hcell := Cell.pair?_eq_some.1 hp
    obtain ⟨x, hx, hr⟩ := h.look_of_mem (hcell ▸ hf)
    have hmax := hroom id x.node hcell (Collector.graph_of_look hx (Color.isLive_of_isRoot hr))
    rw [clone_of_pair hp, Action.yields_bind, yields_onCollector]
    refine (h.sound.retain (.inl rfl) hx hr hmax).mono fun _ m hm => ?_
    rw [Action.yields_bind, yields_acquire, Action.yields_pure]
    have hrooted := h.rooted (.inl rfl) hm (hcell ▸ hhas)
    rw [hcell]
    -- the copy of a pair owns nothing, so the root is all that was gained
    have hcopied := hrooted.owned.acquire (hrooted.owned.has_of_mem (Multiset.mem_cons_self _ _))
    have howned := cons_loose_pair.1 hcopied.owned
    exact ⟨rfl, hrooted.trans (hcopied.comp howned.becomes)⟩

/-- A handle is given up. -/
theorem drop (h : H.Owned (f.cell ::ₘ hs) loose) :
    (Heap.drop f).Yields ⟨H, es⟩ fun _ u => H.Becomes H.graph hs loose u.state := by
  cases hp : f.cell.pair? with
  | none =>
    rw [drop_of_none hp, yields_discard]
    exact (h.unadopt hp).discard
  | some id =>
    have hcell := Cell.pair?_eq_some.1 hp
    rw [hcell] at h
    obtain ⟨x, hx, hr⟩ := h.look_of_mem (Multiset.mem_cons_self _ _)
    have hn := Collector.graph_of_look hx (Color.isLive_of_isRoot hr)
    rw [drop_of_pair hp, Action.yields_bind, yields_onCollector]
    refine (h.sound.unroot hx hr).mono fun _ m hm => ?_
    -- what is discarded after the root is a copy of a pair, which owns nothing
    rw [yields_discard, hcell]
    have hdropped := h.rerooted hs (fun n => n - 1) hm hn rfl rfl
      (by rw [Multiset.count_cons_self]; rfl)
      fun cell hne => (Multiset.count_cons_of_ne hne hs).symm
    exact hdropped.trans (cons_loose_pair.2 hdropped.owned).discard

/-- A handle that is given up while the collector is in use leaves its root behind, if it has one,
and nothing else. -/
theorem leak (h : H.Owned (f.cell ::ₘ hs) loose) :
    (Heap.dropUnwinding f true).Yields ⟨H, es⟩ fun _ u =>
      H.Becomes H.graph (f.cell.pair?.elim hs fun id => .pair id ::ₘ hs) loose u.state := by
  unfold Heap.dropUnwinding
  rw [if_pos rfl, yields_discard]
  cases hp : f.cell.pair? with
  | none => exact (h.unadopt hp).discard
  | some id =>
    rw [Cell.pair?_eq_some.1 hp] at h ⊢
    exact (cons_loose_pair.2 h).discard

/-! ### New values -/

/-- A value that is no pair and no object belongs to nobody. -/
theorem plain (h : H.Owned hs loose) (hp : cell.pair? = none) (hm : cell.managed? = none) :
    H.Owned (cell ::ₘ hs) loose := by
  refine h.of_count (fun id => Multiset.count_cons_of_ne (Cell.ne_pair hp id) hs) fun o => ?_
  rw [Multiset.cons_add, Multiset.count_cons_of_ne (Cell.ne_managed hm o)]

/-- A new string. -/
theorem string (h : H.Owned hs loose) (text : String) :
    (Heap.string text).Yields ⟨H, es⟩ fun r u =>
      ∃ o, r = ⟨H.ident, .managed o⟩ ∧ H.Supplies ⟨.string, text⟩ hs loose o u.state := by
  unfold Heap.string
  rw [Action.yields_bind, yields_onCollector, Action.yields_updateGet, yields_adopt]
  refine ⟨_, rfl, ?_, Objects.value?_alloc_self, fun {a} ha => ?_⟩
  · refine h.of_objects (fun id => Multiset.count_cons_of_ne (by simp) hs) ?_ Objects.value?_alloc
      (h.tracks.alloc_string text)
    rw [Multiset.cons_add]
    exact h.balanced.gain fun _ => Objects.strong_alloc_add
  · exact iff_of_false (Objects.ne_fresh ha ⟨.string, text⟩) (by simp)

/-- The symbol of a name. -/
theorem symbol (h : H.Owned hs loose) (name : String) :
    (Heap.symbol name).Yields ⟨H, es⟩ fun r u =>
      ∃ o, r = ⟨H.ident, .managed o⟩ ∧ H.Supplies ⟨.symbol, name⟩ hs loose o u.state := by
  unfold Heap.symbol
  rw [Action.yields_bind, Action.yields_updateGet, yields_adopt]
  refine ⟨_, rfl, ?_, h.tracks.value?_intern_self name, fun {a} ha => ?_⟩
  · refine h.of_objects (fun id => Multiset.count_cons_of_ne (by simp) hs) ?_
      (SymbolTable.ages_intern name).value (h.tracks.intern name)
    rw [Multiset.cons_add]
    exact h.balanced.gain (SymbolTable.strong_intern name)
  · exact (h.tracks.eq_intern_iff name ha).trans (by simp)

/-! ### Pairs -/

/-- An allocation copies the cells of both handles, and the copies are what the collector takes
over. -/
theorem yields_cons {Q : Except HeapError Handle → Traced Heap → Prop} (h : H.Owned hs loose)
    (ha : car.cell ∈ hs) (hb : cdr.cell ∈ hs)
    (hmake : ∀ os, H.Becomes H.graph hs (cdr.cell ::ₘ car.cell ::ₘ loose) (H.withObjects os) →
      (∀ child ∈ car.cell.pair?.toList ++ cdr.cell.pair?.toList,
        (H.withObjects os).collector.IsLive child) →
      (Collector.make car.cell cdr.cell).Yields ⟨(H.withObjects os).collector, es⟩ fun r m =>
        Q (r.map fun id => ⟨H.ident, .pair id⟩) ⟨{ H with collector := m.state }, m.events⟩) :
    (Heap.cons car cdr).Yields ⟨H, es⟩ Q := by
  unfold Heap.cons
  rw [Action.yields_bind]
  refine (h.cellOf ha).mono fun a m hm => ?_
  obtain ⟨rfl, rfl⟩ := hm
  -- the cells of both handles are copied, and the copies are loose until the pair holds them
  have hcar := h.acquire (h.has_of_mem ha)
  rw [Action.yields_bind]
  refine (hcar.owned.cellOf hb).onFault.mono fun b m hm => ?_
  obtain ⟨rfl, rfl⟩ := hm
  have hcdr := hcar.trans (hcar.owned.acquire (hcar.owned.has_of_mem hb))
  rw [Action.yields_bind, yields_onCollector]
  refine (hmake _ hcdr fun child hchild => ?_).mono fun r m hm => ?_
  · rcases List.mem_append.1 hchild with hchild | hchild
    · exact (hcdr.owned.has_of_mem ha).isLive child hchild
    · exact (hcdr.owned.has_of_mem hb).isLive child hchild
  cases r with
  | error e =>
    rw [Action.yields_pure]
    exact hm
  | ok id =>
    simp only [Action.yields_bind, yields_adopt, Action.yields_pure]
    exact hm

/-- A pair of two handles, unless there is no room for it. -/
theorem cons (h : H.Owned hs loose) (ha : car.cell ∈ hs) (hb : cdr.cell ∈ hs) :
    (Heap.cons car cdr).Yields ⟨H, es⟩ fun r u =>
      match r with
      | .ok f => ∃ id, f = ⟨H.ident, .pair id⟩ ∧ H.graph id = none ∧
          H.Becomes (H.graph.insert id ⟨car.cell, cdr.cell, 1⟩) (.pair id ::ₘ hs) loose u.state
      | .error e => e.isOutOfMemory = true ∧
          H.Becomes H.graph hs loose u.state := by
  refine h.yields_cons ha hb fun os hcopied hlive => (hcopied.owned.sound.make hlive).mono
    fun r m hm => ?_
  have howned := hcopied.owned
  rw [Multiset.cons_swap, ← Multiset.singleton_add cdr.cell, ← Multiset.cons_add] at howned
  cases r with
  | error e =>
    -- the copies were given up again
    have hfailed := howned.performs hs hm hcopied.owned.roots fun _ => rfl
    exact ⟨hm.isOutOfMemory, hcopied.trans hfailed⟩
  | ok id =>
    have hnone : H.graph id = none := hm.graph_eq_none
    refine ⟨id, rfl, hnone, ?_⟩
    have hmade := howned.performs (.pair id ::ₘ hs) hm (fun j => ?_)
      fun o => Multiset.count_cons_of_ne (by simp) hs
    · exact hcopied.comp hmade
    · -- the id was free, so no handle had it
      change _ = (H.graph.insert id _).roots j
      rw [Graph.roots_insert]
      split
      · rename_i hj
        have hzero : H.graph.roots id = 0 := by
          unfold Graph.roots
          rw [hnone]
          rfl
        rw [hj, Multiset.count_cons_self, h.roots, hzero]
      · rename_i hj
        rw [Multiset.count_cons_of_ne (by simp [hj]), h.roots]

/-- One side of a pair. -/
theorem get (h : H.Owned hs loose) (hf : f.cell = .pair id) (hn : H.graph id = some n)
    (hroom : H.Room (side.getNode n)) :
    (Heap.get f side).Yields ⟨H, es⟩ fun r u =>
      r = some ⟨H.ident, side.getNode n⟩ ∧
        H.Becomes H.graph (side.getNode n ::ₘ hs) loose u.state := by
  obtain ⟨s, hs, hget⟩ := slot_of_graph hn
  have hhas := h.has_getNode hn side
  have hcopied := h.acquire hhas
  rw [get_of_pair (Cell.pair?_eq_some.2 hf), Action.yields_bind, Action.yields_query]
  refine ⟨s, hs, ?_⟩
  rw [hget, Action.yields_bind, yields_acquire, Action.yields_bind]
  refine (hcopied.owned.object (fun id he => ?_) hroom).mono fun r m hm => ?_
  · rw [he] at hhas
    exact hhas
  · rw [Action.yields_pure, hm.1]
    exact ⟨rfl, hcopied.trans hm.2⟩

/-- A write to a pair. -/
theorem written {c' : Collector} (h : H.Owned hs (cell ::ₘ loose))
    (hp : H.collector.Performs (.write id side cell) .done c') :
    H.Becomes (H.graph.alter id (side.setNode cell)) hs loose { H with collector := c' } := by
  rw [← Multiset.singleton_add] at h
  refine h.performs hs hp (fun j => ?_) fun _ => rfl
  rw [h.roots]
  change _ = (H.graph.alter id (side.setNode cell)).roots j
  unfold Graph.roots Graph.alter
  split
  · rename_i hj
    rw [hj]
    cases H.graph id with
    | none => rfl
    | some n => cases side <;> rfl
  · rfl

/-- One side of a pair overwritten with the value of a handle. -/
theorem set (h : H.Owned hs loose) (hf : f.cell = .pair id) (hmem : f.cell ∈ hs)
    (hvalue : value.cell ∈ hs) :
    (Heap.set f side value).Yields ⟨H, es⟩ fun r u =>
      r = .ok () ∧ H.Becomes (H.graph.alter id (side.setNode value.cell)) hs loose u.state := by
  obtain ⟨x, hx, hr⟩ := h.look_of_mem (hf ▸ hmem)
  have hcopied := h.acquire (h.has_of_mem hvalue)
  rw [set_of_pair (Cell.pair?_eq_some.2 hf), Action.yields_bind]
  refine (h.cellOf hvalue).mono fun cell m hm => ?_
  obtain ⟨rfl, rfl⟩ := hm
  rw [Action.yields_bind, yields_onCollector]
  refine (hcopied.owned.sound.write hx (Color.isLive_of_isRoot hr)
    (hcopied.owned.has_of_mem hvalue).isLive).mono fun _ m hm => ?_
  have hwritten := hcopied.owned.written hm
  rw [Action.yields_pure]
  exact ⟨rfl, hcopied.comp hwritten⟩

/-- One side of a pair overwritten with nil. -/
theorem unset (h : H.Owned hs loose) (hf : f.cell = .pair id) (hmem : f.cell ∈ hs) :
    (Heap.unset f side).Yields ⟨H, es⟩ fun r u =>
      r = .ok () ∧ H.Becomes (H.graph.alter id (side.setNode .nil)) hs loose u.state := by
  obtain ⟨x, hx, hr⟩ := h.look_of_mem (hf ▸ hmem)
  rw [unset_of_pair (Cell.pair?_eq_some.2 hf), Action.yields_bind, yields_onCollector]
  refine (h.sound.write hx (Color.isLive_of_isRoot hr) fun _ hc => absurd hc List.not_mem_nil).mono
    fun _ m hm => ?_
  rw [Action.yields_pure]
  have hnil : H.Has .nil := trivial
  exact ⟨rfl, (h.acquire hnil).owned.written hm⟩

/-- A side owns no root, so the owners stay whatever is put there, and where there is no pair. -/
theorem set_owned (h : H.Owned hs loose) (hmem : f.cell ∈ hs) (hvalue : value.cell ∈ hs) :
    (Heap.set f side value).Yields ⟨H, es⟩ fun _ u => u.state.Owned hs loose := by
  cases hp : f.cell.pair? with
  | none =>
    rw [set_of_none hp]
    exact Action.yields_pure.2 h
  | some id => exact (h.set (Cell.pair?_eq_some.1 hp) hmem hvalue).mono fun _ _ hm => hm.2.owned

theorem unset_owned (h : H.Owned hs loose) (hmem : f.cell ∈ hs) :
    (Heap.unset f side).Yields ⟨H, es⟩ fun _ u => u.state.Owned hs loose := by
  cases hp : f.cell.pair? with
  | none =>
    rw [unset_of_none hp]
    exact Action.yields_pure.2 h
  | some id => exact (h.unset (Cell.pair?_eq_some.1 hp) hmem).mono fun _ _ hm => hm.2.owned

/-! ### Collection -/

/-- The table of symbols is pruned. -/
theorem prune (h : H.Owned hs loose) :
    Heap.prune.Yields ⟨H, es⟩ fun _ u => H.Becomes H.graph hs loose u.state := by
  unfold Heap.prune
  rw [Action.yields_updateGet]
  exact ⟨⟨h.sound, h.roots, h.balanced, h.tracks.prune⟩, rfl, .refl _, fun hm => hm⟩

/-- A collection changes nothing that a handle leads to. -/
theorem collect (h : H.Owned hs loose) :
    Heap.collect.Yields ⟨H, es⟩ fun _ u => H.Becomes H.graph hs loose u.state := by
  unfold Heap.collect
  rw [Action.yields_bind, yields_onCollector]
  refine h.sound.cycle.mono fun n m hm => ?_
  have hcycled := h.upkeep (.single (.cycle hm))
  rw [Action.yields_bind]
  refine hcycled.owned.prune.mono fun dead u hu => ?_
  rw [Action.yields_bind, Action.yields_report, Action.yields_pure]
  exact hcycled.trans hu

end Owned

/-- A collection is a full cycle, and then the symbols that died in it are forgotten. -/
theorem collect_pruned (h : H.collector.Sound) :
    Heap.collect.Yields ⟨H, es⟩ fun n u => H.collector.Cycled n u.state.collector ∧
      u.state.symbols = H.symbols.prune u.state.objects := by
  unfold Heap.collect Heap.prune
  rw [Action.yields_bind, yields_onCollector]
  refine h.cycle.mono fun n m hm => ?_
  rw [Action.yields_bind, Action.yields_updateGet, Action.yields_bind, Action.yields_report,
    Action.yields_pure]
  exact ⟨hm, rfl⟩

/-- The pairs that a collection leaves are those that a full cycle does. -/
theorem collect_cycled (h : H.collector.Sound) :
    Heap.collect.Yields ⟨H, es⟩ fun n u => H.collector.Cycled n u.state.collector :=
  (collect_pruned h).mono fun _ _ hm => hm.1

end Heap

end ConsHeap
