import ConsHeap.Proofs.Heap.Operations

/-!
# Operations that can be refused

A handle that is passed to an operation is among the owners, so what can go wrong is only that a
pair has the largest root count already, or that a program names a pair by an id that is not in use.
Both are noticed before anything has changed (`Heap.clone_refuses`, `Heap.Owned.object_refuses`,
`Heap.Owned.objectOf_refuses`, `Heap.Owned.get_refuses`), so an operation that succeeds had room for
its root. With room it does succeed (`Heap.Owned.objectAt`, `Heap.Owned.objectOf`,
`Heap.Owned.getFound`).
-/

namespace ConsHeap

namespace Heap

variable {H : Heap} {hs loose : Multiset Cell} {cell : Cell} {id : PairId} {n : Node}
  {es : Array Event} {f : Handle} {side : Collector.Side}

/-! ### Without room -/

theorem not_room : ¬H.Room cell ↔
    ∃ id n, cell = .pair id ∧ H.graph id = some n ∧ ¬n.roots < Collector.maxRoots := by
  unfold Room
  push Not
  rfl

/-- A pair that may be acquired is in use, and has room for one more root. -/
theorem Owned.of_liveArgs_acquire (h : H.Owned hs loose)
    (hargs : Collector.Op.LiveArgs H.collector (.acquire id)) :
    H.Has (.pair id) ∧ H.Room (.pair id) := by
  obtain ⟨x, hx, hl, hmax⟩ := hargs
  have hnode : H.graph id = some x.node := Collector.graph_of_look hx hl
  refine ⟨⟨_, hnode⟩, fun j m hj hm => ?_⟩
  obtain rfl := Cell.pair.inj hj
  obtain rfl := Option.some.inj (hnode.symm.trans hm)
  by_cases hr : x.color.isRoot = true
  · exact hmax hr
  · -- a pair without a root color has no roots at all
    have hzero := mt (h.sound.rooted hx).2 hr
    change ¬0 < x.node.roots at hzero
    rw [Nat.eq_zero_of_not_pos hzero]
    decide

/-- A pair that is not in use, or has no room for a root, does not get a handle. -/
theorem Owned.object_refuses (h : H.Owned hs loose)
    (hnot : ¬(H.Has (.pair id) ∧ H.Room (.pair id))) :
    (Heap.object (.pair id)).Refuses ⟨H, es⟩ := by
  rw [object_of_pair rfl]
  refine Action.Refuses.bind (Action.Refuses.focus ?_ rfl)
  exact Collector.acquire_refuses fun hargs => hnot (h.of_liveArgs_acquire hargs)

theorem clone_refuses (hroom : ¬H.Room f.cell) : (Heap.clone f).Refuses ⟨H, es⟩ := by
  obtain ⟨id, n, hcell, hn, hmax⟩ := not_room.1 hroom
  rw [clone_of_pair (Cell.pair?_eq_some.2 hcell)]
  refine Action.Refuses.bind (Action.Refuses.focus ?_ rfl)
  -- a root may be added only below the largest count, and there is room then
  refine Collector.retain_refuses fun hargs => hmax ?_
  obtain ⟨x, hx, hr, hlt⟩ := hargs
  have hnode : H.graph id = some x.node := Collector.graph_of_look hx (Color.isLive_of_isRoot hr)
  obtain rfl := Option.some.inj (hnode.symm.trans hn)
  exact hlt

theorem Owned.get_refuses (h : H.Owned hs loose) (hf : f.cell = .pair id)
    (hn : H.graph id = some n) (hroom : ¬H.Room (side.getNode n)) :
    (Heap.get f side).Refuses ⟨H, es⟩ := by
  obtain ⟨s, hs, hget⟩ := slot_of_graph hn
  obtain ⟨child, m, hcell, -⟩ := not_room.1 hroom
  rw [get_of_pair (Cell.pair?_eq_some.2 hf)]
  refine Action.refuses_query_bind fun s' hs' => ?_
  obtain rfl := Except.ok.inj (hs.symm.trans hs')
  rw [hget, hcell]
  -- the copy of a pair owns nothing, so it has changed nothing
  refine Action.Yields.bind_refuses (yields_acquire.2 ⟨rfl, ?_⟩)
  exact Action.Refuses.bind (h.object_refuses fun hboth => hroom (hcell ▸ hboth.2))

/-! ### What success says about room -/

theorem room_of_clone {r : Handle} {u : Traced Heap} (hok : Heap.clone f ⟨H, es⟩ = .ok r u) :
    H.Room f.cell :=
  by_contra fun hroom => (clone_refuses hroom).ne_ok hok

theorem Owned.room_of_object {r : Handle} {u : Traced Heap} (h : H.Owned hs loose)
    (hok : Heap.object cell ⟨H, es⟩ = .ok r u) : H.Room cell := by
  by_contra hroom
  obtain ⟨id, n, rfl, -⟩ := not_room.1 hroom
  exact (h.object_refuses fun hboth => hroom hboth.2).ne_ok hok

/-- A side that was taken had room for a root on its pair. -/
theorem Owned.room_of_get {r : Option Handle} {u : Traced Heap} (h : H.Owned hs loose)
    (hf : f.cell = .pair id) (hn : H.graph id = some n)
    (hok : Heap.get f side ⟨H, es⟩ = .ok r u) : H.Room (side.getNode n) :=
  by_contra fun hroom => (h.get_refuses hf hn hroom).ne_ok hok

/-! ### With room -/

namespace Owned

/-- A pair named by its id gets a handle. -/
theorem objectAt (h : H.Owned hs loose) (hhas : H.Has (.pair id)) (hroom : H.Room (.pair id)) :
    (Heap.object (.pair id)).Yields ⟨H, es⟩ fun r u =>
      r = ⟨H.ident, .pair id⟩ ∧ H.Becomes H.graph (.pair id ::ₘ hs) loose u.state := by
  refine (cons_loose_pair.2 h).object (fun j hj => ?_) hroom
  rw [← hj]
  exact hhas

/-- The cell of a handle gets a handle. -/
theorem objectOf (h : H.Owned hs loose) (hf : f.cell ∈ hs) (hroom : H.Room f.cell) :
    (do Heap.object (← Heap.cellOf f) : Action Heap Handle).Yields ⟨H, es⟩ fun r u =>
      r = ⟨H.ident, f.cell⟩ ∧ H.Becomes H.graph (f.cell ::ₘ hs) loose u.state := by
  have hhas := h.has_of_mem hf
  have hcopied := h.acquire hhas
  have hpair : ∀ id, f.cell = .pair id → H.Has (.pair id) := fun id he => he ▸ hhas
  rw [Action.yields_bind]
  refine (h.cellOf hf).mono fun cell m hm => ?_
  obtain ⟨rfl, rfl⟩ := hm
  refine (hcopied.owned.object hpair hroom).mono fun r u hu => ?_
  exact ⟨hu.1, hcopied.trans hu.2⟩

/-- Only a pair can be without room, and the copy of its cell has changed nothing. -/
theorem objectOf_refuses (h : H.Owned hs loose) (hf : f.cell ∈ hs) (hroom : ¬H.Room f.cell) :
    (do Heap.object (← Heap.cellOf f) : Action Heap Handle).Refuses ⟨H, es⟩ := by
  obtain ⟨id, n, hcell, -⟩ := not_room.1 hroom
  refine Action.Yields.bind_refuses ((h.cellOf hf).mono fun cell m hm => ?_)
  obtain ⟨rfl, rfl⟩ := hm
  rw [hcell] at hroom ⊢
  exact ⟨rfl, h.object_refuses fun hboth => hroom hboth.2⟩

/-- A side of a pair gets a handle, and other values have no sides. -/
theorem getFound (h : H.Owned hs loose) (hf : f.cell ∈ hs)
    (hroom : ∀ id n, f.cell = .pair id → H.graph id = some n → H.Room (side.getNode n)) :
    (Heap.get f side).Yields ⟨H, es⟩ fun r u =>
      H.Becomes H.graph (r.elim hs fun g => g.cell ::ₘ hs) loose u.state := by
  cases hp : f.cell.pair? with
  | none =>
    rw [get_of_none hp]
    exact Action.yields_pure.2 h.becomes
  | some id =>
    have hcell := Cell.pair?_eq_some.1 hp
    have hhas : H.Has (.pair id) := hcell ▸ h.has_of_mem hf
    obtain ⟨n, hn⟩ : ∃ n, H.graph id = some n := hhas
    refine (h.get hcell hn (hroom id n hcell hn)).mono fun r u hu => ?_
    rw [hu.1]
    exact hu.2

end Owned

end Heap

end ConsHeap
