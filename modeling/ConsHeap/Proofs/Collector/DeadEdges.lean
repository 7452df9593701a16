import ConsHeap.Proofs.Collector.Checks

/-!
# Edges to dead pairs

What happens to an edge that leads to a slot which is disposed of or vacant. A write of it faults,
with the color that the slot carries (`Collector.Sound.write_dead`). An allocation is less strict,
since it recycles and takes a slot before it looks at the children: it may find no room, it may
fault, or the slot that it takes is the very one that the edge leads to. Then the new pair holds
itself. There is no other outcome (`Collector.Run.dead_edge`), and that one does occur
(`Collector.not_dead_edge_refused`).
-/

namespace ConsHeap

namespace Collector

variable {c c' c₀ : Collector} {id j child : PairId} {x y : Slot} {es : Array Event}
  {ids : List PairId} {past : List Collector} {o : Options} {car cdr value : Cell} {side : Side}
  {reply : Reply}

theorem not_isLive_of_look (hx : c.look child = some x) (hdead : x.color.isLive = false) :
    ¬c.IsLive child := by
  rw [isLive_iff_of_look hx, hdead]
  exact Bool.false_ne_true

theorem not_isLive_of_slot (hx : c.slot child = .ok x) (hdead : x.color.isLive = false) :
    ¬c.IsLive child :=
  not_isLive_of_look (look_of_slot hx) hdead

/-! ### Greying -/

/-- Greying a slot that exists only faults on a dead edge. -/
theorem greyChild_faults (h : c.store.Sound []) (hx : c.look child = some x) :
    (greyChild child).Faults ⟨c, es⟩ fun f =>
      x.color.isLive = false ∧ f = .deadEdge x.color child := by
  by_cases hl : x.color.isLive = true
  · exact (greyChild_yields h ⟨x, hx, hl⟩).faults
  · obtain ⟨slot, hslot, rfl⟩ := slot_of_look hx
    unfold greyChild
    refine Action.Yields.bind_faults (Action.yields_query.2 ⟨slot, hslot, ?_⟩)
    exact Action.faults_require_bind (fun hdead => ⟨Bool.not_eq_true _ ▸ hdead, rfl⟩)
      fun hlive => absurd hlive hl

/-- Greying slots that exist only faults on a dead edge. -/
theorem greyAll_faults (h : c.store.Sound []) (hids : ∀ j ∈ ids, ∃ x, c.look j = some x) :
    (greyAll ids).Faults ⟨c, es⟩ fun f =>
      ∃ j d, j ∈ ids ∧ ¬c.IsLive j ∧ d.isLive = false ∧ f = .deadEdge d j := by
  induction ids generalizing c es with
  | nil =>
    exact Action.faults_pure
  | cons id ids ih =>
    obtain ⟨x, hx⟩ := hids id List.mem_cons_self
    unfold greyAll
    refine Action.Faults.bind (fun f u hf => ?_) fun y m hgrey => ?_
    · obtain ⟨hdead, rfl⟩ := greyChild_faults h hx f u hf
      exact ⟨id, x.color, List.mem_cons_self, not_isLive_of_look hx hdead, hdead, rfl⟩
    · -- what was greyed before is what it was, up to its shade
      have hlive : c.IsLive id := greyChild_leaves y m hgrey
      obtain ⟨hpaint, -⟩ := (greyChild_yields h hlive).elim hgrey
      have hrest : ∀ j ∈ ids, ∃ x, m.state.look j = some x := by
        intro j hj
        obtain ⟨z, hz⟩ := hids j (List.mem_cons_of_mem _ hj)
        exact ⟨_, hpaint.store.look_of hz⟩
      intro f u hf
      obtain ⟨j, d, hj, hdead, hd⟩ := ih (c := m.state) hpaint.store.sound hrest f u hf
      exact ⟨j, d, List.mem_cons_of_mem _ hj, mt (isLive_iff_of_greyed hpaint).2 hdead, hd⟩

theorem greyChildren_faults (h : c.store.Sound []) (hx : c.look id = some x)
    (hkids : ∀ j ∈ x.children, ∃ y, c.look j = some y) :
    (greyChildren id).Faults ⟨c, es⟩ fun f =>
      ∃ j d, j ∈ x.children ∧ ¬c.IsLive j ∧ d.isLive = false ∧ f = .deadEdge d j := by
  obtain ⟨slot, hslot, rfl⟩ := slot_of_look hx
  unfold greyChildren
  exact Action.Yields.bind_faults (Action.yields_query.2 ⟨slot, hslot, greyAll_faults h hkids⟩)

/-! ### Writes -/

/-- **A write of a dead edge faults**, with the color that the slot carries. -/
theorem Sound.write_dead (h : c.Sound) (hid : c.IsLive id) (hx : c.slot child = .ok x)
    (hdead : x.color.isLive = false) :
    ∃ u, Collector.perform (.write id side (.pair child)) ⟨c, es⟩ =
      .error (.deadEdge x.color child) u := by
  have hnot := not_isLive_of_slot hx hdead
  obtain ⟨y, hy, hl⟩ := hid
  obtain ⟨slot, hslot, rfl⟩ := slot_of_look hy
  -- the new edge stands when the slot that it leads to is looked at, and that slot is another one
  have hne : child ≠ id := by
    rintro rfl
    exact hnot ⟨_, hy, hl⟩
  have hfaults : (Collector.perform (.write id side (.pair child))).Faults ⟨c, es⟩ fun f =>
      f = .deadEdge x.color child := by
    unfold Collector.perform Collector.write
    refine Action.Faults.bind ?_ fun _ _ _ => Action.faults_pure
    refine Action.Yields.bind_faults ((target_yields hslot hl).onFault.mono fun r m hm => ?_)
    obtain ⟨rfl, rfl⟩ := hm
    refine Action.Yields.bind_faults (yields_modifySlot.2 ?_)
    refine Action.Yields.bind_faults (yields_discard.2 ?_)
    unfold barrier
    refine Action.Faults.bind (fun f u hf => ?_) fun r m hgrey => ?_
    · have hover := h.overwrite_side hy hl side (.pair child)
      exact (greyChild_faults (c := { c with store := _, objects := _ }) hover.sound
        (hover.other hne (look_of_slot hx)) f u hf).2
    · have hlive := greyChild_leaves r m hgrey
      exact absurd (isLive_of_modified hlive) hnot
  obtain ⟨f, u, hf, rfl⟩ := hfaults.exists_of_not_ok fun r u hok =>
    hnot ((liveArgs_of_ok hok fun _ _ => nofun).2 child (List.mem_singleton.2 rfl))
  exact ⟨u, hf⟩

/-! ### Allocations -/

/-- What a new pair holds was live before, unless it is the pair itself. -/
theorem Performs.live_or_self (hp : c.Performs (.make car cdr) (.made id) c')
    (hchild : child ∈ car.pair?.toList ++ cdr.pair?.toList) (hne : child ≠ id) :
    c.IsLive child := by
  obtain ⟨c₁, c₂, hrec, hedit, -⟩ := hp
  cases hedit with
  | work isWork => exact absurd isWork (by simp [Op.isWork])
  | made _ _ hs =>
    rw [isLive_iff, ← hrec.graph_eq, ← isLive_iff]
    exact hs.children child hchild hne

/-- Recycling takes away no slot. -/
theorem Recycling.look_exists (hr : c.Recycling c') (hx : ∃ x, c.look j = some x) :
    ∃ y, c'.look j = some y := by
  induction hr with
  | refl => exact hx
  | tail _ hs ih =>
    obtain ⟨id, _, hs⟩ := hs
    obtain ⟨y, hy⟩ := ih
    rw [hs.look_eq_ite]
    split
    · exact ⟨_, rfl⟩
    · exact ⟨y, hy⟩

/-- Once a slot was handed out, nothing faults but the greying of what the new pair holds. The pair
itself is live by then. -/
theorem settle_faults (h : c.Sound) {b : Arena} (hb : c.store.arena.Hands id b)
    (hkids : ∀ j ∈ car.pair?.toList ++ cdr.pair?.toList, ∃ x, c.look j = some x) :
    (settle id car cdr).Faults ⟨{ c with store := ⟨b, c.store.classes⟩ }, es⟩ fun f =>
      ∃ j d, j ∈ car.pair?.toList ++ cdr.pair?.toList ∧ ¬c.IsLive j ∧ d.isLive = false ∧
        f = .deadEdge d j := by
  have hover := h.store.occupy hb (Generation.fromRoot_ne_void (g := c.generation)) car cdr 1
  have hroot : c.generation.fromRoot.isLive = true :=
    Color.isLive_of_isRoot Generation.isRoot_fromRoot
  unfold settle
  refine Action.Yields.bind_faults (Action.yields_ask.2 ?_)
  refine Action.Yields.bind_faults (yields_onStore.2 ?_)
  refine ((h.store.hands hb).add Generation.fromRoot_ne_void).mono fun _ m hm => ?_
  rw [hm]
  refine Action.Yields.bind_faults (yields_modifySlot.2 ?_)
  refine Action.Faults.bind ?_ fun _ m _ => ?_
  · refine (greyChildren_faults (c := { c with store := _ }) hover.sound hover.self
      fun j hj => ?_).mono fun f hf => ?_
    · by_cases hne : j = id
      · rw [hne]
        exact ⟨_, hover.self⟩
      · obtain ⟨x, hx⟩ := hkids j hj
        exact ⟨x, hover.other hne hx⟩
    · obtain ⟨j, d, hj, hdead, hd⟩ := hf
      exact ⟨j, d, hj, fun hl => hdead (isLive_of_overwrites hover hroot hl), hd⟩
  · -- the allocation is counted and reported
    refine Action.Yields.bind_faults (Action.yields_ask.2 ?_)
    refine Action.Yields.bind_faults (yields_tally.2 ?_)
    exact Action.faults_report

/-- An allocation whose children lie inside the pages only faults on a dead edge. -/
theorem Sound.make_faults (h : c.Sound)
    (hkids : ∀ j ∈ car.pair?.toList ++ cdr.pair?.toList, ∃ x, c.look j = some x) :
    (Collector.make car cdr).Faults ⟨c, es⟩ fun f =>
      ∃ j d, j ∈ car.pair?.toList ++ cdr.pair?.toList ∧ ¬c.IsLive j ∧ d.isLive = false ∧
        f = .deadEdge d j := by
  unfold Collector.make
  refine Action.Yields.bind_faults (h.runRecycle.mono fun _ m hm => ?_)
  obtain ⟨c₁, es₁⟩ := m
  obtain ⟨hrec, hstocked⟩ := hm
  have h₁ : c₁.Sound := hrec.upkeep.sound h
  refine Action.Yields.bind_faults (yields_onArena.2 (h₁.store.arena.next.mono fun r m hr => ?_))
  obtain ⟨b, es₂⟩ := m
  cases r with
  | error e =>
    obtain ⟨rfl, he, hfull, -⟩ := hr
    exact (refused_yields hfull he hrec hstocked).faults
  | ok id =>
    refine Action.Faults.bind (fun f u hf => ?_) fun _ m hsettle => ?_
    · obtain ⟨j, d, hj, hdead, hd⟩ :=
        settle_faults h₁ hr (fun j hj => hrec.look_exists (hkids j hj)) f u hf
      refine ⟨j, d, hj, fun hl => hdead ?_, hd⟩
      rw [isLive_iff, hrec.graph_eq, ← isLive_iff]
      exact hl
    · -- what the new pair holds has been checked, so the marking that follows does not fault
      have hcells := settle_leaves h₁ hr _ m hsettle
      obtain ⟨hedited, -⟩ := (settle_yields h₁ hr hcells).elim hsettle
      exact Action.Yields.bind_faults
        ((hedited.sound h₁).runGarbage.mono fun _ _ _ => Action.faults_pure)

/-- **A dead edge is refused, or its slot is taken for the pair that holds it.** In a state reached
by operations on live arguments, take a slot inside the pages that is not live. A write of an edge
to it faults, whatever live pair is written to. An allocation with an edge to it, if it ends, has
found no room or has handed out that very slot; and if it faults, while its other child lies inside
the pages too, then on one of its children that is not live. -/
theorem Run.dead_edge (created : Collector.create o = .ok c₀) (run : Run Op.LiveArgs c₀ past c)
    (hx : c.slot child = .ok x) (hdead : x.color.isLive = false) (es : Array Event) :
    (∀ id side, c.IsLive id → ∃ u, Collector.perform (.write id side (.pair child)) ⟨c, es⟩ =
      .error (.deadEdge x.color child) u) ∧
    ∀ car cdr, child ∈ car.pair?.toList ++ cdr.pair?.toList →
      (∀ reply u, Collector.perform (.make car cdr) ⟨c, es⟩ = .ok reply u →
        reply = .made child ∨ ∃ e, reply = .failed e ∧ e.isOutOfMemory = true) ∧
      ((∀ j ∈ car.pair?.toList ++ cdr.pair?.toList, ∃ y, c.slot j = .ok y) →
        ∀ f u, Collector.perform (.make car cdr) ⟨c, es⟩ = .error f u →
          ∃ j d, j ∈ car.pair?.toList ++ cdr.pair?.toList ∧ ¬c.IsLive j ∧ d.isLive = false ∧
            f = .deadEdge d j) := by
  have h : c.Sound := run.sound (.create created) fun _ _ hargs => hargs
  have hnot := not_isLive_of_slot hx hdead
  refine ⟨fun id side hid => h.write_dead hid hx hdead, fun car cdr hchild => ⟨?_, ?_⟩⟩
  · intro reply u hok
    obtain ⟨r, m, hmake, hreply⟩ := Action.bind_eq_ok.1 hok
    have hperforms := h.make_leaves r m hmake
    cases r with
    | ok id =>
      obtain ⟨rfl, -⟩ := Action.pure_eq_ok.1 hreply
      by_cases hne : child = id
      · exact .inl (hne ▸ rfl)
      · exact absurd (hperforms.live_or_self hchild hne) hnot
    | error e =>
      obtain ⟨rfl, -⟩ := Action.pure_eq_ok.1 hreply
      exact .inr ⟨e, rfl, hperforms.isOutOfMemory⟩
  · intro hkids
    unfold Collector.perform
    refine Action.Faults.bind (h.make_faults fun j hj => ?_) fun r m _ => ?_
    · obtain ⟨y, hy⟩ := hkids j hj
      exact ⟨_, look_of_slot hy⟩
    · -- an allocation that has answered does nothing more
      cases r with
      | ok id => exact Action.faults_pure
      | error e => exact Action.faults_pure

/-- A collector with three pairs to a page, which does no work unless it is told to. -/
def manualThree : Collector :=
  empty (.manual 3) ⟨by decide, by decide, by decide⟩

/-- The edges lead to the last slot of a page, of which the second one is handed out next. A write
of such an edge faults, and so does an allocation. -/
theorem dead_edge_vacant : ∃ past c, Run Op.LiveArgs manualThree past c ∧
    (∃ u, Collector.perform (.write ⟨0⟩ .car (.pair ⟨2⟩)) ⟨c, #[]⟩ =
      .error (.deadEdge .void ⟨2⟩) u) ∧
    (∀ reply u, Collector.perform (.make (.pair ⟨2⟩) (.pair ⟨0⟩)) ⟨c, #[]⟩ = .ok reply u →
      reply = .made ⟨2⟩ ∨ ∃ e, reply = .failed e ∧ e.isOutOfMemory = true) ∧
    ∃ f u, Collector.perform (.make (.pair ⟨2⟩) (.pair ⟨0⟩)) ⟨c, #[]⟩ = .error f u ∧
      ∃ j d, j ∈ [⟨2⟩, ⟨0⟩] ∧ ¬c.IsLive j ∧ d.isLive = false ∧ f = .deadEdge d j := by
  have created : Collector.create (.manual 3) = .ok manualThree := rfl
  have made := Run.start.after (.create created) (fun _ _ hargs => hargs) (.make .nil .nil)
    (by decide +kernel)
  have hvoid : (manualThree.after (.make .nil .nil)).slot ⟨2⟩ = .ok {} := by decide +kernel
  obtain ⟨hwrite, hmake⟩ := Run.dead_edge created made hvoid rfl #[]
  obtain ⟨hok, hfault⟩ := hmake (.pair ⟨2⟩) (.pair ⟨0⟩) List.mem_cons_self
  have hinside : ∀ j ∈ [(⟨2⟩ : PairId), ⟨0⟩],
      ∃ y, (manualThree.after (.make .nil .nil)).slot j = .ok y :=
    List.forall_mem_cons.2 ⟨⟨_, hvoid⟩, List.forall_mem_singleton.2 ⟨_, rfl⟩⟩
  exact ⟨_, _, made, hwrite ⟨0⟩ .car (by decide +kernel), hok, _, _, rfl,
    hfault hinside _ _ rfl⟩

/-- **Not every dead edge is refused**: the slot that an allocation takes has its color before the
children are looked at, so an edge to that slot passes and the new pair holds itself. -/
theorem not_dead_edge_refused : ¬∀ past c, Run Op.LiveArgs manualTwo past c → ∀ child x,
    c.slot child = .ok x → x.color.isLive = false →
      ∀ reply u, Collector.perform (.make (.pair child) .nil) ⟨c, #[]⟩ = .ok reply u →
        ∃ e, reply = .failed e := by
  intro hall
  have made := Run.start.live (.make .nil .nil) (by decide +kernel)
  have hvoid : (manualTwo.after (.make .nil .nil)).slot ⟨1⟩ = .ok {} := by decide +kernel
  have hdone : ∃ u, Collector.perform (.make (.pair ⟨1⟩) .nil) ⟨manualTwo.after (.make .nil .nil), #[]⟩ =
      .ok (.made ⟨1⟩) u := ⟨_, rfl⟩
  obtain ⟨u, hdone⟩ := hdone
  obtain ⟨e, he⟩ := hall _ _ made ⟨1⟩ {} hvoid rfl _ u hdone
  exact nomatch he

end Collector

end ConsHeap
