import ConsHeap.Proofs.Collector.Runs

/-!
# What the checks of an operation are worth

Nobody has to trust a caller. An operation that ends without a fault has passed its checks, and what
they establish is the discipline of callers: a pair that got a root was live, a pair that lost one
was rooted, and a pair that was written to or stored was live (`Collector.liveArgs_of_ok`).

There is one exception. A pair that is stored is checked when it is greyed, and by then the slot of
an allocation has its color already. So a program that guesses the id of the slot can make a pair
that holds itself. That does no harm: `Collector.Sound.performs_of_ok` says that whatever ends
without a fault has made its change, with upkeep around it, and nothing else.
-/

namespace ConsHeap

namespace Collector

variable {c c' : Collector} {id j child : PairId} {y : Slot} {es es' : Array Event}
  {car cdr value : Cell} {side : Side} {op : Op} {reply : Reply}

/-! ### Greying -/

/-- A pair that was greyed was live. -/
theorem greyChild_leaves : (greyChild child).Leaves ⟨c, es⟩ fun _ _ => c.IsLive child := by
  unfold greyChild
  rw [Action.leaves_bind, Action.leaves_query]
  intro slot hslot
  rw [Action.leaves_bind, Action.leaves_require]
  intro hlive _ _ _
  exact ⟨_, look_of_slot hslot, hlive⟩

/-- Greying makes no pair live, and takes none out of use. -/
theorem isLive_iff_of_greyed (hp : c.Repaints
    (fun j d => if j = child then c.generation.greyed d else d) c') :
    c'.IsLive id ↔ c.IsLive id := by
  refine (hp.store.exists_color (·.isLive = true)).trans ?_
  refine exists_congr fun x => and_congr_right fun _ => ?_
  split
  · rw [Generation.isLive_greyed]
  · rfl

/-- All of some pairs that were greyed one after another were live. -/
theorem greyAll_leaves (ids : List PairId) (h : c.store.Sound []) :
    (greyAll ids).Leaves ⟨c, es⟩ fun _ _ => ∀ id ∈ ids, c.IsLive id := by
  induction ids generalizing c es with
  | nil =>
    unfold greyAll
    rw [Action.leaves_pure]
    exact fun id hid => absurd hid List.not_mem_nil
  | cons id ids ih =>
    unfold greyAll
    rw [Action.leaves_bind]
    intro x m hgrey
    have hlive : c.IsLive id := greyChild_leaves x m hgrey
    obtain ⟨hpaint, -⟩ := (greyChild_yields h hlive).elim hgrey
    refine (ih (c := m.state) hpaint.store.sound).mono fun _ _ hrest j hj => ?_
    rcases List.mem_cons.1 hj with rfl | hj
    · exact hlive
    · -- it was live after the greying, which changes no more than a shade
      exact (isLive_iff_of_greyed hpaint).1 (hrest j hj)

/-- A slot that is overwritten makes no other pair live. -/
theorem isLive_of_overwritten (hs : c.store.Overwrites id y c'.store) (hj : j ≠ id)
    (hl : c'.IsLive j) : c.IsLive j := by
  obtain ⟨z, hz, hlive⟩ := hl
  cases hx : c.look j with
  | some x =>
    obtain rfl := Option.some.inj ((hs.other hj hx).symm.trans hz)
    exact ⟨x, hx, hlive⟩
  | none =>
    -- what came into being is blank
    rcases hs.fresh hj hx with hnone | hblank
    · exact absurd (hz.symm.trans hnone) nofun
    · obtain rfl := Option.some.inj (hz.symm.trans hblank)
      exact absurd hlive (by decide)

/-! ### Writes -/

theorem target_leaves : (target id).Leaves ⟨c, es⟩ fun _ u => c.IsLive id ∧ u = ⟨c, es⟩ := by
  unfold target
  rw [Action.leaves_bind, Action.leaves_query]
  intro slot hslot
  rw [Action.leaves_bind, Action.leaves_require]
  intro hlive
  rw [Action.leaves_pure]
  exact ⟨⟨_, look_of_slot hslot, hlive⟩, rfl⟩

/-- A pair that the barrier has let pass is live. -/
theorem barrier_leaves : (barrier value.pair?).Leaves ⟨c, es⟩ fun _ _ =>
    ∀ child ∈ value.pair?.toList, c.IsLive child := by
  cases hv : value.pair? with
  | none => exact fun _ _ _ child hchild => absurd hchild List.not_mem_nil
  | some new =>
    unfold barrier
    rw [Action.leaves_bind]
    refine greyChild_leaves.mono fun _ _ hlive _ _ _ child hchild => ?_
    rw [List.mem_singleton.1 hchild]
    exact hlive

/-- A write keeps the color of the slot. -/
theorem isLive_of_modified (hl : ({ c with store :=
      { c.store with arena := c.store.arena.modify id (side.set value) } } : Collector).IsLive j) :
    c.IsLive j := by
  obtain ⟨z, hz, hlive⟩ := hl
  have hindex : ∀ (x : Slot) i, { side.set value x with index := i } =
      side.set value { x with index := i } := by
    intro x i
    cases side <;> rfl
  change (⟨c.store.arena.modify id (side.set value), c.store.classes⟩ : Store).look j = _ at hz
  rw [Store.look_modify hindex] at hz
  split at hz
  · -- the pair written to keeps its color
    rename_i hj
    obtain ⟨x, hx, rfl⟩ := Option.map_eq_some_iff.1 hz
    rw [hj]
    refine ⟨x, hx, ?_⟩
    cases side <;> exact hlive
  · exact ⟨z, hz, hlive⟩

theorem write_leaves : (Collector.write id side value).Leaves ⟨c, es⟩ fun _ _ =>
    Op.LiveArgs c (.write id side value) := by
  unfold Collector.write
  rw [Action.leaves_bind]
  refine target_leaves.onFault.mono fun slot m hm => ?_
  obtain ⟨hlive, rfl⟩ := hm
  -- the new edge stands, and a reference is given up, before its pair is checked
  refine Action.Yields.bind_leaves (yields_modifySlot.2 ?_)
  refine Action.Yields.bind_leaves (yields_discard.2 ?_)
  exact barrier_leaves.mono fun _ _ hvalue => ⟨hlive, fun child hchild =>
    isLive_of_modified (hvalue child hchild)⟩

/-! ### Allocation -/

/-- What a new pair holds was live, unless it is the pair itself. -/
theorem settle_leaves (h : c.Sound) {b : Arena} (hb : c.store.arena.Hands id b) :
    (settle id car cdr).Leaves ⟨{ c with store := ⟨b, c.store.classes⟩ }, es⟩ fun _ _ =>
      ∀ child ∈ car.pair?.toList ++ cdr.pair?.toList, child ≠ id → c.IsLive child := by
  have hover := h.store.occupy hb (Generation.fromRoot_ne_void (g := c.generation)) car cdr 1
  unfold settle
  refine Action.Yields.bind_leaves (Action.yields_ask.2 ?_)
  refine Action.Yields.bind_leaves (yields_onStore.2 ?_)
  refine ((h.store.hands hb).add Generation.fromRoot_ne_void).mono fun _ m hm => ?_
  rw [hm]
  refine Action.Yields.bind_leaves (yields_modifySlot.2 ?_)
  rw [Action.leaves_bind]
  unfold greyChildren
  rw [Action.leaves_bind, Action.leaves_query]
  intro slot hslot
  -- the slot that is read back is the one just written
  have hself := Option.some.inj (hover.self.symm.trans (look_of_slot hslot))
  have hchildren : slot.children = car.pair?.toList ++ cdr.pair?.toList :=
    (congrArg Slot.children hself).symm
  refine (greyAll_leaves slot.children hover.sound).mono fun _ _ hlive _ _ _ child hchild hne => ?_
  exact isLive_of_overwritten hover hne (hlive child (hchildren ▸ hchild))

/-- **An allocation that ends without a fault** has made its change and done upkeep, also when the
new pair holds itself. -/
theorem Sound.make_leaves (h : c.Sound) :
    (Collector.make car cdr).Leaves ⟨c, es⟩ fun r u =>
      c.Performs (.make car cdr) (allocated r) u.state := by
  unfold Collector.make
  rw [Action.leaves_bind]
  refine h.runRecycle.leaves.mono fun _ m hm => ?_
  obtain ⟨c₁, es₁⟩ := m
  obtain ⟨hrec, hstocked⟩ := hm
  have h₁ : c₁.Sound := hrec.upkeep.sound h
  refine Action.Yields.bind_leaves (yields_onArena.2 (h₁.store.arena.next.mono fun r m hr => ?_))
  obtain ⟨b, es₂⟩ := m
  cases r with
  | error e =>
    obtain ⟨rfl, he, hfull, -⟩ := hr
    exact (refused_yields hfull he hrec hstocked).leaves
  | ok id =>
    -- that the cells were checked is learnt from the first half of what follows
    intro r u hok
    obtain ⟨_, m, hsettle, -⟩ := Action.bind_eq_ok.1 hok
    have hcells := settle_leaves h₁ hr _ m hsettle
    obtain ⟨hreply, hperforms⟩ := (settled_yields h₁ hr hcells hrec hstocked).elim hok
    rw [hreply]
    exact hperforms

/-! ### All operations -/

/-- **What was done was allowed**, up to an allocation of a pair that holds itself. -/
theorem liveArgs_of_ok {u : Traced Collector}
    (hdone : Collector.perform op ⟨c, es⟩ = .ok reply u) (hop : ∀ car cdr, op ≠ .make car cdr) :
    op.LiveArgs c := by
  -- an operation is its checks and then its change: the checks are peeled off, or the operation
  -- is known to be refused without what they ask for
  cases op with
  | make car cdr => exact absurd rfl (hop car cdr)
  | root id =>
    obtain ⟨_, m, hroot, -⟩ := Action.bind_eq_ok.1 hdone
    obtain ⟨slot, _, hquery, hrest⟩ := Action.bind_eq_ok.1 hroot
    obtain ⟨hslot, rfl⟩ := Action.query_eq_ok.1 hquery
    obtain ⟨_, _, hbulk, -⟩ := Action.bind_eq_ok.1 hrest
    exact ⟨_, look_of_slot hslot, (Action.require_eq_ok.1 hbulk).1⟩
  | retain id =>
    obtain ⟨_, m, hretain, -⟩ := Action.bind_eq_ok.1 hdone
    by_contra hargs
    exact (retain_refuses hargs).ne_ok hretain
  | acquire id =>
    obtain ⟨_, m, hacquire, -⟩ := Action.bind_eq_ok.1 hdone
    by_contra hargs
    exact (acquire_refuses hargs).ne_ok hacquire
  | unroot id =>
    obtain ⟨_, m, hunroot, -⟩ := Action.bind_eq_ok.1 hdone
    obtain ⟨slot, _, hquery, hrest⟩ := Action.bind_eq_ok.1 hunroot
    obtain ⟨hslot, rfl⟩ := Action.query_eq_ok.1 hquery
    obtain ⟨_, _, hrooted, -⟩ := Action.bind_eq_ok.1 hrest
    exact ⟨_, look_of_slot hslot, (Action.require_eq_ok.1 hrooted).1.1⟩
  | write id side value =>
    obtain ⟨_, m, hwrite, -⟩ := Action.bind_eq_ok.1 hdone
    exact write_leaves _ m hwrite
  | step | recycle | finish | cycle => trivial

/-- **Whatever ends without a fault** has made its change and done upkeep, and nothing else. -/
theorem Sound.performs_of_ok (h : c.Sound)
    (hdone : Collector.perform op ⟨c, es⟩ = .ok reply ⟨c', es'⟩) : c.Performs op reply c' := by
  by_cases hop : ∀ car cdr, op ≠ .make car cdr
  · exact (h.perform (liveArgs_of_ok hdone hop)).elim hdone
  · -- nothing is known of the arguments of an allocation, but it has made its change all the same
    push Not at hop
    obtain ⟨car, cdr, rfl⟩ := hop
    obtain ⟨r, m, hmake, hreply⟩ := Action.bind_eq_ok.1 hdone
    have hperforms := h.make_leaves r m hmake
    cases r with
    | ok id =>
      obtain ⟨rfl, rfl⟩ := Action.pure_eq_ok.1 hreply
      exact hperforms
    | error e =>
      obtain ⟨rfl, rfl⟩ := Action.pure_eq_ok.1 hreply
      exact hperforms

end Collector

end ConsHeap
