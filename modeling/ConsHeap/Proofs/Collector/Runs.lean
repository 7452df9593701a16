import ConsHeap.Proofs.Collector.Mutators

/-!
# Runs of a collector

`Collector.Run Allowed c₀ past c` says that operations, each of them allowed when it is done, lead
from `c₀` to `c` through the states `past`. An operation of a run may be done with other amounts of
work than the options say (`Collector.paced`). With the amounts of the options it is the operation
itself (`paced_self`); with smaller ones it is an operation that stops between two units of its
work. So what holds of all runs holds also of the states inside an operation.

Two statements about every run of operations on live arguments:

* `Collector.perform_trims` — an operation does to the graph of live pairs what its name says, and
  apart from that takes away pairs that are not reachable;
* `Collector.Run.tricolor_closed_rooted` — the invariant of the colors, read off the slots.
-/

namespace ConsHeap

/-- The error of an allocation without room. -/
def HeapError.isOutOfMemory : HeapError → Bool
  | outOfMemory _ _ => true
  | _ => false

namespace Collector

/-- The cell on one side of a node. -/
def Side.getNode (side : Side) (n : Node) : Cell :=
  match side with
  | .car => n.car
  | .cdr => n.cdr

/-- A node with the cell on one side replaced. -/
def Side.setNode (side : Side) (value : Cell) (n : Node) : Node :=
  match side with
  | .car => { n with car := value }
  | .cdr => { n with cdr := value }

theorem Side.getNode_setNode (side other : Side) (value : Cell) (n : Node) :
    other.getNode (side.setNode value n) = if other = side then value else other.getNode n := by
  cases side <;> cases other <;> rfl

/-- What an operation does to the graph of live pairs, by its answer: nothing but what its name
says. -/
def Op.effect : Op → Reply → Graph → Graph
  | .make car cdr, .made id, G => G.insert id ⟨car, cdr, 1⟩
  | .root id, _, G | .retain id, _, G | .acquire id, _, G =>
    G.alter id fun n => { n with roots := n.roots + 1 }
  | .unroot id, _, G => G.alter id fun n => { n with roots := n.roots - 1 }
  | .write id side value, _, G => G.alter id (side.setNode value)
  | _, _, G => G

variable {c c' c₀ : Collector} {id j child : PairId} {x y : Slot} {es es' : Array Event} {op : Op}
  {reply : Reply} {past : List Collector} {cells : Multiset Cell} {o : Options}
  {Allowed : Collector → Op → Prop} {g r : Nat} {car cdr : Cell}

/-! ### The change of an operation -/

namespace Edit

theorem sound (he : Edit c op reply c') (h : c.Sound) : c'.Sound := by
  cases he with
  | work => exact h
  | refused => exact h.withObjects _
  | made _ _ hs => exact hs.sound h
  | rooted _ _ _ hs => exact hs.sound h
  | retained _ _ _ hs => exact hs.sound h
  | unrooted _ _ hs => exact hs.sound h
  | written _ _ hs => exact hs.sound h

/-- The change of an operation touches the pairs, the objects, and what counts allocations. -/
theorem frame (he : Edit c op reply c') : c' = { c with
    store := c'.store
    objects := c'.objects
    stats := { c.stats with
      pagesAllocated := c'.stats.pagesAllocated
      pairsAllocated := c'.stats.pairsAllocated } } := by
  cases he with
  | work => rfl
  | refused => rfl
  | made _ _ hs => exact hs.frame
  | rooted _ _ _ hs => exact hs.frame
  | retained _ _ _ hs => exact hs.frame
  | unrooted _ _ hs => exact hs.frame
  | written _ _ hs => exact hs.frame

/-- A pair that was allocated was not in use. -/
theorem graph_eq_none (he : Edit c op (.made id) c') : c.graph id = none := by
  cases he with
  | work _ answer => exact absurd rfl (answer id)
  | made vacant => exact Collector.graph_eq_none.2 vacant

/-- A pair in use replaced is a pair altered. -/
theorem insert_eq_alter {f : Node → Node} (hx : c.look id = some x) (hl : x.color.isLive = true) :
    c.graph.insert id (f x.node) = c.graph.alter id f := by
  funext j
  by_cases hj : j = id
  · rw [hj, Graph.insert_self, Graph.alter_self, graph_of_look hx hl]
    rfl
  · rw [Graph.insert_ne hj, Graph.alter_ne hj]

/-- **The change of an operation is what its name says.** -/
theorem graph_eq (he : Edit c op reply c') (h : c.Sound) :
    c'.graph = op.effect reply c.graph := by
  cases he with
  | work isWork =>
    cases op with
    -- pure work has no effect of its own
    | step | recycle | finish | cycle => rfl
    | _ => exact absurd isWork (by simp [Op.isWork])
  | refused => rfl
  | made _ _ hs => exact hs.graph_eq
  | @rooted op id x _ hop hx hb hs =>
    have hl := Color.isLive_of_isBulk hb
    -- a pair without a root color has no roots, so its first root makes one
    have hzero : x.rootCount = 0 := by
      have hnot : ¬x.color.isRoot = true := by
        rw [Color.not_isRoot_of_isBulk hb]
        decide
      have hnone := mt (h.rooted hx).2 hnot
      omega
    have hnode : c.graph.insert id _ = _ :=
      insert_eq_alter (f := fun n => { n with roots := n.roots + 1 }) hx hl
    unfold Slot.node at hnode
    simp only [hzero, Nat.zero_add] at hnode
    rw [hs.graph_eq]
    rcases hop with rfl | rfl
    · exact hnode
    · exact hnode
  | @retained op id x _ hop hx hr hs =>
    -- the count goes up by one, and the color does not matter here
    have hnode := insert_eq_alter (f := fun n => { n with roots := n.roots + 1 }) hx
      (Color.isLive_of_isRoot hr)
    rw [hs.graph_eq]
    rcases hop with rfl | rfl
    · exact hnode
    · exact hnode
  | unrooted hx hr hs =>
    rw [hs.graph_eq]
    exact insert_eq_alter (f := fun n => { n with roots := n.roots - 1 }) hx
      (Color.isLive_of_isRoot hr)
  | @written id side value x _ hx hl hs =>
    -- one side of the pair is written to, and its roots stay
    have hnode := insert_eq_alter (f := side.setNode value) hx hl
    rw [hs.graph_eq, ← show (side.setNode value x.node) = (side.set value x).node by
      cases side <;> rfl]
    exact hnode

/-! ### References that an operation takes over -/

theorem releases (he : Edit c op reply c') : c.objects.Releases c'.objects := by
  cases he with
  | work => exact .refl _
  | refused => exact (Objects.Releases.discard _ _).trans (.discard _ _)
  | made _ _ _ hobjects => exact .of_eq hobjects
  | rooted _ _ _ _ hobjects => exact .of_eq hobjects
  | retained _ _ _ _ hobjects => exact .of_eq hobjects
  | unrooted _ _ _ hobjects => exact .of_eq hobjects
  | written _ _ _ hobjects =>
    rw [hobjects]
    exact .discard _ _

/-- Roots and colors do not matter to what a pair holds. -/
theorem balanced_of_edited {kids : List PairId} (hs : c.Edited id y kids c')
    (hx : c.look id = some x) (hholds : ∀ o, y.holds o = x.holds o)
    (hobjects : c'.objects = c.objects) (hc : c.Balanced cells) : c'.Balanced cells := by
  refine hc.congr hobjects fun o => ?_
  have hheld := hs.held_eq o
  rw [hx, Option.elim_some, hholds] at hheld
  exact Nat.add_right_cancel hheld

/-- What one side gives up and takes over. -/
theorem holds_set (side : Side) (value : Cell) (x : Slot) (o : ObjectId) :
    (side.set value x).holds o + (if side.get x = .managed o then 1 else 0) =
      x.holds o + if value = .managed o then 1 else 0 := by
  rw [Slot.holds_eq, Slot.holds_eq]
  cases side with
  | car =>
    change (if value = _ then 1 else 0) + (if x.cdr = _ then 1 else 0) +
      (if x.car = _ then 1 else 0) = _
    omega
  | cdr =>
    change (if x.car = _ then 1 else 0) + (if value = _ then 1 else 0) +
      (if x.cdr = _ then 1 else 0) = _
    omega

/-- **An operation takes over the references of its cells**: they end up in the heap or are given
up. -/
theorem balanced (he : Edit c op reply c') (hc : c.Balanced (op.cells + cells)) :
    c'.Balanced cells := by
  -- operations without cells take nothing over
  have hplain : op.cells = 0 → c.Balanced cells := by
    intro hcells
    rwa [hcells, zero_add] at hc
  cases he with
  | work isWork =>
    refine hplain ?_
    cases op with
    | step | recycle | finish | cycle => rfl
    | _ => exact absurd isWork (by simp [Op.isWork])
  | @refused car cdr _ _ _ =>
    -- there was no room, so both cells are dropped
    have hpair : c.Balanced (car ::ₘ cdr ::ₘ cells) := by
      rwa [← Multiset.singleton_add cdr, ← Multiset.cons_add]
    exact hpair.discard.discard
  | @made car cdr id _ _ hempty hs hobjects =>
    -- the slot held nothing before, and now it holds the two cells
    intro o
    have hheld := hs.held_eq o
    have hstrong := hc o
    rw [hempty o, Slot.holds_eq] at hheld
    change c.objects.strong o = c.store.held o + Multiset.count _ (car ::ₘ {cdr} + cells) at hstrong
    rw [Multiset.cons_add, Multiset.singleton_add, count_cons, count_cons] at hstrong
    rw [hobjects, hstrong]
    change c'.store.held o + 0 = c.store.held o + ((if car = _ then 1 else 0) +
      (if cdr = _ then 1 else 0)) at hheld
    omega
  | rooted hop hx _ hs hobjects =>
    refine balanced_of_edited hs hx (fun _ => rfl) hobjects (hplain ?_)
    rcases hop with rfl | rfl <;> rfl
  | retained hop hx _ hs hobjects =>
    refine balanced_of_edited hs hx (fun _ => rfl) hobjects (hplain ?_)
    rcases hop with rfl | rfl <;> rfl
  | unrooted hx _ hs hobjects =>
    exact balanced_of_edited hs hx (fun _ => rfl) hobjects (hplain rfl)
  | @written id side value x _ hx _ hs hobjects =>
    -- the new cell takes the place of the old one, which is given up
    intro o
    have hheld := hs.held_eq o
    have hstrong := hc o
    have hset := holds_set side value x o
    rw [hx, Option.elim_some] at hheld
    change c.objects.strong o = c.store.held o + Multiset.count _ ({value} + cells) at hstrong
    rw [Multiset.singleton_add, count_cons] at hstrong
    rw [hobjects, Objects.strong_discard]
    omega

end Edit

namespace Performs

theorem sound (hp : c.Performs op reply c') (h : c.Sound) : c'.Sound := by
  obtain ⟨c₁, c₂, hrec, hedit, hup, -⟩ := hp
  exact hup.sound (hedit.sound (hrec.upkeep.sound h))

/-- After an operation the graph is what its effect is, without some pairs that are not
reachable. -/
theorem trims (hp : c.Performs op reply c') (h : c.Sound) :
    (op.effect reply c.graph).Trims c'.graph := by
  obtain ⟨c₁, c₂, hrec, hedit, hup, -⟩ := hp
  have h₁ := hrec.upkeep.sound h
  rw [← hrec.graph_eq, ← hedit.graph_eq h₁]
  exact hup.trims (hedit.sound h₁)

/-- The only recoverable error is that there is no room. -/
theorem isOutOfMemory {e : HeapError} (hp : c.Performs (.make car cdr) (.failed e) c') :
    e.isOutOfMemory = true := by
  obtain ⟨c₁, c₂, -, hedit, -⟩ := hp
  cases hedit with
  | work isWork => exact absurd isWork (by simp [Op.isWork])
  | refused _ error => exact error ▸ rfl

theorem graph_eq_none (hp : c.Performs op (.made id) c') : c.graph id = none := by
  obtain ⟨c₁, c₂, hrec, hedit, -⟩ := hp
  rw [← hrec.graph_eq]
  exact hedit.graph_eq_none

theorem releases (hp : c.Performs op reply c') : c.objects.Releases c'.objects := by
  obtain ⟨c₁, c₂, hrec, hedit, hup, -⟩ := hp
  exact hrec.upkeep.releases.trans (hedit.releases.trans hup.releases)

/-- The references of the cells that an operation is given are accounted for. -/
theorem balanced (hp : c.Performs op reply c') (h : c.Sound)
    (hc : c.Balanced (op.cells + cells)) : c'.Balanced cells := by
  obtain ⟨c₁, c₂, hrec, hedit, hup, -⟩ := hp
  have h₁ := hrec.upkeep.sound h
  exact hup.balanced (hedit.sound h₁) (hedit.balanced (hrec.upkeep.balanced h hc))

theorem options_eq (hp : c.Performs op reply c') : c'.options = c.options := by
  obtain ⟨c₁, c₂, hrec, hedit, hup, -⟩ := hp
  calc c'.options = c₂.options := hup.options_eq
    _ = c₁.options := by rw [hedit.frame]
    _ = c.options := hrec.upkeep.options_eq

end Performs

/-! ### Runs -/

/-- A collector with other amounts of work for an event. -/
def paced (c : Collector) (garbageSteps recycleSteps : Nat) : Collector :=
  { c with options := { c.options with garbageSteps, recycleSteps } }

theorem paced_self (c : Collector) :
    c.paced c.options.garbageSteps c.options.recycleSteps = c :=
  rfl

theorem Sound.paced (h : c.Sound) (g r : Nat) : (c.paced g r).Sound :=
  ⟨h.store, h.pageSize_eq, h.maxPages_eq, h.rooted, h.closed, h.tricolor⟩

/-- `c` is reached from `c₀` by operations that are allowed when they are done, each with some
amounts of work. `past` holds the states before the operations, the latest first. -/
inductive Run (Allowed : Collector → Op → Prop) (c₀ : Collector) :
    List Collector → Collector → Prop where
  | start : Run Allowed c₀ [] c₀
  | perform {past : List Collector} {c c' : Collector} {op : Op} {reply : Reply}
    {es es' : Array Event} {g r : Nat} (run : Run Allowed c₀ past c) (allowed : Allowed c op)
    (done : Collector.perform op ⟨c.paced g r, es⟩ = .ok reply ⟨c', es'⟩) :
    Run Allowed c₀ (c :: past) c'

/-- What was done is what every operation does. -/
theorem Sound.performs (h : c.Sound) (hargs : op.LiveArgs c)
    (hdone : Collector.perform op ⟨c.paced g r, es⟩ = .ok reply ⟨c', es'⟩) :
    (c.paced g r).Performs op reply c' :=
  ((h.paced g r).perform hargs).elim hdone

/-- Operations on live arguments keep the invariant. -/
theorem Run.sound (run : Run Allowed c₀ past c) (h : c₀.Sound)
    (hallowed : ∀ c op, Allowed c op → op.LiveArgs c) : c.Sound := by
  induction run with
  | start => exact h
  | @perform _ _ _ _ _ _ _ g r _ allowed done ih =>
    exact (ih.performs (hallowed _ _ allowed) done).sound (ih.paced g r)

/-- A collector that was just made is in order. -/
theorem Sound.create (hc : Collector.create o = .ok c) : c.Sound := by
  unfold Collector.create at hc
  split at hc
  · exact absurd hc (by simp)
  · obtain rfl := Except.ok.inj hc
    exact .empty _

/-- A collector that was just made has no slots. -/
theorem totalSlots_of_create (created : Collector.create o = .ok c) :
    c.totalSlots = 0 ∧ c.options = o := by
  unfold Collector.create at created
  split at created
  · exact absurd created nofun
  · obtain rfl := Except.ok.inj created
    exact ⟨Nat.zero_mul _, rfl⟩

theorem look_of_create (created : Collector.create o = .ok c) (j : PairId) : c.look j = none := by
  refine Option.eq_none_iff_forall_ne_some.2 fun x hx => ?_
  have hlt : j.index < c.totalSlots := Store.index_lt_of_look hx
  rw [(totalSlots_of_create created).1] at hlt
  exact Nat.not_lt_zero _ hlt

theorem not_isLive_of_create (created : Collector.create o = .ok c) (j : PairId) :
    ¬c.IsLive j := by
  rintro ⟨x, hx, -⟩
  rw [look_of_create created] at hx
  exact absurd hx nofun

/-! ### Runs that can be computed -/

instance (id : PairId) (P : Slot → Prop) [DecidablePred P] :
    Decidable (∃ x, c.look id = some x ∧ P x) :=
  match c.look id with
  | none => .isFalse fun ⟨_, hx, _⟩ => nomatch hx
  | some x => decidable_of_iff (P x)
    ⟨fun hx => ⟨x, rfl, hx⟩, fun ⟨_, hy, hP⟩ => Option.some.inj hy ▸ hP⟩

instance (id : PairId) : Decidable (c.IsLive id) :=
  inferInstanceAs (Decidable (∃ x, c.look id = some x ∧ x.color.isLive = true))

/-- The discipline of callers can be checked. -/
instance Op.decidableLiveArgs (c : Collector) : (op : Op) → Decidable (op.LiveArgs c)
  | make car cdr => inferInstanceAs (Decidable
    (∀ child ∈ car.pair?.toList ++ cdr.pair?.toList, c.IsLive child))
  | root id => inferInstanceAs (Decidable
    (∃ x, c.look id = some x ∧ x.color.isBulk = true))
  | retain id => inferInstanceAs (Decidable
    (∃ x, c.look id = some x ∧ x.color.isRoot = true ∧ x.rootCount < maxRoots))
  | acquire id => inferInstanceAs (Decidable
    (∃ x, c.look id = some x ∧ x.color.isLive = true ∧
      (x.color.isRoot = true → x.rootCount < maxRoots)))
  | unroot id => inferInstanceAs (Decidable
    (∃ x, c.look id = some x ∧ x.color.isRoot = true))
  | write id _ value => inferInstanceAs (Decidable
    (c.IsLive id ∧ ∀ child ∈ value.pair?.toList, c.IsLive child))
  | step | recycle | finish | cycle => .isTrue trivial

/-- The state that an operation leaves when its event pays for no work. -/
def after (c : Collector) (op : Op) : Collector :=
  match Collector.perform op ⟨c.paced 0 0, #[]⟩ with
  | .ok _ u | .error _ u => u.state

/-- A run can be continued with every operation that is allowed. -/
theorem Run.after (run : Run Allowed c₀ past c) (h : c₀.Sound)
    (hallowed : ∀ c op, Allowed c op → op.LiveArgs c) (op : Op) (allowed : Allowed c op) :
    Run Allowed c₀ (c :: past) (c.after op) := by
  have hc := (run.sound h hallowed).paced 0 0
  obtain ⟨reply, u, hdone, -⟩ : (Collector.perform op).Yields ⟨c.paced 0 0, #[]⟩ _ :=
    hc.perform (hallowed c op allowed)
  have hafter : c.after op = u.state := by
    unfold Collector.after
    rw [hdone]
  rw [hafter]
  exact run.perform allowed hdone

/-- A collector with two pairs to a page, which does no work unless it is told to. -/
def manualTwo : Collector :=
  empty (.manual 2) ⟨by decide, by decide, by decide⟩

theorem create_manualTwo : Collector.create (.manual 2) = .ok manualTwo :=
  rfl

theorem sound_manualTwo : manualTwo.Sound :=
  .create create_manualTwo

/-- From there a run goes on with every operation on live arguments. -/
theorem Run.live (run : Run Op.LiveArgs manualTwo past c) (op : Op) (hargs : op.LiveArgs c) :
    Run Op.LiveArgs manualTwo (c :: past) (c.after op) :=
  run.after sound_manualTwo (fun _ _ hargs => hargs) op hargs

/-! ### Safety -/

/-- **No reachable pair is lost or altered.** An operation on live arguments, done in a state
reached by such operations, does not fault. A pair that it allocates was not in use before. The
pairs in use after it are those that its effect leaves, with the same cells and root counts, except
for some pairs none of which is reachable. -/
theorem perform_trims (created : Collector.create o = .ok c₀) (run : Run Op.LiveArgs c₀ past c)
    (args : op.LiveArgs c) (g r : Nat) (es : Array Event) :
    (perform op).Yields ⟨c.paced g r, es⟩ fun reply u =>
      (∀ id, reply = .made id → c.graph id = none) ∧
        (op.effect reply c.graph).Trims u.state.graph := by
  have h : c.Sound := run.sound (.create created) fun _ _ hargs => hargs
  refine ((h.paced g r).perform args).mono fun reply u hu => ⟨fun id hid => ?_, ?_⟩
  · rw [hid] at hu
    exact hu.graph_eq_none
  · exact hu.trims (h.paced g r)

/-- The pair holds itself when its only root is released, and the marking that this pays for
disposes of it. -/
theorem perform_trims_self_loop : ∃ past c, Run Op.LiveArgs manualTwo past c ∧ past.length = 2 ∧
    (perform (.unroot ⟨0⟩)).Yields ⟨c.paced 3 1, #[]⟩ fun reply u =>
      (∀ id, reply = .made id → c.graph id = none) ∧
        (Op.effect (.unroot ⟨0⟩) reply c.graph).Trims u.state.graph := by
  have made := Run.start.after sound_manualTwo (fun _ _ hargs => hargs)
    (.make .nil (.integer 7)) (by decide +kernel)
  have looped := made.after sound_manualTwo (fun _ _ hargs => hargs)
    (.write ⟨0⟩ .car (.pair ⟨0⟩)) (by decide +kernel)
  exact ⟨_, _, looped, rfl, perform_trims create_manualTwo looped (by decide +kernel) 3 1 #[]⟩

/-- **The invariant of the colors.** In every state reached by operations on live arguments, a
scanned pair holds no pair of the `from` generation, a live pair holds live pairs, a live pair has
a root color exactly when its root count is positive, and a slot that is not live has no roots. -/
theorem Run.tricolor_closed_rooted (created : Collector.create o = .ok c₀)
    (run : Run Op.LiveArgs c₀ past c) :
    (∀ id x child y, c.slot id = .ok x → c.generation.isTo x.color = true → child ∈ x.children →
      c.slot child = .ok y → c.generation.isFrom y.color = false) ∧
    (∀ id x child, c.slot id = .ok x → x.color.isLive = true → child ∈ x.children →
      ∃ y, c.slot child = .ok y ∧ y.color.isLive = true) ∧
    ∀ id x, c.slot id = .ok x →
      (x.color.isLive = true → (x.color.isRoot = true ↔ 0 < x.rootCount)) ∧
        (x.color = .free ∨ x.color = .void → x.rootCount = 0) := by
  have h : c.Sound := run.sound (.create created) fun _ _ hargs => hargs
  -- each part is a clause of the invariant, with positions put back
  refine ⟨fun id x child y hx hto hchild hy => ?_, fun id x child hx hl hchild => ?_,
    fun id x hx => ⟨fun _ => ?_, fun hdead => ?_⟩⟩
  · have htri := h.tricolor (look_of_slot hx) hto hchild (look_of_slot hy)
    exact htri
  · obtain ⟨z, hz, hzl⟩ := h.closed (look_of_slot hx) hl hchild
    obtain ⟨y, hy, rfl⟩ := slot_of_look hz
    exact ⟨y, hy, hzl⟩
  · have hrooted := h.rooted (look_of_slot hx)
    exact hrooted
  · have hroot : ¬x.color.isRoot = true := by
      rcases hdead with he | he
      · rw [he]
        decide
      · rw [he]
        decide
    have hzero := mt (h.rooted (look_of_slot hx)).2 hroot
    change ¬0 < x.rootCount at hzero
    omega

/-- The run allocates a pair, scans it, and makes it hold itself. -/
theorem tricolor_closed_rooted_scanned : ∃ past c, Run Op.LiveArgs manualTwo past c ∧
    past.length = 3 ∧
    (∀ id x child y, c.slot id = .ok x → c.generation.isTo x.color = true → child ∈ x.children →
      c.slot child = .ok y → c.generation.isFrom y.color = false) ∧
    (∀ id x child, c.slot id = .ok x → x.color.isLive = true → child ∈ x.children →
      ∃ y, c.slot child = .ok y ∧ y.color.isLive = true) ∧
    ∀ id x, c.slot id = .ok x →
      (x.color.isLive = true → (x.color.isRoot = true ↔ 0 < x.rootCount)) ∧
        (x.color = .free ∨ x.color = .void → x.rootCount = 0) := by
  have made := Run.start.after sound_manualTwo (fun _ _ hargs => hargs)
    (.make .nil (.integer 7)) (by decide +kernel)
  have scanned := made.after sound_manualTwo (fun _ _ hargs => hargs) .step trivial
  have looped := scanned.after sound_manualTwo (fun _ _ hargs => hargs)
    (.write ⟨0⟩ .car (.pair ⟨0⟩)) (by decide +kernel)
  exact ⟨_, _, looped, rfl, Run.tricolor_closed_rooted create_manualTwo looped⟩

end Collector

end ConsHeap
