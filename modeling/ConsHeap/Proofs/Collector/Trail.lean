import ConsHeap.Proofs.Collector.Runs

/-!
# What is reported, and what it stands for

An operation reports events while it runs, and the statistics count them. To say what the events
stand for, this module takes a run apart into moves, each with the one event that it reports:

* `Collector.Tick t u` — a unit of marking or recycling. A page that is added or refused is noted,
  and references that are counted are not reported at all;
* `Collector.Changed t id x y kids u` — a pair in use was overwritten, which nobody reports;
* `Collector.Allocated t id y kids u` — a vacant slot became a pair;
* `Collector.Move t u` — one of these, a full cycle, or a change of what an event pays for.

`Collector.Sound.perform_trail` says that an operation on live arguments is a sequence of moves, and
`Collector.Chronicle.trail` that a run is. So whatever a move keeps, a run keeps; in contrast to
`Collector.Upkeep`, where the events are left out, what is kept may speak of them. A run whose
events are put down one after another is a `Collector.Chronicle`.
-/

namespace ConsHeap

namespace Event

/-! ### Events by kind -/

/-- The pair that an event says was scanned. -/
def scanned? : Event → Option PairId
  | scanned id _ _ => some id
  | _ => none

/-- The pair that an event says was allocated. -/
def allocated? : Event → Option PairId
  | allocated id _ => some id
  | _ => none

/-- The events of a generation swap. -/
def isSwap : Event → Bool
  | swapped _ _ => true
  | _ => false

/-- The events of a full cycle. -/
def isCycle : Event → Bool
  | fullCycle _ _ _ => true
  | _ => false

/-- The events that are about pages. -/
def isPaging : Event → Bool
  | pageAllocated _ _ | pageLimitReached _ | slotNumbersExhausted => true
  | _ => false

/-- The pairs that the events of one kind are about, in order. -/
def pairs (kind : Event → Option PairId) (es : Array Event) : List PairId :=
  es.toList.filterMap kind

variable {kind : Event → Option PairId} {es : Array Event} {e : Event} {id : PairId}

theorem pairs_push : pairs kind (es.push e) = pairs kind es ++ (kind e).toList := by
  unfold pairs
  rw [Array.toList_push, List.filterMap_append]
  cases h : kind e with
  | none => rw [List.filterMap_cons_none h]; rfl
  | some id => rw [List.filterMap_cons_some h]; rfl

/-- An event of another kind. -/
theorem pairs_push_none (h : kind e = none) : pairs kind (es.push e) = pairs kind es := by
  rw [pairs_push, h, Option.toList_none, List.append_nil]

/-- One event more of the kind. -/
theorem pairs_push_some (h : kind e = some id) :
    pairs kind (es.push e) = pairs kind es ++ [id] := by
  rw [pairs_push, h, Option.toList_some]

/-- What is about pages is about no pair, and about no generation. -/
theorem kinds_of_isPaging (h : e.isPaging = true) :
    e.scanned? = none ∧ e.allocated? = none ∧ e.isSwap = false ∧ e.isCycle = false := by
  cases e with
  | pageAllocated | pageLimitReached | slotNumbersExhausted => exact ⟨rfl, rfl, rfl, rfl⟩
  | _ => exact absurd h Bool.false_ne_true

end Event

namespace Arena

variable {a : Arena} {es : Array Event}

/-- A page that is refused is reported for the reason why. -/
theorem isPaging_of_refusal? {e : Event} (h : a.refusal? = some e) : e.isPaging = true := by
  unfold refusal? at h
  split at h
  · obtain rfl := Option.some.inj h
    rfl
  · split at h
    · obtain rfl := Option.some.inj h
      rfl
    · exact absurd h nofun

/-- A page that is asked for is reported, or why there is none. -/
theorem grow_reports : grow.Yields ⟨a, es⟩ fun _ u =>
    ∃ e : Event, e.isPaging = true ∧ u.events = es.push e := by
  unfold grow
  rw [Action.yields_bind, Action.yields_ask]
  cases h : a.refusal? with
  | some e =>
    simp only [Action.yields_bind, Action.yields_report, Action.yields_ask, Action.yields_pure]
    exact ⟨e, isPaging_of_refusal? h, rfl⟩
  | none =>
    simp only [Action.yields_bind, Action.yields_update, Action.yields_ask, Action.yields_report,
      Action.yields_pure]
    exact ⟨_, rfl, rfl⟩

/-- A request for a slot reports no more than one event, and that is about pages. -/
theorem next_reports : next.Yields ⟨a, es⟩ fun _ u =>
    u.events = es ∨ ∃ e : Event, e.isPaging = true ∧ u.events = es.push e := by
  unfold next
  rw [Action.yields_bind, Action.yields_updateGet]
  cases a.reuse.1 with
  | some id => exact Action.yields_pure.2 (.inl rfl)
  | none =>
    unfold extend
    rw [Action.yields_bind, Action.yields_ask, Action.yields_ite]
    refine ⟨fun _ => ?_, fun _ => ?_⟩
    · -- a page is asked for, whether or not there is one
      rw [Action.yields_bind]
      refine grow_reports.mono fun r m hm => ?_
      cases r with
      | error e => exact Action.yields_pure.2 (.inr hm)
      | ok _ =>
        rw [Action.yields_bind, Action.yields_updateGet, Action.yields_pure]
        exact .inr hm
    · rw [Action.yields_bind, Action.yields_updateGet, Action.yields_pure]
      exact .inl (by unfold reuse; split <;> rfl)

end Arena

namespace Collector

variable {c c' : Collector} {t t₁ u v : Traced Collector} {id j : PairId} {x y : Slot}
  {kids : List PairId} {es : Array Event} {car cdr value : Cell} {side : Side} {op : Op}
  {Allowed : Collector → Op → Prop} {os : Objects} {a : Cell}

/-! ### Ticks -/

/-- One unit of marking or recycling with the event that it reports. References are counted and
pages are noted in between. -/
inductive Tick (t u : Traced Collector) : Prop where
  | scan {id : PairId} {x : Slot} {target : Color} (scanned : t.state.Scanned id x target u.state)
    (events : u.events = t.events.push (.scanned id x.color target))
  | swap {n : Nat} (swapped : t.state.Swapped n u.state)
    (events : u.events = t.events.push (.swapped n t.state.generation.flip.fromColor))
  | recycle {id : PairId} {x : Slot} (recycled : t.state.Recycled id x u.state)
    (events : u.events = t.events.push (.recycled id))
  | count {os : Objects} (state : u.state = { t.state with objects := os })
    (events : u.events = t.events)
  | page {e : Event} (isPaging : e.isPaging = true) (state : u.state = t.state)
    (events : u.events = t.events.push e)

/-- Any number of ticks. -/
def Ticks : Traced Collector → Traced Collector → Prop :=
  Relation.ReflTransGen Tick

theorem Tick.sound (ht : Tick t u) (h : t.state.Sound) : u.state.Sound := by
  cases ht with
  | scan hs => exact hs.sound h
  | swap hs => exact hs.sound h
  | recycle hs => exact hs.sound h
  -- the invariant says nothing of references
  | count hu => exact hu ▸ h.withObjects _
  | page _ hu => exact hu ▸ h

/-- What was reported stays reported. -/
theorem Tick.mem_events {e : Event} (ht : Tick t u) (he : e ∈ t.events) : e ∈ u.events := by
  cases ht with
  | scan _ events | swap _ events | recycle _ events | page _ _ events =>
    rw [events]
    exact Array.mem_push_of_mem _ he
  | count _ events => exact events ▸ he

namespace Ticks

theorem refl (t : Traced Collector) : Ticks t t :=
  Relation.ReflTransGen.refl

theorem single (ht : Tick t u) : Ticks t u :=
  Relation.ReflTransGen.single ht

theorem trans (h : Ticks t u) (h' : Ticks u v) : Ticks t v :=
  Relation.ReflTransGen.trans h h'

theorem sound (ht : Ticks t u) (h : t.state.Sound) : u.state.Sound := by
  induction ht with
  | refl => exact h
  | tail _ hs ih => exact hs.sound ih

/-- Ticks allocate nothing. -/
theorem allocated_eq (ht : Ticks t u) :
    Event.pairs Event.allocated? u.events = Event.pairs Event.allocated? t.events := by
  induction ht with
  | refl => rfl
  | tail _ hs ih =>
    rw [← ih]
    cases hs with
    | scan _ events | swap _ events | recycle _ events =>
      rw [events, Event.pairs_push_none rfl]
    | count _ events => rw [events]
    | page isPaging _ events =>
      rw [events, Event.pairs_push_none (Event.kinds_of_isPaging isPaging).2.1]

end Ticks

/-! ### The work that an event pays for -/

theorem Sound.step_tick (h : t.state.Sound) : Collector.step.Yields t fun _ u => Tick t u := by
  refine h.step.mono fun r u hu => ?_
  cases r with
  | scanned id =>
    obtain ⟨x, target, hs, events⟩ := hu
    exact .scan hs events
  | swapped n => exact .swap hu.1 hu.2

theorem Sound.runGarbage_ticks (h : t.state.Sound) :
    Collector.runGarbage.Yields t fun _ u => Ticks t u := by
  unfold Collector.runGarbage
  rw [Action.yields_bind, Action.yields_ask]
  -- every round is one tick more
  refine Action.Yields.times (I := Ticks t) (fun u hu => ?_) _ (.refl t)
  rw [Action.yields_bind]
  exact (hu.sound h).step_tick.mono fun _ v hv => Action.yields_pure.2 (.tail hu hv)

theorem Sound.recycle_ticks (h : t.state.Sound) :
    Collector.recycle.Yields t fun _ u => Ticks t u := by
  refine (Sound.recycle h.store).mono fun r u hu => ?_
  cases r with
  | none =>
    -- no pair was free
    rw [hu.1]
    exact .refl t
  | some id =>
    obtain ⟨x, hs, events⟩ := hu
    exact .single (.recycle hs events)

theorem Sound.recycleUpTo_ticks (n : Nat) (h : t.state.Sound) :
    (recycleUpTo n).Yields t fun _ u => Ticks t u := by
  induction n generalizing t with
  | zero =>
    unfold recycleUpTo
    exact Action.yields_pure.2 (.refl t)
  | succ n ih =>
    unfold recycleUpTo
    rw [Action.yields_bind]
    refine h.recycle_ticks.mono fun r u hu => ?_
    -- it may be over before `n` pairs were recycled
    cases r with
    | none => exact Action.yields_pure.2 hu
    | some id => exact (ih (hu.sound h)).mono fun _ v hv => hu.trans hv

theorem Sound.runRecycle_ticks (h : t.state.Sound) :
    Collector.runRecycle.Yields t fun _ u => Ticks t u := by
  unfold Collector.runRecycle
  rw [Action.yields_bind, Action.yields_ask]
  exact h.recycleUpTo_ticks _

/-- Marking, and then recycling. -/
theorem Sound.work_ticks (h : t.state.Sound) :
    (do Collector.runGarbage; Collector.runRecycle : Action Collector Unit).Yields t
      fun _ u => Ticks t u := by
  rw [Action.yields_bind]
  refine h.runGarbage_ticks.mono fun _ u hu => ?_
  exact (hu.sound h).runRecycle_ticks.mono fun _ v hv => hu.trans hv

theorem Sound.finish_ticks (h : t.state.Sound) :
    Collector.finish.Yields t fun _ u => Ticks t u := by
  refine finish_yields (I := Ticks t) (fun u hu hticks => ?_) h (.refl t)
  refine hu.step_tick.mono fun r v hv => ?_
  cases r with
  | scanned id => exact ⟨hv.sound hu, .tail hticks hv⟩
  | swapped n => exact .tail hticks hv

/-! ### Edits -/

/-- A pair in use was overwritten. It stays in its generation, and nothing is counted. -/
structure Changed (t : Traced Collector) (id : PairId) (x y : Slot) (kids : List PairId)
    (u : Traced Collector) : Prop where
  look_eq : t.state.look id = some x
  live : x.color.isLive = true
  isTo_eq : t.state.generation.isTo y.color = t.state.generation.isTo x.color
  edited : t.state.Edited id y kids u.state
  stats_eq : u.state.stats = t.state.stats
  events_eq : u.events = t.events

/-- A vacant slot became a pair of the `from` generation. Only now it is counted, and with it the
pages that there are. -/
structure Allocated (t : Traced Collector) (id : PairId) (y : Slot) (kids : List PairId)
    (u : Traced Collector) : Prop where
  vacant : ∀ x, t.state.look id = some x → x.color = .void
  color_eq : y.color = t.state.generation.fromRoot
  edited : t.state.Edited id y kids u.state
  stats_eq : u.state.stats = { t.state.stats with
    pairsAllocated := t.state.stats.pairsAllocated + 1
    pagesAllocated := u.state.store.arena.pageCount }
  events_eq : u.events = t.events.push (.allocated id y.color)

/-- A vacant slot holds no pair in use. -/
theorem Allocated.not_isLive (hs : Allocated t id y kids u) : ¬t.state.IsLive id := by
  rintro ⟨x, hx, hl⟩
  exact Color.ne_void_of_isLive hl (hs.vacant x hx)

theorem Allocated.mem_events {e : Event} (hs : Allocated t id y kids u) (he : e ∈ t.events) :
    e ∈ u.events := by
  rw [hs.events_eq]
  exact Array.mem_push_of_mem _ he

/-- An operation that changes a pair in use does so before any work is done. -/
def Changes (t u : Traced Collector) : Prop :=
  ∃ id x y kids t₁, Changed t id x y kids t₁ ∧ Ticks t₁ u

/-- What an edit of a pair in use and the work after it come to. -/
theorem Changes.of_edited {s : Store} (hx : c.look id = some x) (hl : x.color.isLive = true)
    (hto : c.generation.isTo y.color = c.generation.isTo x.color)
    (hedited : c.Edited id y kids { c with store := s, objects := os })
    (hu : Ticks ⟨{ c with store := s, objects := os }, es⟩ u) : Changes ⟨c, es⟩ u :=
  ⟨id, x, y, kids, ⟨{ c with store := s, objects := os }, es⟩, ⟨hx, hl, hto, hedited, rfl, rfl⟩, hu⟩

theorem Sound.root_changes (h : c.Sound) (hx : c.look id = some x) (hb : x.color.isBulk = true) :
    (Collector.root id).Yields ⟨c, es⟩ fun _ u => Changes ⟨c, es⟩ u := by
  refine h.root_edits hx hb fun s hedited => ?_
  obtain ⟨-, -, hto, -⟩ := toRoot_spec (g := c.generation) hb
  have hsound : ({ c with store := s } : Collector).Sound := hedited.sound h
  exact (Sound.work_ticks (t := ⟨_, es⟩) hsound).mono fun _ u hu =>
    Changes.of_edited hx (Color.isLive_of_isBulk hb) hto hedited hu

theorem Sound.retain_changes (h : c.Sound) (hx : c.look id = some x)
    (hr : x.color.isRoot = true) (hmax : x.rootCount < maxRoots) :
    (Collector.retain id).Yields ⟨c, es⟩ fun _ u => Changes ⟨c, es⟩ u :=
  h.retain_edits hx hr hmax fun _ hedited =>
    Changes.of_edited (y := { x with rootCount := x.rootCount + 1 }) hx
      (Color.isLive_of_isRoot hr) rfl hedited (.refl _)

/-- A root less: the pair has lost it before any work is done. -/
theorem Sound.unroot_changes (h : c.Sound) (hx : c.look id = some x)
    (hr : x.color.isRoot = true) :
    (Collector.unroot id).Yields ⟨c, es⟩ fun _ u => Changes ⟨c, es⟩ u := by
  refine h.unroot_edits hx hr fun s hedited => ?_
  obtain ⟨-, hto, -⟩ := unrootedColor_spec (g := c.generation) hr ((h.rooted hx).1 hr)
  have hsound : ({ c with store := s } : Collector).Sound := hedited.sound h
  rw [← bind_assoc, Action.yields_bind]
  refine (Sound.work_ticks (t := ⟨_, es⟩) hsound).mono fun _ u hu => ?_
  exact Action.yields_pure.2 (.of_edited hx (Color.isLive_of_isRoot hr) hto hedited hu)

theorem Sound.write_changes (h : c.Sound) (hx : c.look id = some x)
    (hl : x.color.isLive = true) (hvalue : ∀ child ∈ value.pair?.toList, c.IsLive child) :
    (Collector.write id side value).Yields ⟨c, es⟩ fun _ u => Changes ⟨c, es⟩ u := by
  refine h.write_edits hx hl hvalue fun s hedited => ?_
  have hto : c.generation.isTo (side.set value x).color = c.generation.isTo x.color := by
    cases side <;> rfl
  have hsound : ({ c with store := s, objects := c.objects.discard (side.get x) } :
      Collector).Sound := hedited.sound h
  -- only a pair that is stored is paid for
  cases hv : value.pair? with
  | none => exact Action.yields_pure.2 (.of_edited hx hl hto hedited (.refl _))
  | some new =>
    exact (Sound.runGarbage_ticks (t := ⟨_, es⟩) hsound).mono fun _ u hu =>
      .of_edited hx hl hto hedited hu

/-! ### Allocations -/

/-- What an allocation does, by its answer. -/
def Makes (t : Traced Collector) (r : Except HeapError PairId) (u : Traced Collector) : Prop :=
  match r with
  | .ok id => ∃ y kids t₁ t₂, Ticks t t₁ ∧ Allocated t₁ id y kids t₂ ∧ Ticks t₂ u
  | .error _ => Ticks t u

/-- A slot that is about to be handed out is blank, or it does not exist yet. -/
theorem Sound.vacant_of_hands (h : c.Sound) {b : Arena} (hb : c.store.arena.Hands id b)
    (hx : c.look id = some x) : x.color = .void := by
  by_contra hcol
  rcases hb.origin with hv | hnone
  · exact h.store.not_vacant_of_look hx hcol hv
  · obtain ⟨y, hy, -⟩ := Store.look_eq_some.1 hx
    exact absurd (hnone.symm.trans hy) (by simp)

/-- A request for a slot is noted where it is about pages. -/
theorem Ticks.noted (hnoted : es = t.events ∨
    ∃ e : Event, e.isPaging = true ∧ es = t.events.push e) : Ticks t ⟨t.state, es⟩ := by
  rcases hnoted with hsame | ⟨e, hpaging, hpush⟩
  · rw [hsame]
    exact .refl t
  · exact .single (.page hpaging rfl hpush)

/-- An allocation recycles, takes a slot and fills it, and marks; or it gives its cells up. -/
theorem Sound.make_makes (h : c.Sound)
    (hcells : ∀ child ∈ car.pair?.toList ++ cdr.pair?.toList, c.IsLive child) :
    (Collector.make car cdr).Yields ⟨c, es⟩ fun r u => Makes ⟨c, es⟩ r u := by
  unfold Collector.make
  rw [Action.yields_bind]
  refine (h.runRecycle.and (Sound.runRecycle_ticks (t := ⟨c, es⟩) h).leaves).mono fun _ m hm => ?_
  obtain ⟨c₁, es₁⟩ := m
  obtain ⟨⟨hrec, -⟩, hticks⟩ := hm
  have h₁ : c₁.Sound := hticks.sound h
  rw [Action.yields_bind, yields_onArena]
  refine (h₁.store.arena.next.and Arena.next_reports.leaves).mono fun r m hm => ?_
  obtain ⟨b, es₂⟩ := m
  obtain ⟨hr, hnoted⟩ := hm
  have hpaged : Ticks ⟨c, es⟩ ⟨c₁, es₂⟩ := hticks.trans (.noted hnoted)
  cases r with
  | error e =>
    -- the cells are given up, and that is not reported
    obtain ⟨rfl, -⟩ := hr
    simp only [Action.yields_bind, yields_discard, Action.yields_pure]
    exact hpaged.tail (.count rfl rfl)
  | ok id =>
    -- recycling took nothing from the graph, so the cells are still live
    have hcells₁ : ∀ child ∈ car.pair?.toList ++ cdr.pair?.toList, child ≠ id →
        c₁.IsLive child := by
      intro child hchild _
      rw [isLive_iff, hrec.graph_eq, ← isLive_iff]
      exact hcells child hchild
    rw [Action.yields_bind]
    refine (settle_yields h₁ hr hcells₁).mono fun _ m hm => ?_
    obtain ⟨hedited, -, hstats, hevents⟩ := hm
    have hmade : Allocated ⟨c₁, es₂⟩ id _ _ m :=
      ⟨fun _ => h₁.vacant_of_hands hr, rfl, hedited, hstats, hevents⟩
    rw [Action.yields_bind]
    refine (Sound.runGarbage_ticks (hedited.sound h₁)).mono fun _ u hu => ?_
    exact Action.yields_pure.2 ⟨_, _, _, _, hpaged, hmade, hu⟩

/-! ### Moves -/

/-- One move of a run. -/
inductive Move (t u : Traced Collector) : Prop where
  | tick (tick : Tick t u)
  | change {id : PairId} {x y : Slot} {kids : List PairId} (changed : Changed t id x y kids u)
  | allocate {id : PairId} {y : Slot} {kids : List PairId} (allocated : Allocated t id y kids u)
  | cycle {n kept returned : Nat} (cycled : t.state.Cycled n u.state)
    (events : u.events = t.events.push (.fullCycle kept n returned))
  | pace {g r : Nat} (state : u.state = t.state.paced g r) (events : u.events = t.events)

/-- Any number of moves. -/
def Trail : Traced Collector → Traced Collector → Prop :=
  Relation.ReflTransGen Move

theorem Move.sound (hm : Move t u) (h : t.state.Sound) : u.state.Sound := by
  cases hm with
  | tick ht => exact ht.sound h
  | change hs => exact hs.edited.sound h
  | allocate hs => exact hs.edited.sound h
  | cycle hs => exact hs.sound h
  | pace hu => exact hu ▸ h.paced _ _

theorem Move.mem_events {e : Event} (hm : Move t u) (he : e ∈ t.events) : e ∈ u.events := by
  cases hm with
  | tick ht => exact ht.mem_events he
  | change hs => exact hs.events_eq ▸ he
  | allocate hs => exact hs.mem_events he
  | cycle _ events =>
    rw [events]
    exact Array.mem_push_of_mem _ he
  | pace _ events => exact events ▸ he

namespace Trail

theorem refl (t : Traced Collector) : Trail t t :=
  Relation.ReflTransGen.refl

theorem single (hm : Move t u) : Trail t u :=
  Relation.ReflTransGen.single hm

theorem trans (h : Trail t u) (h' : Trail u v) : Trail t v :=
  Relation.ReflTransGen.trans h h'

theorem sound (ht : Trail t u) (h : t.state.Sound) : u.state.Sound := by
  induction ht with
  | refl => exact h
  | tail _ hm ih => exact hm.sound ih

/-- What a move keeps of a collector in order is kept by any number of them. -/
theorem keeps {P : Traced Collector → Prop} (ht : Trail t u) (h : t.state.Sound)
    (hmove : ∀ {t u}, Move t u → t.state.Sound → P t → P u) (hP : P t) : P u := by
  induction ht with
  | refl => exact hP
  | tail htrail hm ih => exact hmove hm (sound htrail h) ih

end Trail

theorem Ticks.trail (ht : Ticks t u) : Trail t u :=
  Relation.ReflTransGen.mono (fun _ _ => Move.tick) t u ht

theorem Changes.trail (hc : Changes t u) : Trail t u := by
  obtain ⟨_, _, _, _, _, hchanged, hticks⟩ := hc
  exact .trans (.single (.change hchanged)) hticks.trail

theorem Makes.trail {r : Except HeapError PairId} (hm : Makes t r u) : Trail t u := by
  cases r with
  | error e => exact Ticks.trail hm
  | ok id =>
    obtain ⟨_, _, _, _, hticks, hmade, hticks'⟩ := hm
    exact hticks.trail.trans (.trans (.single (.allocate hmade)) hticks'.trail)

/-! ### Operations and runs -/

/-- **An operation on live arguments is a sequence of moves.** -/
theorem Sound.perform_trail (h : c.Sound) (hargs : op.LiveArgs c) :
    (Collector.perform op).Yields ⟨c, es⟩ fun _ u => Trail ⟨c, es⟩ u := by
  -- the answer of an operation is not part of what it does
  cases op with
  | make car cdr =>
    unfold Collector.perform
    rw [Action.yields_bind]
    refine (h.make_makes hargs).mono fun r u hu => ?_
    cases r with
    | ok id => exact Action.yields_pure.2 hu.trail
    | error e => exact Action.yields_pure.2 hu.trail
  | root id =>
    obtain ⟨x, hx, hb⟩ := hargs
    exact Action.Yields.answer ((h.root_changes hx hb).mono fun _ _ hu => hu.trail)
  | retain id =>
    obtain ⟨x, hx, hr, hmax⟩ := hargs
    exact Action.Yields.answer ((h.retain_changes hx hr hmax).mono fun _ _ hu => hu.trail)
  | acquire id =>
    -- one more root, or the first one
    refine Action.Yields.answer (acquire_cases hargs (fun x hx hr hmax => ?_) fun x hx hb => ?_)
    · exact (h.retain_changes hx hr hmax).mono fun _ _ hu => hu.trail
    · exact (h.root_changes hx hb).mono fun _ _ hu => hu.trail
  | unroot id =>
    obtain ⟨x, hx, hr⟩ := hargs
    exact Action.Yields.answer ((h.unroot_changes hx hr).mono fun _ _ hu => hu.trail)
  | write id side value =>
    obtain ⟨⟨x, hx, hl⟩, hvalue⟩ := hargs
    exact Action.Yields.answer ((h.write_changes hx hl hvalue).mono fun _ _ hu => hu.trail)
  | step =>
    refine Action.Yields.answer ((Sound.step_tick h).mono fun _ _ hu => ?_)
    exact (Ticks.single hu).trail
  | recycle => exact Action.Yields.answer ((Sound.recycle_ticks h).mono fun _ _ hu => hu.trail)
  | finish => exact Action.Yields.answer ((Sound.finish_ticks h).mono fun _ _ hu => hu.trail)
  | cycle =>
    -- a full cycle is one move, however many pairs it recycles
    refine Action.Yields.answer (h.cycle_reports.mono fun n u hu => ?_)
    obtain ⟨hcycled, kept, returned, hevents⟩ := hu
    exact .single (.cycle hcycled hevents)

/-- `u` is reached from `t` by operations, each of them allowed when it is done and with some
amounts of work, and what they report is put down behind the events of `t`. -/
inductive Chronicle (Allowed : Collector → Op → Prop) (t : Traced Collector) :
    Traced Collector → Prop where
  | start : Chronicle Allowed t t
  | perform {u v : Traced Collector} {op : Op} {reply : Reply} {g r : Nat}
    (run : Chronicle Allowed t u) (allowed : Allowed u.state op)
    (done : Collector.perform op ⟨u.state.paced g r, u.events⟩ = .ok reply v) :
    Chronicle Allowed t v

namespace Chronicle

/-- **A run is a sequence of moves.** -/
theorem trail (run : Chronicle Op.LiveArgs t u) (h : t.state.Sound) : Trail t u := by
  induction run with
  | start => exact .refl t
  | @perform u v op reply g r _ allowed done ih =>
    have hpaced : (u.state.paced g r).Sound := (ih.sound h).paced g r
    have hargs : op.LiveArgs (u.state.paced g r) := allowed
    have hop : Trail ⟨u.state.paced g r, u.events⟩ v := (hpaced.perform_trail hargs).elim done
    have hpace : Trail u ⟨u.state.paced g r, u.events⟩ := .single (.pace rfl rfl)
    exact ih.trans (hpace.trans hop)

/-- A run whose events are put down is a run. -/
theorem exists_run (run : Chronicle Allowed t u) : ∃ past, Run Allowed t.state past u.state := by
  induction run with
  | start => exact ⟨[], .start⟩
  | perform _ allowed done ih =>
    obtain ⟨past, hrun⟩ := ih
    exact ⟨_, hrun.perform allowed done⟩

/-- What an operation leads to, with amounts of work of one's own choice. -/
def played (t : Traced Collector) (g r : Nat) (op : Op) : Traced Collector :=
  match Collector.perform op ⟨t.state.paced g r, t.events⟩ with
  | .ok _ u | .error _ u => u

/-- A run can be continued with every operation on live arguments. -/
theorem play (run : Chronicle Op.LiveArgs ⟨c, #[]⟩ u) (h : c.Sound) (g r : Nat) (op : Op)
    (hargs : op.LiveArgs u.state) : Chronicle Op.LiveArgs ⟨c, #[]⟩ (played u g r op) := by
  have hu : u.state.Sound := (run.trail h).sound h
  obtain ⟨reply, v, hdone, -⟩ :
      (Collector.perform op).Yields ⟨u.state.paced g r, u.events⟩ _ := (hu.paced g r).perform hargs
  have hplayed : played u g r op = v := by
    unfold played
    rw [hdone]
  rw [hplayed]
  exact run.perform hargs hdone

end Chronicle

end Collector

end ConsHeap
