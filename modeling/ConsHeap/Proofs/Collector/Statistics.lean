import ConsHeap.Proofs.Collector.Economy
import ConsHeap.Proofs.Collector.Shortage
import ConsHeap.Proofs.Collector.Trail

/-!
# The statistics balance

A pair is counted when it is allocated, when it is disposed of, and when its slot is recycled. In
between it is in use, and then it is free. So what was allocated is in use or was disposed of, and
what was disposed of is free or was recycled (`Collector.Balances`). A swap and a scan move pairs
from one of these states to the next one by one; a full cycle disposes of pairs and recycles them at
once, together with those that were free before.

* `Collector.Chronicle.statistics_balance` — these balances in every state of every run, with the
  pages, and with the steps, swaps and full cycles that were reported.
-/

namespace ConsHeap

namespace Generation

/-- A swap frees what has the plain `from` color. -/
theorem afterSwap_eq_free {g : Generation} {d : Color} :
    g.afterSwap d = .free ↔ d = .free ∨ d = g.fromColor := by
  cases g <;> cases d <;> decide

end Generation

namespace Collector

variable {c c' c₀ : Collector} {t u : Traced Collector} {id j : PairId} {x y : Slot}
  {target : Color} {kids : List PairId} {es : Array Event} {o : Options} {n : Nat}
  {f : PairId → Color → Color}

/-! ### Pairs in use, and free ones -/

/-- The number of pairs in use. -/
noncomputable def inUse (c : Collector) : Nat :=
  {j | c.IsLive j}.ncard

/-- A pair that was disposed of and waits to be recycled. -/
def IsFree (c : Collector) (j : PairId) : Prop :=
  ∃ x, c.look j = some x ∧ x.color = .free

theorem inUse_congr (h : ∀ j, c'.IsLive j ↔ c.IsLive j) : c'.inUse = c.inUse := by
  unfold inUse
  simp only [h]

/-- What is in use no more was taken out of use. -/
theorem inUse_add (h : ∀ j, c'.IsLive j → c.IsLive j) :
    c'.inUse + {j | c.IsLive j ∧ ¬c'.IsLive j}.ncard = c.inUse := by
  have hsub : {j | c'.IsLive j} ⊆ {j | c.IsLive j} := h
  have hsum := Set.ncard_sdiff_add_ncard_of_subset hsub
  exact (Nat.add_comm _ _).trans hsum

theorem Sound.count_free (h : c.Sound) : c.count .free = {j | c.IsFree j}.ncard :=
  h.count_eq_ncard

theorem Sound.free_congr (h : c.Sound) (h' : c'.Sound) (hfree : ∀ j, c'.IsFree j ↔ c.IsFree j) :
    c'.count .free = c.count .free := by
  rw [h'.count_free, h.count_free]
  simp only [hfree]

theorem isFree_of_repaints (hs : c.store.Repaints f c'.store) :
    c'.IsFree j ↔ ∃ x, c.look j = some x ∧ f j x.color = .free :=
  hs.exists_color (· = .free)

/-- With pages of one size, the number of slots says how many there are. -/
theorem Sound.pageCount_eq (h : c.Sound) (h' : c'.Sound) (hoptions : c'.options = c.options)
    (htotal : c'.totalSlots = c.totalSlots) :
    c'.store.arena.pageCount = c.store.arena.pageCount := by
  have hsize : c'.store.arena.pageSize = c.store.arena.pageSize := by
    rw [h'.pageSize_eq, h.pageSize_eq, hoptions]
  change c'.store.arena.pageCount * c'.store.arena.pageSize =
    c.store.arena.pageCount * c.store.arena.pageSize at htotal
  rw [hsize] at htotal
  exact Nat.eq_of_mul_eq_mul_right c.store.arena.pageSize_pos htotal

theorem Beat.pageCount_eq (hb : Beat c c') (h : c.Sound) :
    c'.store.arena.pageCount = c.store.arena.pageCount :=
  h.pageCount_eq (hb.sound h) hb.options_eq (hb.totalSlots_eq h)

/-! ### What becomes of them -/

theorem Scanned.inUse_eq (hs : c.Scanned id x target c') : c'.inUse = c.inUse :=
  inUse_congr fun _ => hs.isLive_iff

/-- A scan frees nothing: neither the scanned pair nor one that it greys. -/
theorem Scanned.free_eq (hs : c.Scanned id x target c') (h : c.Sound) :
    c'.count .free = c.count .free := by
  refine h.free_congr (hs.sound h) fun j => (isFree_of_repaints hs.store).trans ?_
  exact exists_congr fun z => and_congr_right fun hz => hs.afterScan_eq_iff hz rfl

theorem Swapped.inUse_add (hs : c.Swapped n c') (h : c.Sound) : c'.inUse + n = c.inUse := by
  rw [hs.count_eq h]
  refine Collector.inUse_add fun j hj => ?_
  obtain ⟨m, hm⟩ := isLive_iff.1 hj
  exact isLive_iff.2 ⟨m, (hs.trims h).old hm⟩

/-- **What a swap disposes of is free**, with what was free before. -/
theorem Swapped.free_add (hs : c.Swapped n c') (h : c.Sound) :
    c'.count .free = c.count .free + n := by
  have hn : n = {j | ∃ z, c.look j = some z ∧ z.color = c.generation.fromColor}.ncard := by
    rw [hs.count, ← count_of_ne_void Generation.fromColor_ne_void, h.count_eq_ncard]
  rw [hn, h.count_free, (hs.sound h).count_free]
  have hunion : {j | c'.IsFree j} =
      {j | c.IsFree j} ∪ {j | ∃ z, c.look j = some z ∧ z.color = c.generation.fromColor} := by
    ext j
    refine (isFree_of_repaints hs.store).trans ?_
    simp only [Generation.afterSwap_eq_free, and_or_left, exists_or]
    exact Iff.rfl
  rw [hunion]
  refine Set.ncard_union_eq (Set.disjoint_left.2 ?_)
  -- a pair is of one color
  rintro j ⟨z, hz, hfree⟩ ⟨w, hw, hfrom⟩
  obtain rfl := Option.some.inj (hz.symm.trans hw)
  rw [hfree] at hfrom
  exact absurd hfrom.symm (by cases c.generation <;> decide)

theorem Recycled.inUse_eq (hs : c.Recycled id x c') : c'.inUse = c.inUse :=
  inUse_congr fun _ => hs.isLive_iff

theorem Recycled.free_succ (hs : c.Recycled id x c') (h : c.Sound) :
    c'.count .free + 1 = c.count .free := by
  rw [h.count_free, (hs.sound h).count_free]
  have hdiff : {j | c'.IsFree j} = {j | c.IsFree j} \ {id} := by
    ext j
    show (∃ z, c'.look j = some z ∧ z.color = .free) ↔ c.IsFree j ∧ j ≠ id
    rw [hs.look_eq_ite]
    by_cases hj : j = id
    · rw [if_pos hj]
      refine iff_of_false ?_ fun hne => hne.2 hj
      rintro ⟨z, hz, hfree⟩
      obtain rfl := Option.some.inj hz
      exact absurd hfree nofun
    · rw [if_neg hj]
      exact ⟨fun hfree => ⟨hfree, hj⟩, And.left⟩
  rw [hdiff]
  exact Set.ncard_sdiff_singleton_add_one ⟨x, hs.look_eq, hs.color_eq⟩

theorem Cycled.inUse_add (hs : c.Cycled n c') (h : c.Sound) : c'.inUse + n = c.inUse := by
  rw [hs.count]
  simp only [← hs.isLive_iff h]
  refine Collector.inUse_add fun j hj => ?_
  exact h.isLive_of_reachable ((hs.isLive_iff h).1 hj)

/-- **A full cycle leaves no pair free.** -/
theorem Cycled.free_eq (hs : c.Cycled n c') (h : c.Sound) : c'.count .free = 0 := by
  rw [(hs.sound h).count_eq_zero_iff]
  intro j y hy hfree
  rcases hs.look_cases hy with ⟨hl, -⟩ | rfl
  · exact (Color.isLive_iff.1 hl).2 hfree
  · exact absurd hfree nofun

/-- An edit of a slot that is not free frees nothing, and recycles nothing. -/
theorem Edited.isFree_iff (he : c.Edited id y kids c') (hid : ¬c.IsFree id) :
    c'.IsFree j ↔ c.IsFree j := by
  constructor
  · rintro ⟨z, hz, hfree⟩
    obtain ⟨s, hs, hp⟩ := he.slots
    obtain ⟨w, hw, rfl⟩ := hp.look_inv hz
    have hcolor : w.color = .free := (Generation.shade_eq_iff rfl).1 hfree
    by_cases hj : j = id
    · -- what is written is in use
      rw [hj, hs.self] at hw
      obtain rfl := Option.some.inj hw
      exact absurd hcolor (Color.isLive_iff.1 he.live).2
    · cases hx : c.look j with
      | some x =>
        rw [hs.other hj hx] at hw
        obtain rfl := Option.some.inj hw
        exact ⟨_, hx, hcolor⟩
      | none =>
        -- the slots of a new page are blank
        rcases hs.fresh hj hx with hnone | hblank
        · exact absurd (hnone.symm.trans hw) (by simp)
        · obtain rfl := Option.some.inj (hblank.symm.trans hw)
          exact absurd hcolor nofun
  · rintro ⟨x, hx, hfree⟩
    have hj : j ≠ id := fun hj => hid ⟨x, hj ▸ hx, hfree⟩
    exact ⟨_, he.look_other hj hx, (Generation.shade_eq_iff rfl).2 hfree⟩

theorem Changed.inUse_eq (hs : Changed t id x y kids u) : u.state.inUse = t.state.inUse :=
  inUse_congr (hs.edited.live_iff hs.look_eq hs.live)

theorem Changed.free_eq (hs : Changed t id x y kids u) (h : t.state.Sound) :
    u.state.count .free = t.state.count .free := by
  refine h.free_congr (hs.edited.sound h) fun j => hs.edited.isFree_iff ?_
  rintro ⟨z, hz, hfree⟩
  obtain rfl := Option.some.inj (hs.look_eq.symm.trans hz)
  exact (Color.isLive_iff.1 hs.live).2 hfree

/-- Only a slot that did not exist needs a page. -/
theorem Changed.pageCount_eq (hs : Changed t id x y kids u) (h : t.state.Sound) :
    u.state.store.arena.pageCount = t.state.store.arena.pageCount := by
  refine h.pageCount_eq (hs.edited.sound h) hs.edited.options_eq ?_
  rcases hs.edited.totalSlots_cases with hsame | ⟨hnone, -⟩
  · exact hsame
  · exact absurd (hs.look_eq.symm.trans hnone) nofun

theorem Allocated.inUse_eq (hs : Allocated t id y kids u) :
    u.state.inUse = t.state.inUse + 1 := by
  have hinsert : {j | u.state.IsLive j} = insert id {j | t.state.IsLive j} := by
    ext j
    exact hs.edited.isLive_iff
  unfold inUse
  rw [hinsert]
  exact Set.ncard_insert_of_notMem hs.not_isLive

theorem Allocated.free_eq (hs : Allocated t id y kids u) (h : t.state.Sound) :
    u.state.count .free = t.state.count .free := by
  refine h.free_congr (hs.edited.sound h) fun j => hs.edited.isFree_iff ?_
  rintro ⟨z, hz, hfree⟩
  rw [hs.vacant z hz] at hfree
  exact absurd hfree nofun

/-! ### The balances -/

/-- What the statistics say of the slots and of the events. -/
structure Balances (t : Traced Collector) : Prop where
  allocated : t.state.stats.pairsAllocated = t.state.inUse + t.state.stats.pairsDisposed
  disposed : t.state.stats.pairsDisposed = t.state.count .free + t.state.stats.pairsRecycled
  pages : t.state.stats.pagesAllocated = t.state.store.arena.pageCount
  steps : t.state.stats.steps =
    t.state.stats.generationSwaps + (Event.pairs Event.scanned? t.events).length
  swaps : t.state.stats.generationSwaps = t.events.countP Event.isSwap
  cycles : t.state.stats.fullCycles = t.events.countP Event.isCycle

namespace Balances

variable (h : Balances t)

include h

/-- Where nothing is counted, nothing has changed that is counted. -/
theorem quiet (hstats : u.state.stats = t.state.stats) (hlive : u.state.inUse = t.state.inUse)
    (hfree : u.state.count .free = t.state.count .free)
    (hpages : u.state.store.arena.pageCount = t.state.store.arena.pageCount)
    (hscanned : Event.pairs Event.scanned? u.events = Event.pairs Event.scanned? t.events)
    (hswaps : u.events.countP Event.isSwap = t.events.countP Event.isSwap)
    (hcycles : u.events.countP Event.isCycle = t.events.countP Event.isCycle) : Balances u := by
  -- both sides of each balance are as they were
  constructor
  case allocated =>
    rw [hstats, hlive]
    exact h.allocated
  case disposed =>
    rw [hstats, hfree]
    exact h.disposed
  case pages =>
    rw [hstats, hpages]
    exact h.pages
  case steps =>
    rw [hstats, hscanned]
    exact h.steps
  case swaps =>
    rw [hstats, hswaps]
    exact h.swaps
  case cycles =>
    rw [hstats, hcycles]
    exact h.cycles

theorem scan (hs : t.state.Scanned id x target u.state)
    (events : u.events = t.events.push (.scanned id x.color target)) (hsound : t.state.Sound) :
    Balances u := by
  have hstats : u.state.stats = { t.state.stats with steps := t.state.stats.steps + 1 } := by
    rw [hs.frame]
  have hsteps := h.steps
  -- a scan moves pairs between classes of pairs in use, so only the steps and the scans change
  constructor
  case allocated =>
    rw [hstats, hs.inUse_eq]
    exact h.allocated
  case disposed =>
    rw [hstats, hs.free_eq hsound]
    exact h.disposed
  case pages =>
    rw [hstats, (Beat.scan hs).pageCount_eq hsound]
    exact h.pages
  case steps =>
    rw [hstats, events, Event.pairs_push_some rfl, List.length_append, List.length_singleton]
    show t.state.stats.steps + 1 = t.state.stats.generationSwaps + _
    omega
  case swaps =>
    rw [hstats, events, Array.countP_push_of_neg Bool.false_ne_true]
    exact h.swaps
  case cycles =>
    rw [hstats, events, Array.countP_push_of_neg Bool.false_ne_true]
    exact h.cycles

theorem swap (hs : t.state.Swapped n u.state)
    (events : u.events = t.events.push (.swapped n t.state.generation.flip.fromColor))
    (hsound : t.state.Sound) : Balances u := by
  have hstats : u.state.stats = { t.state.stats with
      steps := t.state.stats.steps + 1
      generationSwaps := t.state.stats.generationSwaps + 1
      pairsDisposed := t.state.stats.pairsDisposed + n } := by
    rw [hs.frame]
  have hlive := hs.inUse_add hsound
  have hallocated := h.allocated
  have hdisposed := h.disposed
  have hsteps := h.steps
  -- the `n` pairs that are in use no more are the ones that are free now
  constructor
  case allocated =>
    rw [hstats]
    show t.state.stats.pairsAllocated = u.state.inUse + (t.state.stats.pairsDisposed + n)
    omega
  case disposed =>
    rw [hstats, hs.free_add hsound]
    show t.state.stats.pairsDisposed + n = _ + n + t.state.stats.pairsRecycled
    omega
  case pages =>
    rw [hstats, (Beat.swap hs).pageCount_eq hsound]
    exact h.pages
  case steps =>
    rw [hstats, events, Event.pairs_push_none rfl]
    -- a swap is a step that scans nothing
    show t.state.stats.steps + 1 = t.state.stats.generationSwaps + 1 + _
    omega
  case swaps =>
    rw [hstats, events, Array.countP_push_of_pos rfl]
    exact congrArg (· + 1) h.swaps
  case cycles =>
    rw [hstats, events, Array.countP_push_of_neg Bool.false_ne_true]
    exact h.cycles

theorem recycle (hs : t.state.Recycled id x u.state)
    (events : u.events = t.events.push (.recycled id)) (hsound : t.state.Sound) :
    Balances u := by
  have hstats : u.state.stats = { t.state.stats with
      pairsRecycled := t.state.stats.pairsRecycled + 1 } := by
    rw [hs.frame]
  have hfree := hs.free_succ hsound
  have hdisposed := h.disposed
  -- one pair less is free, and one more was recycled
  constructor
  case allocated =>
    rw [hstats, hs.inUse_eq]
    exact h.allocated
  case disposed =>
    rw [hstats]
    -- the pair was counted as disposed of when it became free
    show t.state.stats.pairsDisposed = _ + (t.state.stats.pairsRecycled + 1)
    omega
  case pages =>
    rw [hstats, (Beat.recycle hs).pageCount_eq hsound]
    exact h.pages
  case steps =>
    rw [hstats, events, Event.pairs_push_none rfl]
    exact h.steps
  case swaps =>
    rw [hstats, events, Array.countP_push_of_neg Bool.false_ne_true]
    exact h.swaps
  case cycles =>
    rw [hstats, events, Array.countP_push_of_neg Bool.false_ne_true]
    exact h.cycles

theorem allocate (hs : Allocated t id y kids u) (hsound : t.state.Sound) : Balances u := by
  have hallocated := h.allocated
  -- the slot was neither in use nor free; the pages are counted anew
  constructor
  case allocated =>
    rw [hs.stats_eq, hs.inUse_eq]
    show t.state.stats.pairsAllocated + 1 = _ + 1 + t.state.stats.pairsDisposed
    omega
  case disposed =>
    rw [hs.stats_eq, hs.free_eq hsound]
    exact h.disposed
  case pages =>
    rw [hs.stats_eq]
  case steps =>
    rw [hs.stats_eq, hs.events_eq, Event.pairs_push_none rfl]
    exact h.steps
  case swaps =>
    rw [hs.stats_eq, hs.events_eq, Array.countP_push_of_neg Bool.false_ne_true]
    exact h.swaps
  case cycles =>
    rw [hs.stats_eq, hs.events_eq, Array.countP_push_of_neg Bool.false_ne_true]
    exact h.cycles

/-- A full cycle recycles what it disposes of, and what was disposed of before. -/
theorem cycle {kept returned : Nat} (hs : t.state.Cycled n u.state)
    (events : u.events = t.events.push (.fullCycle kept n returned)) (hsound : t.state.Sound) :
    Balances u := by
  have hstats : u.state.stats = { t.state.stats with
      fullCycles := t.state.stats.fullCycles + 1
      pairsDisposed := t.state.stats.pairsDisposed + n
      pairsRecycled := t.state.stats.pairsRecycled + (n + t.state.count .free) } := by
    rw [hs.frame]
  have hlive := hs.inUse_add hsound
  have hallocated := h.allocated
  have hdisposed := h.disposed
  -- no pair is left free, so all that were disposed of up to now have been recycled
  constructor
  case allocated =>
    rw [hstats]
    -- the pairs that a cycle finds dead leave the pairs in use
    show t.state.stats.pairsAllocated = u.state.inUse + (t.state.stats.pairsDisposed + n)
    omega
  case disposed =>
    rw [hstats, hs.free_eq hsound]
    show t.state.stats.pairsDisposed + n = 0 + (t.state.stats.pairsRecycled + (n + _))
    omega
  case pages =>
    rw [hstats, (Beat.cycle hs).pageCount_eq hsound]
    exact h.pages
  case steps =>
    rw [hstats, events, Event.pairs_push_none rfl]
    exact h.steps
  case swaps =>
    rw [hstats, events, Array.countP_push_of_neg Bool.false_ne_true]
    exact h.swaps
  case cycles =>
    rw [hstats, events, Array.countP_push_of_pos rfl]
    exact congrArg (· + 1) h.cycles

end Balances

/-- **Every move keeps the balances.** -/
theorem Move.balances (hm : Move t u) (hsound : t.state.Sound) (h : Balances t) : Balances u := by
  cases hm with
  | tick ht =>
    cases ht with
    | scan hs events => exact h.scan hs events hsound
    | swap hs events => exact h.swap hs events hsound
    | recycle hs events => exact h.recycle hs events hsound
    | count state events =>
      -- references are not part of the statistics
      refine h.quiet (by rw [state]) ?_ ?_ (by rw [state]) (by rw [events]) (by rw [events])
        (by rw [events])
      · rw [state]
        rfl
      · rw [state]
        rfl
    | page isPaging state events =>
      -- pages are reported here, but counted when the allocation is
      obtain ⟨hscanned, -, hswap, hcycle⟩ := Event.kinds_of_isPaging isPaging
      refine h.quiet (by rw [state]) (by rw [state]) (by rw [state]) (by rw [state]) ?_ ?_ ?_
      · rw [events, Event.pairs_push_none hscanned]
      · rw [events, Array.countP_push_of_neg (Bool.eq_false_iff.1 hswap)]
      · rw [events, Array.countP_push_of_neg (Bool.eq_false_iff.1 hcycle)]
  | change hs =>
    -- a pair in use stays in use, and the others are as they were
    exact h.quiet hs.stats_eq hs.inUse_eq (hs.free_eq hsound) (hs.pageCount_eq hsound)
      (by rw [hs.events_eq]) (by rw [hs.events_eq]) (by rw [hs.events_eq])
  | allocate hs => exact h.allocate hs hsound
  | cycle hs events => exact h.cycle hs events hsound
  | pace state events =>
    -- what an event pays for is an option
    refine h.quiet ?_ ?_ ?_ ?_ (by rw [events]) (by rw [events]) (by rw [events])
    all_goals
      rw [state]
      rfl

/-- A collector that was just made has counted nothing, and there is nothing to count. -/
theorem Balances.create (created : Collector.create o = .ok c) : Balances ⟨c, #[]⟩ := by
  have hsound : c.Sound := .create created
  -- there are no slots, and so no pairs in use or free
  have hlive : c.inUse = 0 := by
    have hempty : {j | c.IsLive j} = ∅ :=
      Set.eq_empty_of_forall_notMem (not_isLive_of_create created)
    unfold inUse
    rw [hempty, Set.ncard_empty]
  have hfree : c.count .free = 0 :=
    hsound.count_eq_zero_iff.2 fun j x hx =>
      absurd ((look_of_create created j).symm.trans hx) (by simp)
  have hstats : c.stats = {} ∧ c.store.arena.pageCount = 0 := by
    unfold Collector.create at created
    split at created
    · exact absurd created nofun
    · obtain rfl := Except.ok.inj created
      exact ⟨rfl, rfl⟩
  -- so both sides of each balance are zero
  constructor
  case allocated =>
    show c.stats.pairsAllocated = c.inUse + c.stats.pairsDisposed
    rw [hstats.1, hlive]
    rfl
  case disposed =>
    show c.stats.pairsDisposed = c.count .free + c.stats.pairsRecycled
    rw [hstats.1, hfree]
    rfl
  case pages =>
    show c.stats.pagesAllocated = c.store.arena.pageCount
    rw [hstats.1, hstats.2]
  case steps =>
    show c.stats.steps = c.stats.generationSwaps + 0
    rw [hstats.1]
  case swaps =>
    show c.stats.generationSwaps = 0
    rw [hstats.1]
  case cycles =>
    show c.stats.fullCycles = 0
    rw [hstats.1]

/-- **The statistics balance**, in every state that operations on live arguments lead to from a
collector that was just made. All pairs that were ever allocated are in use or were disposed of, and
of those disposed of all are free or were recycled. An allocation that fails is not counted, but the
pages always are. A step is a swap or a scan, and the swaps and full cycles are those reported. -/
theorem Chronicle.statistics_balance (created : Collector.create o = .ok c₀)
    (run : Chronicle Op.LiveArgs ⟨c₀, #[]⟩ ⟨c, es⟩) :
    c.stats.pairsAllocated = {j | c.IsLive j}.ncard + c.stats.pairsDisposed ∧
    c.stats.pairsDisposed = c.count .free + c.stats.pairsRecycled ∧
    c.stats.pagesAllocated = c.store.arena.pageCount ∧
    c.stats.steps = c.stats.generationSwaps + (Event.pairs Event.scanned? es).length ∧
    c.stats.generationSwaps = es.countP Event.isSwap ∧
    c.stats.fullCycles = es.countP Event.isCycle := by
  have h₀ : c₀.Sound := .create created
  have h : Balances ⟨c, es⟩ :=
    (run.trail h₀).keeps h₀ (fun hm hsound => hm.balances hsound) (.create created)
  exact ⟨h.allocated, h.disposed, h.pages, h.steps, h.swaps, h.cycles⟩

/-- The only slot is taken, scanned and asked for again, which fails. The pair is given up and
disposed of by the second of two swaps. Its slot is recycled for another pair, and a full cycle
finds nothing to do. -/
theorem statistics_balance_single : ∃ c es, Chronicle Op.LiveArgs ⟨single, #[]⟩ ⟨c, es⟩ ∧
    c.stats = {
      pagesAllocated := 1
      pairsAllocated := 2
      steps := 3
      generationSwaps := 2
      fullCycles := 1
      pairsDisposed := 1
      pairsRecycled := 1 } ∧
    c.stats.pairsAllocated = {j | c.IsLive j}.ncard + c.stats.pairsDisposed ∧
    c.stats.pairsDisposed = c.count .free + c.stats.pairsRecycled ∧
    c.stats.pagesAllocated = c.store.arena.pageCount ∧
    c.stats.steps = c.stats.generationSwaps + (Event.pairs Event.scanned? es).length ∧
    c.stats.generationSwaps = es.countP Event.isSwap ∧
    c.stats.fullCycles = es.countP Event.isCycle := by
  have created : Collector.create { pageSize := 1, maxPages := some 1 } = .ok single := rfl
  have h : single.Sound := .create created
  have made := Chronicle.start.play h 1 0 (.make .nil .nil) (by decide +kernel)
  have failed := made.play h 0 0 (.make .nil .nil) (by decide +kernel)
  have unrooted := failed.play h 0 0 (.unroot ⟨0⟩) (by decide +kernel)
  have first := unrooted.play h 0 0 .finish trivial
  have second := first.play h 0 0 .finish trivial
  have made' := second.play h 0 1 (.make .nil .nil) (by decide +kernel)
  have cycled := made'.play h 0 0 .cycle trivial
  exact ⟨_, _, cycled, by decide +kernel, Chronicle.statistics_balance created cycled⟩

end Collector

end ConsHeap
