import ConsHeap.Proofs.Collector.Economy
import ConsHeap.Proofs.Collector.Trail

/-!
# Marking makes progress

Between two swaps marking goes one way. A pair of the `from` generation may become grey, a grey one
may be scanned, and nothing goes back, whatever the program does in the meantime
(`Collector.Advances`). So the pairs in use that were not scanned yet can be counted: a scan makes
them one less, an allocation makes them one more, and nothing else matters (`Collector.Progress`).

* `Collector.Run.marking_progresses` — the balance of scans and allocations along every run without
  a swap, and the exact number of steps that finishing a generation takes.
-/

namespace ConsHeap

/-- When no pair is grey or waits as a root, the pairs that wait are those with the plain `from`
color. -/
theorem Generation.waits_iff {g : Generation} {color : Color} (hroot : color ≠ g.fromRoot)
    (hgreyRoot : color ≠ .greyRoot) (hgrey : color ≠ .grey) :
    color.isLive = true ∧ ¬g.isTo color = true ↔ color = g.fromColor := by
  revert hroot hgreyRoot hgrey
  cases g <;> cases color <;> decide

/-- A scan moves no other pair back to the `from` generation. -/
theorem Generation.isFrom_afterScan {g : Generation} {target d : Color} {id j : PairId}
    {kids : List PairId} (htarget : g.isTo target = true)
    (hfrom : g.isFrom (g.afterScan target id kids j d) = true) : g.isFrom d = true := by
  unfold afterScan at hfrom
  split at hfrom
  · rw [isFrom_greyed] at hfrom
    exact absurd hfrom Bool.false_ne_true
  · split at hfrom
    · rw [isFrom_eq_false_of_isTo htarget] at hfrom
      exact absurd hfrom Bool.false_ne_true
    · exact hfrom

namespace Collector

variable {c c' c'' c₀ : Collector} {t u : Traced Collector} {id j : PairId} {x y : Slot}
  {target : Color} {kids : List PairId} {es : Array Event} {past : List Collector} {o : Options}
  {n : Nat}

/-! ### Pairs that wait to be scanned -/

/-- A pair in use that the current generation has not scanned. -/
def IsPending (c : Collector) (j : PairId) : Prop :=
  c.IsLive j ∧ ¬c.IsScanned j

/-- The number of pairs in use that the current generation has not scanned. -/
noncomputable def pending (c : Collector) : Nat :=
  {j | c.IsPending j}.ncard

theorem pending_congr (h : ∀ j, c'.IsPending j ↔ c.IsPending j) : c'.pending = c.pending := by
  unfold pending
  simp only [h]

theorem Scanned.isPending (hs : c.Scanned id x target c') : c.IsPending id := by
  obtain ⟨hlive, -⟩ := of_mem_scanOrder hs.order
  exact ⟨⟨x, hs.look_eq, hlive⟩, hs.not_isScanned⟩

/-- **A scan takes one pair from those that wait.** -/
theorem Scanned.pending_succ (hs : c.Scanned id x target c') : c'.pending + 1 = c.pending := by
  -- the scanned pair was in use and still is, so only its being scanned has changed
  have hdiff : {j | c'.IsPending j} = {j | c.IsPending j} \ {id} := by
    ext j
    show (c'.IsLive j ∧ ¬c'.IsScanned j) ↔ (c.IsLive j ∧ ¬c.IsScanned j) ∧ j ≠ id
    rw [hs.isLive_iff, hs.isScanned_iff, not_or]
    tauto
  show {j | c'.IsPending j}.ncard + 1 = {j | c.IsPending j}.ncard
  rw [hdiff]
  exact Set.ncard_sdiff_singleton_add_one hs.isPending

/-- A recycled slot was not in use. -/
theorem Recycled.isScanned_iff (hs : c.Recycled id x c') : c'.IsScanned j ↔ c.IsScanned j := by
  have hgen : c'.generation = c.generation := by rw [hs.frame]
  unfold IsScanned
  rw [hgen]
  constructor
  · rintro ⟨y, hy, hto⟩
    exact ⟨y, hs.look_of_ne_void hy (Color.ne_void_of_isLive (Generation.isLive_of_isTo hto)), hto⟩
  · rintro ⟨y, hy, hto⟩
    exact ⟨y, hs.look_of_isLive hy (Generation.isLive_of_isTo hto), hto⟩

theorem Recycled.pending_eq (hs : c.Recycled id x c') : c'.pending = c.pending :=
  pending_congr fun _ => and_congr hs.isLive_iff (not_congr hs.isScanned_iff)

/-- A pair in use that is overwritten and stays in its generation is scanned as before. -/
theorem Changed.pending_eq (hs : Changed t id x y kids u) :
    u.state.pending = t.state.pending := by
  have hscanned : t.state.generation.isTo y.color = true ↔ t.state.IsScanned id := by
    rw [isScanned_iff_of_look hs.look_eq, hs.isTo_eq]
  exact pending_congr fun j => and_congr (hs.edited.live_iff hs.look_eq hs.live j)
    (not_congr (hs.edited.isScanned_iff hscanned))

/-- **An allocation adds one pair to those that wait.** -/
theorem Allocated.pending_eq (hs : Allocated t id y kids u) :
    u.state.pending = t.state.pending + 1 := by
  have hnot : ¬t.state.IsScanned id := by
    rintro ⟨x, hx, hto⟩
    exact hs.not_isLive ⟨x, hx, Generation.isLive_of_isTo hto⟩
  -- a pair starts in the `from` generation, so the edit has scanned nothing
  have hscanned : ∀ j, u.state.IsScanned j ↔ t.state.IsScanned j := by
    intro j
    refine hs.edited.isScanned_iff (iff_of_false ?_ hnot)
    rw [hs.color_eq, Generation.isTo_fromRoot]
    exact Bool.false_ne_true
  have hinsert : {j | u.state.IsPending j} = insert id {j | t.state.IsPending j} := by
    ext j
    show (u.state.IsLive j ∧ ¬u.state.IsScanned j) ↔
      j = id ∨ (t.state.IsLive j ∧ ¬t.state.IsScanned j)
    rw [hs.edited.isLive_iff, hscanned]
    constructor
    · rintro ⟨rfl | hj, hwaits⟩
      · exact .inl rfl
      · exact .inr ⟨hj, hwaits⟩
    · rintro (rfl | hj)
      · exact ⟨.inl rfl, hnot⟩
      · exact ⟨.inr hj.1, hj.2⟩
  show {j | u.state.IsPending j}.ncard = {j | t.state.IsPending j}.ncard + 1
  rw [hinsert]
  exact Set.ncard_insert_of_notMem fun hid => hs.not_isLive hid.1

/-! ### No way back -/

/-- The generation is the same, and of the pairs that were in use none was lost, no scanned one has
become unscanned, and no grey one has gone back to the `from` generation. -/
structure Advances (c c' : Collector) : Prop where
  generation_eq : c'.generation = c.generation
  kept : ∀ {j x}, c.look j = some x → x.color.isLive = true →
    ∃ y, c'.look j = some y ∧ y.color.isLive = true ∧
      (c.generation.isTo x.color = true → c.generation.isTo y.color = true) ∧
      (c.generation.isFrom y.color = true → c.generation.isFrom x.color = true)

namespace Advances

theorem refl (c : Collector) : c.Advances c :=
  ⟨rfl, fun hx hl => ⟨_, hx, hl, id, id⟩⟩

theorem trans (h : c.Advances c') (h' : c'.Advances c'') : c.Advances c'' where
  generation_eq := h'.generation_eq.trans h.generation_eq
  kept := by
    intro j x hx hl
    obtain ⟨y, hy, hyl, hto, hfrom⟩ := h.kept hx hl
    obtain ⟨z, hz, hzl, hto', hfrom'⟩ := h'.kept hy hyl
    rw [h.generation_eq] at hto' hfrom'
    exact ⟨z, hz, hzl, hto' ∘ hto, hfrom ∘ hfrom'⟩

/-- What was scanned is scanned. -/
theorem isScanned (h : c.Advances c') (hj : c.IsScanned j) : c'.IsScanned j := by
  obtain ⟨x, hx, hto⟩ := hj
  obtain ⟨y, hy, -, hyto, -⟩ := h.kept hx (Generation.isLive_of_isTo hto)
  exact ⟨y, hy, h.generation_eq ▸ hyto hto⟩

end Advances

theorem Scanned.advances (hs : c.Scanned id x target c') : c.Advances c' where
  generation_eq := hs.generation_eq
  kept := by
    intro j z hz hl
    obtain ⟨-, -, htarget, -, -⟩ := of_mem_scanOrder hs.order
    exact ⟨_, hs.store.look_of hz, (hs.afterScan_spec hz).2.trans hl,
      fun hto => (Generation.isTo_afterScan htarget).2 (.inr hto),
      fun hfrom => Generation.isFrom_afterScan htarget hfrom⟩

theorem Recycled.advances (hs : c.Recycled id x c') : c.Advances c' where
  generation_eq := by rw [hs.frame]
  kept := fun hz hl => ⟨_, hs.look_of_isLive hz hl, hl, fun hto => hto, fun hfrom => hfrom⟩

/-- An edit that leaves a scanned pair scanned takes nothing back: what it greys was not grey. -/
theorem Edited.advances (he : c.Edited id y kids c')
    (hto : ∀ x, c.look id = some x → c.generation.isTo x.color = true →
      c.generation.isTo y.color = true) : c.Advances c' where
  generation_eq := he.generation_eq
  kept := by
    intro j x hx hl
    by_cases hj : j = id
    · -- here the slot is another one, and what is asked of its color is given
      subst hj
      exact ⟨_, he.look_self, Generation.isLive_shade.trans he.live,
        fun hxto => Generation.isTo_shade.trans (hto x hx hxto),
        fun hfrom => (he.isFrom_of_isFrom he.look_self hx hl hfrom).2⟩
    · exact ⟨_, he.look_other hj hx, Generation.isLive_shade.trans hl,
        fun hxto => Generation.isTo_shade.trans hxto,
        fun hfrom => (Generation.isFrom_shade.1 hfrom).2⟩

theorem Changed.advances (hs : Changed t id x y kids u) : t.state.Advances u.state := by
  refine hs.edited.advances fun z hz hto => ?_
  obtain rfl := Option.some.inj (hs.look_eq.symm.trans hz)
  exact hs.isTo_eq.trans hto

theorem Allocated.advances (hs : Allocated t id y kids u) : t.state.Advances u.state :=
  hs.edited.advances fun z hz hto =>
    absurd ⟨z, hz, Generation.isLive_of_isTo hto⟩ hs.not_isLive

/-! ### The balance of scans and allocations -/

/-- No generation has ended since events were put down. -/
def WithinGeneration (es : Array Event) : Prop :=
  ∀ e ∈ es, e.isSwap = false ∧ e.isCycle = false

/-- How far marking has come since the state was `c` and no events were put down. -/
structure Progress (c : Collector) (t : Traced Collector) : Prop where
  advances : c.Advances t.state
  balance : t.state.pending + (Event.pairs Event.scanned? t.events).length =
    c.pending + (Event.pairs Event.allocated? t.events).length
  nodup : (Event.pairs Event.scanned? t.events).Nodup
  scanned : ∀ j ∈ Event.pairs Event.scanned? t.events, t.state.IsScanned j

theorem Progress.start (c : Collector) : c.Progress ⟨c, #[]⟩ where
  advances := .refl c
  balance := rfl
  nodup := List.nodup_nil
  scanned := fun _ hj => absurd hj List.not_mem_nil

/-- A move that neither scans nor allocates. -/
theorem Progress.still (h : c.Progress t) (hadvances : t.state.Advances u.state)
    (hpending : u.state.pending = t.state.pending)
    (hscanned : Event.pairs Event.scanned? u.events = Event.pairs Event.scanned? t.events)
    (hallocated : Event.pairs Event.allocated? u.events = Event.pairs Event.allocated? t.events) :
    c.Progress u where
  advances := h.advances.trans hadvances
  balance := by
    rw [hpending, hscanned, hallocated]
    exact h.balance
  nodup := hscanned ▸ h.nodup
  scanned := fun j hj => hadvances.isScanned (h.scanned j (hscanned ▸ hj))

/-- One more scan. The pair was not scanned before, so it is none of those reported. -/
theorem Progress.scan (h : c.Progress t) (hs : t.state.Scanned id x target u.state)
    (events : u.events = t.events.push (.scanned id x.color target)) : c.Progress u := by
  have hpairs : Event.pairs Event.scanned? u.events =
      Event.pairs Event.scanned? t.events ++ [id] := by
    rw [events]
    exact Event.pairs_push_some rfl
  have hallocated : Event.pairs Event.allocated? u.events =
      Event.pairs Event.allocated? t.events := by
    rw [events]
    exact Event.pairs_push_none rfl
  constructor
  case advances => exact h.advances.trans hs.advances
  case balance =>
    have hbalance := h.balance
    have hpending := hs.pending_succ
    rw [hpairs, hallocated, List.length_append, List.length_singleton]
    omega
  case nodup =>
    rw [hpairs]
    refine List.nodup_append'.2 ⟨h.nodup, List.nodup_singleton id, ?_⟩
    rw [List.disjoint_singleton]
    exact fun hid => hs.isPending.2 (h.scanned id hid)
  case scanned =>
    -- the pair scanned last, or one of those before it
    intro j hj
    rw [hpairs, List.mem_append, List.mem_singleton] at hj
    rw [hs.isScanned_iff]
    exact hj.symm.imp_right (h.scanned j)

/-- One more allocation. -/
theorem Progress.allocate (h : c.Progress t) (hs : Allocated t id y kids u) : c.Progress u := by
  have hpairs : Event.pairs Event.allocated? u.events =
      Event.pairs Event.allocated? t.events ++ [id] := by
    rw [hs.events_eq]
    exact Event.pairs_push_some rfl
  have hscanned : Event.pairs Event.scanned? u.events = Event.pairs Event.scanned? t.events := by
    rw [hs.events_eq]
    exact Event.pairs_push_none rfl
  constructor
  case advances => exact h.advances.trans hs.advances
  case balance =>
    rw [hpairs, hscanned, hs.pending_eq, List.length_append, List.length_singleton]
    have hbalance := h.balance
    omega
  case nodup => exact hscanned ▸ h.nodup
  case scanned => exact fun j hj => hs.advances.isScanned (h.scanned j (hscanned ▸ hj))

/-- A move that leaves the pairs and the generation as they are. -/
theorem Progress.idle (h : c.Progress t) (hlook : u.state.look = t.state.look)
    (hgeneration : u.state.generation = t.state.generation)
    (hscanned : Event.pairs Event.scanned? u.events = Event.pairs Event.scanned? t.events)
    (hallocated : Event.pairs Event.allocated? u.events = Event.pairs Event.allocated? t.events) :
    c.Progress u := by
  refine h.still ⟨hgeneration, fun hx hl => ?_⟩ ?_ hscanned hallocated
  · exact ⟨_, (congrFun hlook _).trans hx, hl, fun hto => hto, fun hfrom => hfrom⟩
  · refine pending_congr fun j => ?_
    unfold IsPending IsLive IsScanned
    rw [hlook, hgeneration]

/-- **A move within a generation keeps the balance.** -/
theorem Move.progress (hm : Move t u) (hwithin : WithinGeneration u.events) (h : c.Progress t) :
    c.Progress u := by
  -- the last event of a move that ends a generation says so
  have hlast : ∀ {e : Event}, u.events = t.events.push e → e.isSwap = false ∧ e.isCycle = false :=
    fun events => hwithin _ (events ▸ Array.mem_push_self)
  cases hm with
  | tick ht =>
    cases ht with
    | scan hs events => exact h.scan hs events
    | swap _ events => exact absurd (hlast events).1 nofun
    | recycle hs events =>
      -- the slot was neither in use nor waiting
      refine h.still hs.advances hs.pending_eq ?_ ?_
      · rw [events, Event.pairs_push_none rfl]
      · rw [events, Event.pairs_push_none rfl]
    | count state events =>
      -- colors do not depend on references
      refine h.idle ?_ ?_ (by rw [events]) (by rw [events])
      · rw [state]; rfl
      · rw [state]
    | page isPaging state events =>
      obtain ⟨hscanned, hallocated, -⟩ := Event.kinds_of_isPaging isPaging
      refine h.idle (by rw [state]) (by rw [state]) ?_ ?_
      · rw [events, Event.pairs_push_none hscanned]
      · rw [events, Event.pairs_push_none hallocated]
  | change hs =>
    exact h.still hs.advances hs.pending_eq (by rw [hs.events_eq]) (by rw [hs.events_eq])
  | allocate hs => exact h.allocate hs
  | cycle _ events => exact absurd (hlast events).2 nofun
  | pace state events =>
    refine h.idle ?_ ?_ (by rw [events]) (by rw [events])
    · rw [state]; rfl
    · rw [state]; rfl

theorem Trail.progress (ht : Trail t u) (hwithin : WithinGeneration u.events)
    (h : c.Progress t) : c.Progress u := by
  induction ht with
  | refl => exact h
  | tail _ hm ih => exact hm.progress hwithin (ih fun e he => hwithin e (hm.mem_events he))

/-! ### The end of a generation -/

/-- Some steps of marking, without a swap: each of them has scanned one of the pairs that wait. -/
def Marches (c c' : Collector) : Prop :=
  ∃ k, c'.stats.steps = c.stats.steps + k ∧ c'.pending + k = c.pending

theorem Scanned.marches (hs : c'.Scanned id x target c'') (h : c.Marches c') : c.Marches c'' := by
  obtain ⟨k, hsteps, hpending⟩ := h
  have hscan := hs.pending_succ
  refine ⟨k + 1, ?_, by omega⟩
  rw [hs.frame]
  show c'.stats.steps + 1 = c.stats.steps + (k + 1)
  omega

/-- What is left to be scanned when a generation ends is disposed of. -/
theorem Swapped.pending_eq {c' : Collector} (hs : c.Swapped n c') (h : c.Sound) :
    c.pending = n := by
  rw [hs.count, ← count_of_ne_void Generation.fromColor_ne_void, h.count_eq_ncard]
  unfold pending
  congr 1
  ext j
  -- when a generation ends, no pair is grey or waits as a root
  constructor
  · rintro ⟨⟨x, hx, hl⟩, hwaits⟩
    obtain ⟨hroot, hgreyRoot, hgrey⟩ := hs.scanned hx
    refine ⟨x, hx, (Generation.waits_iff hroot hgreyRoot hgrey).1 ⟨hl, fun hto => ?_⟩⟩
    exact hwaits ⟨x, hx, hto⟩
  · rintro ⟨x, hx, hfrom⟩
    obtain ⟨hroot, hgreyRoot, hgrey⟩ := hs.scanned hx
    obtain ⟨hl, hwaits⟩ := (Generation.waits_iff hroot hgreyRoot hgrey).2 hfrom
    rw [← isScanned_iff_of_look hx] at hwaits
    exact ⟨⟨x, hx, hl⟩, hwaits⟩

/-- **A generation is finished in as many steps as there are pairs to scan**, and one more. -/
theorem Sound.finish_steps (h : c.Sound) : Collector.finish.Yields ⟨c, es⟩ fun n u =>
    n ≤ c.pending ∧ u.state.stats.steps = c.stats.steps + (c.pending - n) + 1 := by
  refine finish_yields (I := fun t => c.Marches t.state) (fun t ht hmarch => ?_) h
    ⟨0, rfl, rfl⟩
  refine ht.step.mono fun r u hu => ?_
  cases r with
  | scanned id =>
    -- one step more, and one pair less that waits
    obtain ⟨x, target, hs, -⟩ := hu
    exact ⟨hs.sound ht, hs.marches hmarch⟩
  | swapped n =>
    -- the scans so far have taken all from those that wait but the `n` pairs disposed of
    obtain ⟨hs, -⟩ := hu
    obtain ⟨k, hsteps, hpending⟩ := hmarch
    have hleft := hs.pending_eq ht
    have hswap : u.state.stats.steps = t.state.stats.steps + 1 := by rw [hs.frame]
    exact ⟨by omega, by omega⟩

/-- **Marking makes progress.** Take any state reached by operations on live arguments. However the
program goes on from there without a swap and without a full cycle: the pairs in use that were not
scanned yet have become fewer by the scans and more by the allocations that were reported; no pair
is scanned twice; and each pair in use has stayed in use, scanned if it was scanned, and not of the
`from` generation unless it was. So the generation can be finished, and this takes a step for each
pair that waits and is not disposed of in the end, and one for the swap. -/
theorem Run.marking_progresses (created : Collector.create o = .ok c₀)
    (run : Run Op.LiveArgs c₀ past c) :
    (∀ d es, Chronicle Op.LiveArgs ⟨c, #[]⟩ ⟨d, es⟩ → WithinGeneration es →
      d.pending + (Event.pairs Event.scanned? es).length =
        c.pending + (Event.pairs Event.allocated? es).length ∧
      (Event.pairs Event.scanned? es).Nodup ∧
      d.generation = c.generation ∧
      ∀ j x, c.slot j = .ok x → x.color.isLive = true →
        ∃ y, d.slot j = .ok y ∧ y.color.isLive = true ∧
          (c.generation.isTo x.color = true → c.generation.isTo y.color = true) ∧
          (c.generation.isFrom y.color = true → c.generation.isFrom x.color = true)) ∧
    ∀ es, Collector.finish.Yields ⟨c, es⟩ fun n u =>
      n ≤ c.pending ∧ u.state.stats.steps = c.stats.steps + (c.pending - n) + 1 := by
  have h : c.Sound := run.sound (.create created) fun _ _ hargs => hargs
  refine ⟨fun d es hd hwithin => ?_, fun es => h.finish_steps⟩
  have hprogress : c.Progress ⟨d, es⟩ := (hd.trail h).progress hwithin (.start c)
  refine ⟨hprogress.balance, hprogress.nodup, hprogress.advances.generation_eq,
    fun j x hx hl => ?_⟩
  obtain ⟨z, hz, hzl, hto, hfrom⟩ := hprogress.advances.kept (look_of_slot hx) hl
  obtain ⟨y, hy, rfl⟩ := slot_of_look hz
  exact ⟨y, hy, hzl, hto, hfrom⟩

/-- A pair is scanned and comes to hold a new one, which has lost its root and is made grey for that
and scanned. Another one is made, and waits. -/
theorem marking_progresses_interleaved : ∃ past c t, Run Op.LiveArgs manualTwo past c ∧
    Chronicle Op.LiveArgs ⟨c, #[]⟩ t ∧ WithinGeneration t.events ∧
    Event.pairs Event.scanned? t.events = [⟨0⟩, ⟨1⟩] ∧
    Event.pairs Event.allocated? t.events = [⟨1⟩, ⟨2⟩] ∧
    (∀ d es, Chronicle Op.LiveArgs ⟨c, #[]⟩ ⟨d, es⟩ → WithinGeneration es →
      d.pending + (Event.pairs Event.scanned? es).length =
        c.pending + (Event.pairs Event.allocated? es).length ∧
      (Event.pairs Event.scanned? es).Nodup ∧
      d.generation = c.generation ∧
      ∀ j x, c.slot j = .ok x → x.color.isLive = true →
        ∃ y, d.slot j = .ok y ∧ y.color.isLive = true ∧
          (c.generation.isTo x.color = true → c.generation.isTo y.color = true) ∧
          (c.generation.isFrom y.color = true → c.generation.isFrom x.color = true)) ∧
    ∀ es, Collector.finish.Yields ⟨c, es⟩ fun n u =>
      n ≤ c.pending ∧ u.state.stats.steps = c.stats.steps + (c.pending - n) + 1 := by
  have first := Run.start.live (.make .nil (.integer 7)) (by decide +kernel)
  have h := first.sound sound_manualTwo fun _ _ hargs => hargs
  have scanned := Chronicle.start.play h 0 0 .step trivial
  have made := scanned.play h 0 0 (.make .nil .nil) (by decide +kernel)
  have unrooted := made.play h 0 0 (.unroot ⟨1⟩) (by decide +kernel)
  have written := unrooted.play h 1 0 (.write ⟨0⟩ .car (.pair ⟨1⟩)) (by decide +kernel)
  have made' := written.play h 0 0 (.make .nil .nil) (by decide +kernel)
  refine ⟨_, _, _, first, made', ?_, ?_, ?_, Run.marking_progresses create_manualTwo first⟩
  · show ∀ e ∈ _, _
    decide +kernel
  · decide +kernel
  · decide +kernel

end Collector

end ConsHeap
