import ConsHeap.Proofs.Collector.Garbage

/-!
# Exact accounts

The invariant says what is safe to take away. This module says that nothing else is left over, in
every state that operations on live arguments lead to:

* `Collector.Run.census_partitions_slots` — every slot is listed once, where it says;
* `Collector.Run.cycle_exact` — a full cycle leaves exactly what is reachable, and counts exactly
  what it gives up;
* `Collector.Run.finish_twice_agrees_cycle` — finishing two generations leaves and counts the same.

For the last one, the state in the middle of a generation may hold scanned garbage, which the first
swap keeps. But whatever that swap leaves has the `from` color, unless it is rooted, and scans alone
do not grey what no root leads to; so all of it waits for the second swap (`Collector.Waits`).
-/

namespace ConsHeap

/-- Two slots hold the same cells and have the same roots, and both are rooted or both are bulk. -/
structure Slot.Agrees (x y : Slot) : Prop where
  car_eq : y.car = x.car
  cdr_eq : y.cdr = x.cdr
  rootCount_eq : y.rootCount = x.rootCount
  isRoot_eq : y.color.isRoot = x.color.isRoot
  isBulk_eq : y.color.isBulk = x.color.isBulk

namespace Collector

variable {c c' c'' c₀ : Collector} {id p : PairId} {x : Slot} {es : Array Event}
  {past : List Collector} {o : Options} {k m n : Nat}

/-! ### The census -/

/-- **The colors partition the slots.** In every state reached by operations on live arguments, the
lists of all colors together hold every slot number once. A slot is listed under the color that it
carries, at the position that it records unless it is void; the counts are the lengths of the lists;
and no class holds a void slot, all of which are blank. -/
theorem Run.census_partitions_slots (created : Collector.create o = .ok c₀)
    (run : Run Op.LiveArgs c₀ past c) :
    ((Color.all.flatMap c.conses).map PairId.index).Perm (List.range c.totalSlots) ∧
    (∀ id, id.index < c.totalSlots → ∃ x, c.slot id = .ok x ∧
      (∀ color, id ∈ c.conses color ↔ x.color = color) ∧
      (x.color ≠ .void → (c.conses x.color)[x.index]? = some id) ∧
      (x.color = .void → x.car = .nil ∧ x.cdr = .nil ∧ x.rootCount = 0 ∧ x.index = 0)) ∧
    (∀ color, c.count color = (c.conses color).length) ∧
    c.store.classes.members .void = #[] := by
  have h : c.Sound := run.sound (.create created) fun _ _ hargs => hargs
  refine ⟨h.census_perm, fun id hid => ?_, fun color => h.length_conses.symm, h.store.void_class⟩
  -- below the total every number is that of a slot
  obtain ⟨slot, hslot⟩ := Option.isSome_iff_exists.1 (Arena.slot?_isSome.2 hid)
  have hx := Store.look_of_slot? hslot
  obtain ⟨x, hs, -⟩ := slot_of_look hx
  refine ⟨x, hs, fun color => ?_, h.getElem?_conses hs, fun hv => ?_⟩
  · rw [h.mem_conses, look_of_slot hs]
    simp
  · rw [h.eq_blank_of_void hs hv]
    exact ⟨rfl, rfl, rfl, rfl⟩

/-- Three pairs are made and two of them given up. One of these is recycled, so that there is a pair
of a live color, a free one, a recycled slot and a slot that was never carved. -/
theorem census_partitions_slots_mixed : ∃ past c, Run Op.LiveArgs manualTwo past c ∧
    c.conses .void = [⟨2⟩, ⟨3⟩] ∧ c.conses .free = [⟨1⟩] ∧ c.conses .blackRoot = [⟨0⟩] ∧
    ((Color.all.flatMap c.conses).map PairId.index).Perm (List.range c.totalSlots) ∧
    (∀ id, id.index < c.totalSlots → ∃ x, c.slot id = .ok x ∧
      (∀ color, id ∈ c.conses color ↔ x.color = color) ∧
      (x.color ≠ .void → (c.conses x.color)[x.index]? = some id) ∧
      (x.color = .void → x.car = .nil ∧ x.cdr = .nil ∧ x.rootCount = 0 ∧ x.index = 0)) ∧
    (∀ color, c.count color = (c.conses color).length) ∧
    c.store.classes.members .void = #[] := by
  have first := Run.start.live (.make .nil (.integer 7)) (by decide +kernel)
  have second := first.live (.make .nil .nil) (by decide +kernel)
  have third := second.live (.make .nil .nil) (by decide +kernel)
  have unrooted := third.live (.unroot ⟨1⟩) (by decide +kernel)
  have unrooted' := unrooted.live (.unroot ⟨2⟩) (by decide +kernel)
  have scanned := unrooted'.live .step trivial
  have disposed := scanned.live .step trivial
  have recycled := disposed.live .recycle trivial
  exact ⟨_, _, recycled, by decide +kernel, by decide +kernel, by decide +kernel,
    Run.census_partitions_slots create_manualTwo recycled⟩

/-! ### The full cycle -/

/-- A pair that is kept has the slot that it had, as a program sees it. -/
theorem Sound.agrees_of_keeps (h : c.Sound) (h' : c'.Sound) (hk : c.graph.Keeps c'.graph)
    (hid : c.graph.Reachable id) :
    ∃ x y, c.slot id = .ok x ∧ c'.slot id = .ok y ∧ x.Agrees y := by
  obtain ⟨a, ha, hal⟩ := h.isLive_of_reachable hid
  have hnode : c'.graph id = some a.node := (hk id hid).trans (graph_of_look ha hal)
  obtain ⟨b, hb, hbl, he⟩ := graph_eq_some.1 hnode
  -- the root count decides between a root color and a bulk color
  have hroot : b.color.isRoot = a.color.isRoot := by
    rw [Bool.eq_iff_iff, h.rooted ha, h'.rooted hb]
    exact iff_of_eq (congrArg (fun n : Node => 0 < n.roots) he)
  have hbulk : b.color.isBulk = a.color.isBulk := by
    rw [Color.isBulk_eq_of_isLive hbl, Color.isBulk_eq_of_isLive hal, hroot]
  obtain ⟨x, hx, rfl⟩ := slot_of_look ha
  obtain ⟨y, hy, rfl⟩ := slot_of_look hb
  exact ⟨x, y, hx, hy, congrArg Node.car he, congrArg Node.cdr he, congrArg Node.roots he, hroot,
    hbulk⟩

/-- Where trimming leaves a pair, it leaves the slot of it as a program sees it. -/
theorem Sound.agrees_of_trims (h : c.Sound) (h' : c'.Sound) (ht : c.graph.Trims c'.graph)
    (hid : c.graph.Reachable id) :
    ∃ x y, c.slot id = .ok x ∧ c'.slot id = .ok y ∧ x.Agrees y :=
  h.agrees_of_keeps h' ht.keeps hid

theorem Cycled.isLive_iff (hs : c.Cycled n c') (h : c.Sound) :
    c'.IsLive id ↔ c.graph.Reachable id := by
  rw [Collector.isLive_iff]
  constructor
  · rintro ⟨m, hm⟩
    exact ((hs.graph_eq_some_iff h).1 hm).1
  · intro hid
    obtain ⟨m, hm⟩ := hid.exists_node h.graph_closed
    exact ⟨m, (hs.graph_eq_some_iff h).2 ⟨hid, hm⟩⟩

/-- The root count of a slot is that of its pair in the graph, also where there is no pair. -/
theorem Sound.roots_eq (h : c.Sound) (hx : c.slot id = .ok x) : c.graph.roots id = x.rootCount := by
  have hlook := look_of_slot hx
  by_cases hl : x.color.isLive = true
  · rw [Graph.roots_of_node (graph_of_look hlook hl)]
    rfl
  · -- only live pairs have roots
    have hnone : c.graph id = none := by
      rw [graph_eq_none, isLive_iff_of_look hlook]
      exact hl
    have hzero := mt (h.rooted hlook).2 fun hr => hl (Color.isLive_of_isRoot hr)
    change ¬0 < x.rootCount at hzero
    unfold Graph.roots
    rw [hnone, Option.elim_none, Nat.eq_zero_of_not_pos hzero]

/-- A full cycle neither adds pages nor gives any back. -/
theorem Cycled.index_lt_iff (hs : c.Cycled n c') :
    id.index < c'.totalSlots ↔ id.index < c.totalSlots := by
  have hsome : (c'.look id).isSome = (c.look id).isSome := by
    cases hx : c.look id with
    | none => rw [hs.absent hx]
    | some x =>
      -- a slot is kept or blanked, and is there in either case
      by_cases hid : c.graph.Reachable id
      · rw [hs.kept hx hid, Option.isSome_some, Option.isSome_some]
      · rw [hs.dropped hx hid, Option.isSome_some, Option.isSome_some]
  unfold look Store.look at hsome
  rw [Option.isSome_map, Option.isSome_map] at hsome
  unfold totalSlots
  rw [← Arena.slot?_isSome, ← Arena.slot?_isSome, hsome]

/-- What is not reachable is blank after a full cycle, down to its position. -/
theorem Cycled.slot_of_not_reachable (hs : c.Cycled n c') (h : c.Sound)
    (hlt : id.index < c.totalSlots) (hid : ¬c.graph.Reachable id) : c'.slot id = .ok {} := by
  obtain ⟨slot, hslot⟩ := Option.isSome_iff_exists.1 (Arena.slot?_isSome.2 hlt)
  obtain ⟨y, hy, he⟩ := slot_of_look (hs.dropped (Store.look_of_slot? hslot) hid)
  rw [hy, (hs.sound h).eq_blank_of_void hy (congrArg Slot.color he)]

/-- **A full cycle is exact.** In every state reached by operations on live arguments it does not
fault. The pairs in use after it are the reachable ones, with the same cells and roots, in the
colors of a fresh generation; every other slot is blank. The answer is the number of pairs that were
in use and not reachable, and the statistics count these, and the free pairs as recycled. -/
theorem Run.cycle_exact (created : Collector.create o = .ok c₀)
    (run : Run Op.LiveArgs c₀ past c) (es : Array Event) :
    cycle.Yields ⟨c, es⟩ fun n u =>
      (∀ id, u.state.IsLive id ↔ c.graph.Reachable id) ∧
      (∀ id, c.graph.Reachable id → ∃ x y, c.slot id = .ok x ∧ u.state.slot id = .ok y ∧
        y.car = x.car ∧ y.cdr = x.cdr ∧ y.rootCount = x.rootCount ∧
        y.color = if 0 < x.rootCount then .blackRoot else .black) ∧
      u.state.generation.fromColor = .white ∧
      (∀ id, id.index < c.totalSlots → ¬c.graph.Reachable id → u.state.slot id = .ok {}) ∧
      (∀ id x, u.state.slot id = .ok x → x.color ≠ .free) ∧
      n = {id | c.IsLive id ∧ ¬c.graph.Reachable id}.ncard ∧
      u.state.stats.pairsDisposed = c.stats.pairsDisposed + n ∧
      u.state.stats.pairsRecycled = c.stats.pairsRecycled + (n + c.count .free) := by
  have h : c.Sound := run.sound (.create created) fun _ _ hargs => hargs
  refine h.cycle.mono fun n u hu => ?_
  have h' : u.state.Sound := hu.sound h
  refine ⟨fun id => hu.isLive_iff h, fun id hid => ?_, ?_,
    fun id hlt hid => hu.slot_of_not_reachable h hlt hid,
    fun id y hy hfree => ?_, hu.count, by rw [hu.frame], by rw [hu.frame]⟩
  · -- the cells and the roots are those of the graph; the color is that of a survivor
    obtain ⟨x, y, hx, hy, he⟩ := h.agrees_of_trims h' (hu.trims h) hid
    refine ⟨x, y, hx, hy, he.car_eq, he.cdr_eq, he.rootCount_eq, ?_⟩
    have hkept := hu.kept (look_of_slot hx) hid
    rw [look_of_slot hy] at hkept
    have hcolor : y.color = survivorColor .white x.color :=
      congrArg Slot.color (Option.some.inj hkept)
    have hrooted := h.rooted (look_of_slot hx)
    change x.color.isRoot = true ↔ 0 < x.rootCount at hrooted
    rw [hcolor, survivorColor]
    simp only [hrooted]
    rfl
  · rw [hu.generation_eq]
    rfl
  · -- a slot is live after the cycle or blank, and neither is free
    rcases hu.look_cases (look_of_slot hy) with ⟨hl, -⟩ | he
    · exact (Color.isLive_iff.1 hl).2 hfree
    · have hvoid : y.color = .void := congrArg Slot.color he
      rw [hfree] at hvoid
      exact absurd hvoid (by decide)

/-- A rooted pair holds a bulk one that holds itself; a third one was given up and is free, and a
fourth one has lost its root since. -/
theorem cycle_exact_mixed : ∃ past c, Run Op.LiveArgs manualTwo past c ∧
    c.conses .free = [⟨2⟩] ∧
    cycle.Yields ⟨c, #[]⟩ fun n u =>
      (∀ id, u.state.IsLive id ↔ c.graph.Reachable id) ∧
      (∀ id, c.graph.Reachable id → ∃ x y, c.slot id = .ok x ∧ u.state.slot id = .ok y ∧
        y.car = x.car ∧ y.cdr = x.cdr ∧ y.rootCount = x.rootCount ∧
        y.color = if 0 < x.rootCount then .blackRoot else .black) ∧
      u.state.generation.fromColor = .white ∧
      (∀ id, id.index < c.totalSlots → ¬c.graph.Reachable id → u.state.slot id = .ok {}) ∧
      (∀ id x, u.state.slot id = .ok x → x.color ≠ .free) ∧
      n = {id | c.IsLive id ∧ ¬c.graph.Reachable id}.ncard ∧
      u.state.stats.pairsDisposed = c.stats.pairsDisposed + n ∧
      u.state.stats.pairsRecycled = c.stats.pairsRecycled + (n + c.count .free) := by
  have first := Run.start.live (.make .nil .nil) (by decide +kernel)
  have looped := first.live (.write ⟨0⟩ .cdr (.pair ⟨0⟩)) (by decide +kernel)
  have second := looped.live (.make (.pair ⟨0⟩) (.integer 7)) (by decide +kernel)
  have unrooted := second.live (.unroot ⟨0⟩) (by decide +kernel)
  have third := unrooted.live (.make .nil .nil) (by decide +kernel)
  have unrooted' := third.live (.unroot ⟨2⟩) (by decide +kernel)
  have scanned := unrooted'.live .step trivial
  have scanned' := scanned.live .step trivial
  have swapped := scanned'.live .step trivial
  have fourth := swapped.live (.make (.pair ⟨1⟩) .nil) (by decide +kernel)
  have unrooted'' := fourth.live (.unroot ⟨3⟩) (by decide +kernel)
  exact ⟨_, _, unrooted'', by decide +kernel, Run.cycle_exact create_manualTwo unrooted'' #[]⟩

/-! ### Two generations instead -/

theorem Scanning.waits (hw : c.Scanning c') (hp : c.Waits p k) : c'.Waits p k := by
  induction hw with
  | refl => exact hp
  | tail _ hs ih =>
    obtain ⟨_, _, _, hs⟩ := hs
    exact hs.waits ih

/-- The pairs that a swap disposes of are those that it takes out of use. -/
theorem Swapped.count_eq (hs : c.Swapped n c') (h : c.Sound) :
    n = {id | c.IsLive id ∧ ¬c'.IsLive id}.ncard := by
  rw [hs.count, ← count_of_ne_void Generation.fromColor_ne_void, h.count_eq_ncard]
  congr 1
  ext id
  constructor
  · -- what has the `from` color is in use, and free after the swap
    rintro ⟨x, hx, hfrom⟩
    refine ⟨⟨x, hx, ?_⟩, ?_⟩
    · rw [hfrom]
      exact Generation.isLive_of_isFrom Generation.isFrom_fromColor
    · rintro ⟨y, hy, hl⟩
      obtain rfl := Option.some.inj ((hs.store.look_of hx).symm.trans hy)
      change (c.generation.afterSwap x.color).isLive = true at hl
      rw [hfrom, Generation.afterSwap, if_pos rfl] at hl
      exact absurd hl (by decide)
  · -- a pair of another color keeps it, and would be live still
    rintro ⟨⟨x, hx, hl⟩, hdead⟩
    refine ⟨x, hx, by_contra fun hne => hdead ⟨_, hs.store.look_of hx, ?_⟩⟩
    change (c.generation.afterSwap x.color).isLive = true
    rw [Generation.afterSwap, if_neg hne]
    exact hl

/-- A generation that is finished takes out of use what its swap disposes of. -/
theorem Swapped.count_of_scanning (hw : c.Scanning c') (hs : c'.Swapped n c'') (h : c.Sound) :
    n = {id | c.IsLive id ∧ ¬c''.IsLive id}.ncard := by
  have hlive : ∀ id, c'.IsLive id ↔ c.IsLive id := by
    intro id
    rw [Collector.isLive_iff, Collector.isLive_iff, hw.graph_eq]
  rw [hs.count_eq (hw.upkeep.sound h)]
  simp only [hlive]

/-- **The second of two swaps is exact**: when only scans take place between them, it leaves what is
reachable and nothing else. -/
theorem Swapped.isLive_iff_reachable (hs : c.Swapped n c') (hw : c'.Scanning c'') {d : Collector}
    (hs' : c''.Swapped m d) (h : c.Sound) : d.IsLive id ↔ c.graph.Reachable id := by
  have h' : c'.Sound := hs.sound h
  have h'' : c''.Sound := hw.upkeep.sound h'
  have htrims : c'.graph.Trims d.graph := hw.graph_eq ▸ hs'.trims h''
  rw [← (hs.trims h).reachable_iff]
  constructor
  · -- what the first swap leaves of the garbage waits, and the second one disposes of it
    intro hl
    by_contra hid
    obtain ⟨m, hm⟩ := Collector.isLive_iff.1 hl
    have hl' : c'.IsLive id := Collector.isLive_iff.2 ⟨m, htrims.old hm⟩
    rcases hs'.disposed_or_waits h'' (hw.waits (hs.waits h hl' hid)) with hgone | ⟨_, hk, -⟩
    · -- but a pair that is disposed of is not in use
      obtain ⟨x, hx, hdead⟩ := isDisposed_iff.1 hgone
      rw [isLive_iff_of_look hx, hdead] at hl
      exact absurd hl (by decide)
    · exact absurd hk.symm (Nat.succ_ne_zero _)
  · -- neither swap takes away what is reachable
    intro hid
    obtain ⟨m, hm⟩ := hid.exists_node h'.graph_closed
    exact Collector.isLive_iff.2 ⟨m, (htrims.kept hid).trans hm⟩

/-- **Two generations finished in a row are exact**: they trim the graph to what is reachable, and
dispose of all else that was in use. -/
theorem Sound.finish_twice (h : c.Sound) :
    Collector.finish.Yields ⟨c, es⟩ fun n t => Collector.finish.Yields t fun m u =>
      u.state.Sound ∧ c.graph.Trims u.state.graph ∧
      (∀ id, u.state.IsLive id ↔ c.graph.Reachable id) ∧
      n + m = {id | c.IsLive id ∧ ¬c.graph.Reachable id}.ncard := by
  -- each generation is finished by scans, which leave the graph as it is, and one swap
  refine h.finish.mono fun n t ht => ?_
  obtain ⟨c₁, hscans, hswap⟩ := ht
  have h₁ : c₁.Sound := hscans.upkeep.sound h
  have hold : c.graph.Trims t.state.graph := hscans.graph_eq ▸ hswap.trims h₁
  have h' : t.state.Sound := hswap.sound h₁
  refine h'.finish.mono fun m u hu => ?_
  obtain ⟨c₂, hscans', hswap'⟩ := hu
  have h₂ : c₂.Sound := hscans'.upkeep.sound h'
  have hnew : t.state.graph.Trims u.state.graph := hscans'.graph_eq ▸ hswap'.trims h₂
  have hlive : ∀ id, u.state.IsLive id ↔ c.graph.Reachable id := by
    intro id
    rw [← hscans.graph_eq]
    exact hswap.isLive_iff_reachable hscans' hswap' h₁
  refine ⟨hswap'.sound h₂, hold.trans hnew, hlive, ?_⟩
  -- a pair is disposed of by the first swap, or by the second one, or it is reachable
  rw [hswap.count_of_scanning hscans h, hswap'.count_of_scanning hscans' h',
    ← Set.ncard_union_eq (Set.disjoint_left.2 fun id hfirst hsecond => hfirst.2 hsecond.1)]
  congr 1
  ext id
  have hstays : u.state.IsLive id → t.state.IsLive id := by
    rw [Collector.isLive_iff, Collector.isLive_iff]
    rintro ⟨m, hm⟩
    exact ⟨m, hnew.old hm⟩
  have hstayed : t.state.IsLive id → c.IsLive id := by
    rw [Collector.isLive_iff, Collector.isLive_iff]
    rintro ⟨m, hm⟩
    exact ⟨m, hold.old hm⟩
  change (c.IsLive id ∧ ¬t.state.IsLive id) ∨ (t.state.IsLive id ∧ ¬u.state.IsLive id) ↔
    c.IsLive id ∧ ¬c.graph.Reachable id
  rw [← hlive]
  tauto

/-- **The incremental collector agrees with the full cycle.** From every state reached by operations
on live arguments, finishing two generations and doing one full cycle leave the same pairs in use,
those that can be asked for as the reachable ones, with the same cells and roots; and they dispose
of as many pairs, all those in use that are not reachable. -/
theorem Run.finish_twice_agrees_cycle (created : Collector.create o = .ok c₀)
    (run : Run Op.LiveArgs c₀ past c) (es : Array Event) :
    ∃ found, c.reachable = .ok found ∧
      Collector.finish.Yields ⟨c, es⟩ fun n₁ t => Collector.finish.Yields t fun n₂ u =>
        cycle.Yields ⟨c, es⟩ fun n v =>
          n₁ + n₂ = n ∧ n = {id | c.IsLive id ∧ id ∉ found}.ncard ∧
          (∀ id, u.state.IsLive id ↔ id ∈ found) ∧ (∀ id, v.state.IsLive id ↔ id ∈ found) ∧
          ∀ id ∈ found, ∃ x y z, c.slot id = .ok x ∧ u.state.slot id = .ok y ∧
            v.state.slot id = .ok z ∧ x.Agrees y ∧ x.Agrees z := by
  have h : c.Sound := run.sound (.create created) fun _ _ hargs => hargs
  obtain ⟨found, hfound, hmem⟩ := h.reachable_spec
  refine ⟨found, hfound, ?_⟩
  -- both collectors trim the graph of `c` to what is reachable, and count against it
  refine h.finish_twice.mono fun n₁ t ht => ht.mono fun n₂ u hu => ?_
  obtain ⟨hsound, htrims, hlive, hcount⟩ := hu
  refine h.cycle.mono fun n v hv => ?_
  simp only [hmem]
  refine ⟨hcount.trans hv.count.symm, hv.count, hlive, fun id => hv.isLive_iff h,
    fun id hid => ?_⟩
  obtain ⟨x, y, hx, hy, hxy⟩ := h.agrees_of_trims hsound htrims hid
  obtain ⟨x', z, hx', hz, hxz⟩ := h.agrees_of_trims (hv.sound h) (hv.trims h) hid
  obtain rfl := Except.ok.inj (hx.symm.trans hx')
  exact ⟨x, y, z, hx, hy, hz, hxy, hxz⟩

/-- Both a scanned pair and one that is not scanned yet have lost their roots, in the middle of a
generation. -/
theorem finish_twice_agrees_cycle_scanned : ∃ past c, Run Op.LiveArgs manualTwo past c ∧
    c.conses .black = [⟨2⟩] ∧ c.conses .white = [⟨0⟩] ∧
    ∃ found, c.reachable = .ok found ∧
      Collector.finish.Yields ⟨c, #[]⟩ fun n₁ t => Collector.finish.Yields t fun n₂ u =>
        cycle.Yields ⟨c, #[]⟩ fun n v =>
          n₁ + n₂ = n ∧ n = {id | c.IsLive id ∧ id ∉ found}.ncard ∧
          (∀ id, u.state.IsLive id ↔ id ∈ found) ∧ (∀ id, v.state.IsLive id ↔ id ∈ found) ∧
          ∀ id ∈ found, ∃ x y z, c.slot id = .ok x ∧ u.state.slot id = .ok y ∧
            v.state.slot id = .ok z ∧ x.Agrees y ∧ x.Agrees z := by
  have first := Run.start.live (.make .nil (.integer 7)) (by decide +kernel)
  have second := first.live (.make .nil .nil) (by decide +kernel)
  have third := second.live (.make .nil .nil) (by decide +kernel)
  have scanned := third.live .step trivial
  have unrooted := scanned.live (.unroot ⟨2⟩) (by decide +kernel)
  have unrooted' := unrooted.live (.unroot ⟨0⟩) (by decide +kernel)
  exact ⟨_, _, unrooted', by decide +kernel, by decide +kernel,
    Run.finish_twice_agrees_cycle create_manualTwo unrooted' #[]⟩

end Collector

end ConsHeap
