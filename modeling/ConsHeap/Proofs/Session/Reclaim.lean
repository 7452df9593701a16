import ConsHeap.Proofs.Session.Accounting

/-!
# A collection reclaims pairs and symbols at once

After a collection an object is alive exactly when a living handle holds it, or a pair that could be
reached (`Session.Holds`): the full cycle blanks all other slots, whether they were garbage or had
been disposed of before, and with them goes what they held. Only then the table of symbols is
pruned, so that what it lists in the end are the symbols alive, each under its name once.

* `Cycled.held_pos` — what the slots hold after a full cycle;
* `Session.Run.collect_reclaims` — the statement for every state that a program with handles
  reaches.
-/

namespace ConsHeap

variable {o : Options}

/-- **After a full cycle only reachable pairs hold anything**: all other slots are blank. -/
theorem Collector.Cycled.held_pos {c c' : Collector} {n : Nat} {a : ObjectId}
    (hs : c.Cycled n c') (h : c.Sound) : 0 < c'.store.held a ↔
      ∃ id m, c.graph.Reachable id ∧ c.graph id = some m ∧
        (m.car = .managed a ∨ m.cdr = .managed a) := by
  rw [Store.held_pos]
  constructor
  · rintro ⟨id, y, hy, hpos⟩
    rcases hs.look_cases hy with ⟨-, x, hx, hid, rfl⟩ | rfl
    · have hl := h.isLive_of_look hx hid
      exact ⟨id, _, hid, graph_of_look hx hl, Slot.holds_pos.1 hpos⟩
    · rw [Slot.holds_blank] at hpos
      exact absurd hpos (Nat.lt_irrefl 0)
  · rintro ⟨id, m, hid, hm, hholds⟩
    obtain ⟨x, hx, -, rfl⟩ := graph_eq_some.1 hm
    exact ⟨id, _, hs.kept hx hid, Slot.holds_pos.2 hholds⟩

namespace Session

variable {H : Heap} {s : Session} {leaked : Multiset PairId} {f : Handle} {cell : Cell}
  {a : ObjectId}

/-- An object that a living handle holds, or a pair that some root leads to. -/
def Holds (s : Session) (a : ObjectId) : Prop :=
  (∃ f, some f ∈ s.handles ∧ f.cell = .managed a) ∨
    ∃ id n, s.heap.graph.Reachable id ∧ s.heap.graph id = some n ∧
      (n.car = .managed a ∨ n.cdr = .managed a)

/-- Roots that were left behind are roots of pairs. -/
theorem count_owners : 0 < (s.cells + leaked.map Cell.pair).count (.managed a) ↔
    ∃ f, some f ∈ s.handles ∧ f.cell = .managed a := by
  rw [Multiset.count_pos, Multiset.mem_add, mem_cells_iff, or_iff_left]
  intro hmem
  obtain ⟨id, -, hid⟩ := Multiset.mem_map.1 hmem
  exact absurd hid nofun

/-- **A collection reclaims pairs and symbols in one go.** In every state that a program with
handles reaches, a collection leaves the table of handles as it is. The objects alive after it are
those that a living handle holds, or a pair that could be reached, and they are what they were;
whatever only garbage held is freed, and so is what slots held that had been disposed of. The table
of symbols has one entry for each symbol alive, and no others. Handles have the root counts of
before, reachable pairs have their cells and roots, and every other slot is blank. -/
theorem Run.collect_reclaims (created : Heap.create o = .ok H)
    (run : Run { heap := H } leaked s) (es : Array Event) :
    (Session.perform .collect).Yields ⟨s, es⟩ fun _ u =>
      u.state.handles = s.handles ∧
      (∀ a, u.state.heap.objects.isLive a = true ↔ s.Holds a) ∧
      (∀ a, u.state.heap.objects.value? a = s.heap.objects.value? a) ∧
      u.state.heap.symbols.keys.Nodup ∧
      (∀ name a, (name, a) ∈ u.state.heap.symbols.entries ↔
        s.Holds a ∧ s.heap.objects.value? a = some ⟨.symbol, name⟩) ∧
      (∀ f, some f ∈ s.handles → u.state.heap.rootCount f = s.heap.rootCount f) ∧
      (∀ id, s.heap.graph.Reachable id → ∃ x y, s.heap.slot id = .ok x ∧
        u.state.heap.slot id = .ok y ∧ x.Agrees y) ∧
      ∀ id, id.index < s.heap.collector.totalSlots → ¬s.heap.graph.Reachable id →
        u.state.heap.slot id = .ok {} := by
  have h : Accounted leaked s := run.accounted (.create created)
  have hsound : s.heap.collector.Sound := Heap.Owned.sound h
  unfold Session.perform
  rw [Action.yields_bind, yields_onHeap]
  refine ((Heap.collect_pruned hsound).and (Heap.Owned.collect h).leaves).mono fun n m hm =>
    Action.yields_pure.2 ?_
  obtain ⟨⟨hcycled, hsymbols⟩, hbecomes⟩ := hm
  have howned : m.state.Owned (s.cells + leaked.map .pair) 0 := hbecomes.owned
  have htrims : s.heap.graph.Trims m.state.graph := hcycled.trims hsound
  have hvalue : ∀ a, m.state.objects.value? a = s.heap.objects.value? a := hcycled.releases.value
  -- the counts are those of handles and fields, and after the cycle the fields are known
  have hlive : ∀ a, m.state.objects.isLive a = true ↔ s.Holds a := by
    intro a
    have hstrong : m.state.objects.strong a =
        m.state.collector.store.held a + (s.cells + leaked.map Cell.pair).count (.managed a) := by
      have hbalanced := howned.balanced a
      rwa [add_zero] at hbalanced
    rw [Objects.isLive, decide_eq_true_iff, hstrong, Nat.add_pos_iff_pos_or_pos,
      hcycled.held_pos hsound, count_owners]
    exact or_comm
  refine ⟨rfl, hlive, hvalue, howned.tracks.nodup, fun name a => ?_,
    fun f hf => h.rootCount_of_keeps howned.sound htrims.keeps hf,
    fun id hid => hsound.agrees_of_trims howned.sound htrims hid,
    fun id hlt hid => hcycled.slot_of_not_reachable hsound hlt hid⟩
  rw [← hlive, ← hvalue]
  constructor
  · -- an entry that pruning has left names a symbol alive
    intro he
    have hnamed := howned.tracks.named _ he
    change (name, a) ∈ m.state.symbols.entries at he
    rw [hsymbols] at he
    exact ⟨(SymbolTable.prune_entries.1 he).2, hnamed⟩
  · rintro ⟨ha, hname⟩
    exact SymbolTable.mem_of_lookup (howned.tracks.lookup (of_decide_eq_true ha) hname)

/-- A collector that marks as events go by, and recycles nothing. -/
def hoarder : Collector :=
  .empty { pageSize := 4, garbageSteps := 2, recycleSteps := 0 } ⟨by decide, by decide, by decide⟩

/-- A handle holds the symbol "a", and another one a pair that holds "b". A string is held by a pair
that was disposed of, and the symbol "c" by a pair that holds itself. -/
theorem collect_reclaims_hoarded : ∃ leaked s, Run { heap := { collector := hoarder } } leaked s ∧
    s.heap.collector.conses .free = [⟨1⟩] ∧ s.heap.collector.conses .black = [⟨2⟩] ∧
    s.heap.symbols.entries = [("c", ⟨3⟩), ("b", ⟨1⟩), ("a", ⟨0⟩)] ∧
    s.heap.objects.value? ⟨2⟩ = some ⟨.string, "t"⟩ ∧
    (∀ a ∈ [⟨0⟩, ⟨1⟩, ⟨2⟩, ⟨3⟩], s.heap.objects.isLive a = true) ∧
    (Session.perform .collect).Yields ⟨s, #[]⟩ fun _ u =>
      u.state.handles = s.handles ∧
      (∀ a, u.state.heap.objects.isLive a = true ↔ s.Holds a) ∧
      (∀ a, u.state.heap.objects.value? a = s.heap.objects.value? a) ∧
      u.state.heap.symbols.keys.Nodup ∧
      (∀ name a, (name, a) ∈ u.state.heap.symbols.entries ↔
        s.Holds a ∧ s.heap.objects.value? a = some ⟨.symbol, name⟩) ∧
      (∀ f, some f ∈ s.handles → u.state.heap.rootCount f = s.heap.rootCount f) ∧
      (∀ id, s.heap.graph.Reachable id → ∃ x y, s.heap.slot id = .ok x ∧
        u.state.heap.slot id = .ok y ∧ x.Agrees y) ∧
      ∀ id, id.index < s.heap.collector.totalSlots → ¬s.heap.graph.Reachable id →
        u.state.heap.slot id = .ok {} := by
  have created : Heap.create { pageSize := 4, garbageSteps := 2, recycleSteps := 0 } =
    .ok { collector := hoarder } := rfl
  have symbols : Run { heap := { collector := hoarder } } _ _ :=
    (Run.start.perform (.symbol "a") #[]).perform (.symbol "b") #[]
  have held := symbols.perform (.cons 1 1) #[]
  have string := (held.perform (.string "t") #[]).perform (.cons 3 3) #[]
  -- dropping the pair of the string and another handle pays for two swaps
  have dropped := (string.perform (.drop 4) #[]).perform (.drop 3) #[]
  have disposed := (dropped.perform (.clone 2) #[]).perform (.drop 5) #[]
  have looped := ((disposed.perform (.symbol "c") #[]).perform (.cons 6 6) #[]).perform
    (.set 7 .cdr 7) #[]
  have garbage := ((looped.perform (.drop 7) #[]).perform (.drop 6) #[]).perform (.drop 1) #[]
  exact ⟨_, _, garbage, by decide +kernel, by decide +kernel, by decide +kernel,
    by decide +kernel, by decide +kernel, Run.collect_reclaims created garbage #[]⟩

end Session

end ConsHeap
