import ConsHeap.Proofs.Session.Accounting

/-!
# Lists are built whole or not at all

While a list is built, its pairs hang on handles that no entry of the table knows of. In the end
there is one of them left, that of the first pair, which becomes the new entry; or there was no
room, and none is left. What a program could reach before is not touched by any of this.

* `Session.Run.list_whole_or_nothing` — the statement for every state that a program with handles
  reaches.
-/

namespace ConsHeap

namespace Heap

variable {H : Heap} {T t u : Traced Heap} {hs owners loose : Multiset Cell} {ids : List PairId}
  {items : List Cell} {cell : Cell}

/-- Of the pairs allocated since, only the one that a list starts with has a root, and all others
have the roots that they had. -/
theorem Since.roots_eq (h : Since T (cell ::ₘ hs) loose ids t) (hT : T.state.Owned hs loose)
    (hlist : t.state.graph.Spells cell ids items) (j : PairId) :
    t.state.graph.roots j = if ids.head? = some j then 1 else T.state.graph.roots j := by
  rw [← h.owned.roots, ← hT.roots, ← hlist.pair?_eq]
  split
  · rename_i hj
    -- what is not reachable has no roots
    have hzero : hs.count (.pair j) = 0 := by
      rw [hT.roots]
      by_contra hne
      exact h.not_reachable_front hlist j (Cell.pair?_eq_some.1 hj)
        (Graph.reachable_of_roots (Nat.pos_of_ne_zero hne))
    rw [Cell.pair?_eq_some.1 hj, Multiset.count_cons_self, hzero]
  · -- any other pair has the handles that it had
    rename_i hj
    exact Multiset.count_cons_of_ne (fun he => hj (Cell.pair?_eq_some.2 he.symm)) hs

/-- When no handle of them is left, none of the pairs allocated since is reachable. -/
theorem Since.not_reachable (h : Since T hs loose ids t) (hT : T.state.Owned hs loose)
    {id : PairId} (hid : id ∈ ids) : ¬t.state.graph.Reachable id := by
  intro hreach
  refine h.fresh hid (h.keeps.reachable (fun j => ?_) hreach)
  rw [← h.owned.roots, hT.roots]

end Heap

namespace Session

variable {H : Heap} {s : Session} {leaked : Multiset PairId} {o : Options} {is : List Int}
  {items : List Handle} {ids : List PairId} {front : Handle} {K : Heap} {es : Array Event}

/-! ### What a list comes to -/

/-- What was reachable has the cells and roots that it had, and so has what the handles of the table
hold. -/
structure Spared (s u : Session) : Prop where
  graph : s.heap.graph.Keeps u.heap.graph
  rootCount : ∀ f, some f ∈ s.handles → u.heap.rootCount f = s.heap.rootCount f

/-- A list was made. Its pairs `ids` are those allocated by the call, from the back, and `items` are
what they hold. None of them was reachable before; if one was in use all the same, it was garbage,
and it was disposed of and recycled within the call. The first pair has one root. -/
structure Listed (s : Session) (items : List Handle) (front : Handle) (ids : List PairId)
    (t : Traced Session) : Prop where
  handles : t.state.handles = s.handles.push (some front)
  spells : t.state.heap.graph.Spells front.cell ids (items.map Handle.cell)
  length : ids.length = items.length
  nodup : ids.Nodup
  allocated : Event.pairs Event.allocated? t.events = ids.reverse
  fresh : ∀ id ∈ ids, ¬s.heap.graph.Reachable id
  recycled : ∀ id ∈ ids, s.heap.collector.IsLive id → Event.recycled id ∈ t.events
  roots : ∀ j, t.state.heap.graph.roots j =
    if ids.head? = some j then 1 else s.heap.graph.roots j

/-- No list was made, and of the pairs allocated by the call none is rooted or reachable. -/
structure Unlisted (s : Session) (t : Traced Session) : Prop where
  handles : t.state.handles = s.handles.push none
  roots : ∀ j, t.state.heap.graph.roots j = s.heap.graph.roots j
  unrooted : ∀ id ∈ Event.pairs Event.allocated? t.events, t.state.heap.graph.roots id = 0
  unreachable : ∀ id ∈ Event.pairs Event.allocated? t.events,
    ¬t.state.heap.graph.Reachable id

section Outcomes

variable {owners : Multiset Cell} (h : Accounted leaked s)

include h

theorem Accounted.spared {table : Array (Option Handle)}
    (hsince : Heap.Since ⟨s.heap, #[]⟩ owners 0 ids ⟨K, es⟩) :
    s.Spared { s with heap := K, handles := table } where
  graph := hsince.keeps
  rootCount := fun _ hf => h.rootCount_of_keeps hsince.owned.sound hsince.keeps hf

theorem Accounted.listed
    (hsince : Heap.Since ⟨s.heap, #[]⟩ (front.cell ::ₘ (s.cells + leaked.map .pair)) 0 ids ⟨K, es⟩)
    (hlist : K.graph.Spells front.cell ids (items.map Handle.cell)) :
    s.Listed items front ids
      ⟨{ s with heap := K, handles := s.handles.push (some front) }, es⟩ where
  handles := rfl
  spells := hlist
  length := hlist.length_eq.trans (List.length_map _)
  nodup := hlist.nodup
  allocated := hsince.allocations.allocated
  fresh := fun _ hid => hsince.fresh hid
  recycled := fun _ hid => hsince.allocations.recycled hid
  roots := hsince.roots_eq h hlist

theorem Accounted.unlisted
    (hsince : Heap.Since ⟨s.heap, #[]⟩ (s.cells + leaked.map .pair) 0 ids ⟨K, es⟩) :
    s.Unlisted ⟨{ s with heap := K, handles := s.handles.push none }, es⟩ := by
  have howned : s.heap.Owned (s.cells + leaked.map .pair) 0 := h
  have hroots : ∀ j, K.graph.roots j = s.heap.graph.roots j :=
    fun j => (hsince.owned.roots j).symm.trans (howned.roots j)
  have hallocated : Event.pairs Event.allocated? es = ids.reverse := hsince.allocations.allocated
  -- with the roots of before, only what was reachable before is
  have hdead : ∀ id ∈ Event.pairs Event.allocated? es, ¬K.graph.Reachable id := by
    intro id hid
    rw [hallocated, List.mem_reverse] at hid
    exact hsince.not_reachable howned hid
  refine ⟨rfl, hroots, fun id hid => ?_, hdead⟩
  by_contra hne
  exact hdead id hid (Graph.reachable_of_roots (Nat.pos_of_ne_zero hne))

end Outcomes

/-- **A list is built whole, or nothing of it is left.** Take any state that a program with handles
reaches, and any number of its handles. A list of them is made, or there is no room for it; nothing
else can happen. In both cases all that was reachable is as it was, although the collector may have
marked, swapped and recycled between any two of the allocations. -/
theorem Run.list_whole_or_nothing (created : Heap.create o = .ok H)
    (run : Run { heap := H } leaked s) (hitems : s.handles? is = some items) :
    (Session.perform (.list is)).Yields ⟨s, #[]⟩ fun reply t => s.Spared t.state ∧
      ((∃ front ids, reply = some (.made front) ∧ s.Listed items front ids t) ∨
        ∃ e, reply = some (.failed e) ∧ e.isOutOfMemory = true ∧ s.Unlisted t) := by
  have h : Accounted leaked s := run.accounted (.create created)
  have hmem : ∀ f ∈ items, f.cell ∈ s.cells + leaked.map .pair :=
    fun f hf => Multiset.mem_add.2 (.inl (mem_cells_of_handles? hitems hf))
  -- all entries have a handle, so the list is tried; its handle is then put into the table
  refine Action.Yields.congr ?_ (withHandles_of_some hitems)
  rw [Action.yields_bind, Action.yields_bind, yields_onHeap]
  refine (Heap.Since.list (T := ⟨s.heap, #[]⟩) items h hmem).mono fun r m hm => ?_
  rw [yields_keep]
  cases r with
  | ok front =>
    obtain ⟨ids, hsince, hlist⟩ := hm
    exact Action.yields_pure.2 ⟨h.spared hsince, .inl ⟨front, ids, rfl, h.listed hsince hlist⟩⟩
  | error e =>
    obtain ⟨he, ids, hsince⟩ := hm
    exact Action.yields_pure.2 ⟨h.spared hsince, .inr ⟨e, rfl, he, h.unlisted hsince⟩⟩

/-- A collector with room for four pairs, that does one unit of work for each event. -/
def crowded : Collector :=
  .empty { pageSize := 4, garbageSteps := 1, recycleSteps := 1, maxPages := some 1 }
    ⟨by decide, by decide, by decide⟩

/-- Operations one after another, faults or not. -/
def afterAll (s : Session) (ops : List Op) : Session :=
  ops.foldl (fun u op => u.after op #[]) s

theorem Run.afterAll {s₀ : Session} (run : Run s₀ leaked s) (ops : List Op) :
    ∃ lost, Run s₀ lost (s.afterAll ops) := by
  induction ops generalizing leaked s with
  | nil => exact ⟨leaked, run⟩
  | cons op ops ih => exact ih (run.perform op #[])

/-- Six handles of nil, and a pair that is garbage, though nobody has noticed that yet. -/
def littered : Session :=
  afterAll { heap := { collector := crowded } }
    [.nil, .nil, .nil, .nil, .nil, .nil, .cons 0 0, .drop 6]

/-- A list of three values is made, and one of six is not; both need the slot of the garbage. -/
theorem list_whole_or_nothing_crowded : ∃ leaked s,
    Run { heap := { collector := crowded } } leaked s ∧
    s.heap.collector.conses .black = [⟨0⟩] ∧
    (s.after (.list [0, 1, 2]) #[]).handle? (-1) = some ⟨0, .pair ⟨0⟩⟩ ∧
    ((Session.perform (.list [0, 1, 2])).Yields ⟨s, #[]⟩ fun reply t => s.Spared t.state ∧
      ((∃ front ids, reply = some (.made front) ∧
          s.Listed (List.replicate 3 ⟨0, .nil⟩) front ids t) ∨
        ∃ e, reply = some (.failed e) ∧ e.isOutOfMemory = true ∧ s.Unlisted t)) ∧
    (s.after (.list [0, 1, 2, 3, 4, 5]) #[]).handle? (-1) = none ∧
    (Session.perform (.list [0, 1, 2, 3, 4, 5])).Yields ⟨s, #[]⟩ fun reply t => s.Spared t.state ∧
      ((∃ front ids, reply = some (.made front) ∧
          s.Listed (List.replicate 6 ⟨0, .nil⟩) front ids t) ∨
        ∃ e, reply = some (.failed e) ∧ e.isOutOfMemory = true ∧ s.Unlisted t) := by
  have created : Heap.create
      { pageSize := 4, garbageSteps := 1, recycleSteps := 1, maxPages := some 1 } =
    .ok { collector := crowded } := rfl
  obtain ⟨leaked, run⟩ : ∃ leaked, Run { heap := { collector := crowded } } leaked littered :=
    Run.start.afterAll _
  exact ⟨leaked, littered, run, by decide +kernel, by decide +kernel,
    Run.list_whole_or_nothing created run (by decide +kernel), by decide +kernel,
    Run.list_whole_or_nothing created run (by decide +kernel)⟩

/-- A pair of the list may have been in use before: garbage that is disposed of and recycled while
the list is built. -/
theorem list_reuses_live : ∃ leaked s, Run { heap := { collector := crowded } } leaked s ∧
    s.handles? [0, 1, 2] = some (List.replicate 3 ⟨0, .nil⟩) ∧
    s.heap.collector.IsLive ⟨0⟩ ∧
    (s.after (.list [0, 1, 2]) #[]).handle? (-1) = some ⟨0, .pair ⟨0⟩⟩ := by
  obtain ⟨leaked, run⟩ : ∃ leaked, Run { heap := { collector := crowded } } leaked littered :=
    Run.start.afterAll _
  exact ⟨leaked, littered, run, by decide +kernel, by decide +kernel, by decide +kernel⟩

end Session

end ConsHeap
