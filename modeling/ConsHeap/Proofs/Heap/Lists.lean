import ConsHeap.Proofs.Collector.Reuse
import ConsHeap.Proofs.Heap.Operations

/-!
# Lists

A list is built from the back. Every round makes a pair that holds the list so far, and gives up the
handle of that, so that in between the list hangs on two handles and at the end of a round on one.
The pairs of the list are kept by their first one alone, whatever the collector does: all that it
can do to them is to take them away when nothing leads to them (`Graph.Spells.within`).

`Heap.Since T owners loose ids t` is what holds from the first round to the last one: the books are
right, what was reachable at `T` is as it was, and `ids` are the pairs allocated since, none of
which was reachable then.

* `Heap.Since.cons`, `Heap.Since.drop` — the two halves of a round;
* `Heap.Since.prepend` — all rounds, by induction on the items;
* `Heap.Owned.list` — the books after a list was made, or given up where there was no room.
-/

namespace ConsHeap

namespace Graph

variable {G H K : Graph} {id : PairId} {n : Node}

/-! ### Lists in a graph -/

/-- The pairs `ids` are a list that starts with a cell and ends with nil, and `items` are the cells
that they hold, in order. -/
inductive Spells (G : Graph) : Cell → List PairId → List Cell → Prop where
  | nil : Spells G .nil [] []
  | cons {id : PairId} {n : Node} {ids : List PairId} {items : List Cell} (node : G id = some n)
    (rest : Spells G n.cdr ids items) : Spells G (.pair id) (id :: ids) (n.car :: items)

namespace Spells

variable {cell : Cell} {ids ids' : List PairId} {items items' : List Cell}

theorem length_eq (h : G.Spells cell ids items) : ids.length = items.length := by
  induction h with
  | nil => rfl
  | cons _ _ ih => exact congrArg (· + 1) ih

/-- The cell of a list is its first pair, if it has one. -/
theorem pair?_eq (h : G.Spells cell ids items) : cell.pair? = ids.head? := by
  cases h with
  | nil => rfl
  | cons => rfl

/-- A cell starts one list at most. -/
theorem unique (h : G.Spells cell ids items) (h' : G.Spells cell ids' items') : ids = ids' := by
  induction h generalizing ids' items' with
  | nil =>
    cases h' with
    | nil => rfl
  | cons node _ ih =>
    cases h' with
    | cons node' rest' =>
      obtain rfl := Option.some.inj (node.symm.trans node')
      rw [ih rest']

/-- Every pair of a list starts a list. -/
theorem exists_suffix (h : G.Spells cell ids items) (hid : id ∈ ids) :
    ∃ ids' items', G.Spells (.pair id) ids' items' ∧ ids' <:+ ids := by
  induction h with
  | nil => exact absurd hid List.not_mem_nil
  | cons node rest ih =>
    rcases List.mem_cons.1 hid with rfl | hid
    · exact ⟨_, _, .cons node rest, List.suffix_refl _⟩
    · obtain ⟨ids', items', hlist, hsuffix⟩ := ih hid
      exact ⟨ids', items', hlist, hsuffix.trans (List.suffix_cons _ _)⟩

/-- **A list has no pair twice**, for otherwise it would not end. -/
theorem nodup (h : G.Spells cell ids items) : ids.Nodup := by
  induction h with
  | nil => exact List.nodup_nil
  | @cons id _ ids _ node rest ih =>
    refine List.nodup_cons.2 ⟨fun hid => ?_, ih⟩
    obtain ⟨ids', items', hlist, hsuffix⟩ := rest.exists_suffix hid
    -- the list from `id` on would be a part of its own tail
    obtain rfl : id :: ids = ids' := (Spells.cons node rest).unique hlist
    exact absurd hsuffix.length_le (by simp)

theorem insert (h : G.Spells cell ids items) (hid : G id = none) :
    (G.insert id n).Spells cell ids items := by
  induction h with
  | nil => exact .nil
  | @cons j _ _ _ node _ ih =>
    have hne : j ≠ id := by
      rintro rfl
      exact absurd (hid.symm.trans node) nofun
    exact .cons ((insert_ne hne).trans node) ih

/-- A list that is there is there whole, in a graph without dangling edges. -/
theorem within (h : H.Spells cell ids items) (hK : K.Within H) (hclosed : K.Closed)
    (hcell : ∀ {id}, cell = .pair id → ∃ m, K id = some m) : K.Spells cell ids items := by
  induction h with
  | nil => exact .nil
  | @cons id n ids items node rest ih =>
    obtain ⟨m, hm⟩ := hcell rfl
    obtain ⟨l, hl, hcar, hcdr⟩ := hK id m hm
    obtain rfl := Option.some.inj (node.symm.trans hl)
    rw [← hcar]
    refine .cons hm ?_
    rw [hcdr]
    refine ih fun {child} hchild => hclosed hm (List.mem_append_right _ ?_)
    rw [hcdr, hchild]
    exact List.mem_singleton_self child

/-- A list with a new pair before it. Whatever else becomes of the graph, if the pair is there, the
list is. -/
theorem extend {car : Cell} {roots : Nat} (h : G.Spells cell ids items) (hid : G id = none)
    (hK : K.Within (G.insert id ⟨car, cell, roots⟩)) (hclosed : K.Closed)
    (hthere : ∃ m, K id = some m) : K.Spells (.pair id) (id :: ids) (car :: items) := by
  have hlonger : (G.insert id ⟨car, cell, roots⟩).Spells (.pair id) (id :: ids) (car :: items) :=
    .cons insert_self (h.insert hid)
  refine hlonger.within hK hclosed fun {j} hj => ?_
  obtain rfl := Cell.pair.inj hj
  exact hthere

end Spells

end Graph

namespace Heap

variable {H : Heap} {T t u : Traced Heap} {E : Graph} {hs owners owners' loose : Multiset Cell}
  {id : PairId} {ids ids' : List PairId} {items : List Cell} {es : Array Event}
  {f car cdr tail item : Handle} {t₀ : Traced Collector}

/-! ### What an operation allocates -/

/-- The collector of a heap, with the events reported so far. -/
def traced (t : Traced Heap) : Traced Collector :=
  ⟨t.state.collector, t.events⟩

/-- References are not reported. -/
theorem counted (H : Heap) (os : Objects) (es : Array Event) :
    Collector.Tick (traced ⟨H, es⟩) (traced ⟨H.withObjects os, es⟩) :=
  .count rfl rfl

namespace Owned

/-- An allocation allocates the pair that it answers, and nothing where there is no room. -/
theorem cons_allocates (h : H.Owned hs loose) (ha : car.cell ∈ hs) (hb : cdr.cell ∈ hs)
    (hids : Collector.Allocations t₀ ids (traced ⟨H, es⟩)) :
    (Heap.cons car cdr).Yields ⟨H, es⟩ fun r u =>
      match r with
      | .ok f => ∀ id, f.cell = .pair id → Collector.Allocations t₀ (id :: ids) (traced u)
      | .error _ => Collector.Allocations t₀ ids (traced u) := by
  refine h.yields_cons ha hb fun os hcopied hlive => ?_
  refine (hcopied.owned.sound.make_makes hlive).mono fun r m hm => ?_
  have hcounted := hids.tick (counted H os es)
  cases r with
  | error _ => exact hcounted.ticks hm
  | ok id =>
    intro j hj
    obtain rfl := Cell.pair.inj hj
    exact hcounted.makes hm

/-- Giving up a handle allocates nothing. -/
theorem drop_allocates (h : H.Owned (f.cell ::ₘ hs) loose)
    (hids : Collector.Allocations t₀ ids (traced ⟨H, es⟩)) :
    (Heap.drop f).Yields ⟨H, es⟩ fun _ u => Collector.Allocations t₀ ids (traced u) := by
  cases hp : f.cell.pair? with
  | none =>
    rw [drop_of_none hp, yields_discard]
    exact hids.tick (counted H _ es)
  | some id =>
    rw [Cell.pair?_eq_some.1 hp] at h
    obtain ⟨x, hx, hr⟩ := h.look_of_mem (Multiset.mem_cons_self _ _)
    rw [drop_of_pair hp, Action.yields_bind, yields_onCollector]
    refine (h.sound.unroot_changes hx hr).mono fun _ m hm => ?_
    rw [yields_discard]
    exact (hids.changes hm).tick (counted { H with collector := m.state } _ m.events)

end Owned

/-! ### Pairs made since -/

/-- The heap was `T` at first. Now `owners` and `loose` are on its books, what was reachable then
has the cells and roots of then, and the pairs `ids` have been allocated since, the last one first.
-/
structure Since (T : Traced Heap) (owners loose : Multiset Cell) (ids : List PairId)
    (t : Traced Heap) : Prop where
  owned : t.state.Owned owners loose
  keeps : T.state.graph.Keeps t.state.graph
  roots : ∀ {j}, T.state.graph.Reachable j → owners.count (.pair j) = T.state.graph.roots j
  fresh : ∀ {j}, j ∈ ids → ¬T.state.graph.Reachable j
  allocations : Collector.Allocations (traced T) ids (traced t)

namespace Since

/-- At first there is nothing new. -/
theorem start (h : T.state.Owned owners loose) : Since T owners loose [] T where
  owned := h
  keeps := .refl _
  roots := fun _ => h.roots _
  fresh := fun hj => absurd hj List.not_mem_nil
  allocations := .start _

/-- What an operation makes of the heap, if it takes no roots from what was reachable at first and
gives none to it. -/
theorem becomes (h : Since T owners loose ids t)
    (hm : t.state.Becomes E owners' loose u.state) (hE : T.state.graph.Keeps E)
    (hcount : ∀ {j}, T.state.graph.Reachable j →
      owners'.count (.pair j) = owners.count (.pair j))
    (hfresh : ∀ {j}, j ∈ ids' → ¬T.state.graph.Reachable j)
    (hids : Collector.Allocations (traced T) ids' (traced u)) : Since T owners' loose ids' u := by
  have hroots : ∀ {j}, T.state.graph.Reachable j →
      owners'.count (.pair j) = T.state.graph.roots j := fun hj => (hcount hj).trans (h.roots hj)
  refine ⟨hm.owned, ?_, hroots, hfresh, hids⟩
  -- the roots are those that the owners have, and nothing dangles
  apply hE.within hm.within hm.owned.sound.graph_closed
  intro j hj
  exact (hm.owned.roots j).symm.trans (hroots hj)

/-- **A new pair** leaves what was reachable at first as it is, and is not part of it. -/
theorem cons (h : Since T owners loose ids t) (hT : T.state.collector.Sound)
    (ha : car.cell ∈ owners) (hb : cdr.cell ∈ owners) :
    (Heap.cons car cdr).Yields t fun r u =>
      match r with
      | .ok f => ∃ id, f.cell = .pair id ∧ t.state.graph id = none ∧
          u.state.graph.Within (t.state.graph.insert id ⟨car.cell, cdr.cell, 1⟩) ∧
          Since T (.pair id ::ₘ owners) loose (id :: ids) u
      | .error e => e.isOutOfMemory = true ∧ Since T owners loose ids u := by
  have hcons : (Heap.cons car cdr).Yields t _ := h.owned.cons ha hb
  refine (hcons.and (h.owned.cons_allocates ha hb h.allocations).leaves).mono fun r u hu => ?_
  obtain ⟨hr, hids⟩ := hu
  cases r with
  | error e =>
    obtain ⟨he, hm⟩ := hr
    exact ⟨he, h.becomes hm h.keeps (fun _ => rfl) h.fresh hids⟩
  | ok f =>
    obtain ⟨id, rfl, hnone, hm⟩ := hr
    -- what is reachable is there, and the id of the new pair was free
    have hid : ¬T.state.graph.Reachable id := by
      intro hid
      obtain ⟨n, hn⟩ := hid.exists_node hT.graph_closed
      exact absurd (hnone.symm.trans ((h.keeps id hid).trans hn)) nofun
    have hother : ∀ {j}, T.state.graph.Reachable j →
        (Cell.pair id ::ₘ owners).count (.pair j) = owners.count (.pair j) := by
      intro j hj
      refine Multiset.count_cons_of_ne (fun he => ?_) owners
      obtain rfl := Cell.pair.inj he
      exact hid hj
    have hfresh : ∀ {j}, j ∈ id :: ids → ¬T.state.graph.Reachable j := by
      intro j hj
      rcases List.mem_cons.1 hj with rfl | hj
      · exact hid
      · exact h.fresh hj
    exact ⟨id, rfl, hnone, hm.within,
      h.becomes hm (h.keeps.insert hid) hother hfresh (hids id rfl)⟩

/-- **A handle less**, on a pair that was not reachable at first, or on no pair. -/
theorem drop (h : Since T (f.cell ::ₘ owners) loose ids t)
    (hf : ∀ id, f.cell = .pair id → ¬T.state.graph.Reachable id) :
    (Heap.drop f).Yields t fun _ u =>
      u.state.graph.Within t.state.graph ∧ Since T owners loose ids u := by
  have hdrop : (Heap.drop f).Yields t _ := h.owned.drop
  refine (hdrop.and (h.owned.drop_allocates h.allocations).leaves).mono fun _ u hu => ?_
  obtain ⟨hm, hids⟩ := hu
  have hother : ∀ {j}, T.state.graph.Reachable j →
      owners.count (.pair j) = (f.cell ::ₘ owners).count (.pair j) := by
    intro j hj
    exact (Multiset.count_cons_of_ne (fun he => hf j he.symm hj) owners).symm
  exact ⟨hm.within, h.becomes hm h.keeps hother h.fresh hids⟩

/-- The front of a list of new pairs was not reachable at first. -/
theorem not_reachable_front {cell : Cell} {G : Graph} (h : Since T owners loose ids t)
    (hlist : G.Spells cell ids items) (id : PairId) (hid : cell = .pair id) :
    ¬T.state.graph.Reachable id := by
  refine h.fresh (List.mem_of_mem_head? ?_)
  rw [← hlist.pair?_eq, hid]
  rfl

/-- **Building a list.** At the beginning of a round the list so far has one handle, that of its
front; and if there is no room for another pair, that handle is given up. -/
theorem prepend (rest : List Handle) (h : Since T (tail.cell ::ₘ hs) loose ids t)
    (hlist : t.state.graph.Spells tail.cell ids items) (hT : T.state.collector.Sound)
    (hrest : ∀ f ∈ rest, f.cell ∈ hs) :
    (Heap.prepend rest tail).Yields t fun r u =>
      match r with
      | .ok front => ∃ ids', Since T (front.cell ::ₘ hs) loose ids' u ∧
          u.state.graph.Spells front.cell ids' (rest.reverse.map Handle.cell ++ items)
      | .error e => e.isOutOfMemory = true ∧ ∃ ids', Since T hs loose ids' u := by
  -- on the items still to come; `T` is the heap before the first round
  induction rest generalizing t tail ids items with
  | nil =>
    unfold Heap.prepend
    rw [Action.yields_pure]
    exact ⟨ids, h, hlist⟩
  | cons item rest ih =>
    have hitem : item.cell ∈ tail.cell ::ₘ hs :=
      Multiset.mem_cons_of_mem (hrest item List.mem_cons_self)
    unfold Heap.prepend
    rw [Action.yields_bind]
    refine (h.cons hT hitem (Multiset.mem_cons_self _ _)).onFault.mono fun r m hm => ?_
    cases r with
    | error e =>
      -- the list so far hangs on its front, and goes with it
      obtain ⟨he, hm⟩ := hm
      rw [Action.yields_bind]
      refine (hm.drop (h.not_reachable_front hlist)).mono fun _ u hu => ?_
      rw [Action.yields_pure]
      exact ⟨he, ids, hu.2⟩
    | ok front =>
      -- the new front holds the old one, whose handle is given up
      obtain ⟨id, hfront, hnone, hwithin, hm⟩ := hm
      rw [Multiset.cons_swap] at hm
      rw [Action.yields_bind]
      refine (hm.drop (h.not_reachable_front hlist)).onFault.mono fun _ u hu => ?_
      obtain ⟨hdropped, hu⟩ := hu
      have hthere : ∃ m, u.state.graph id = some m :=
        hu.owned.has_of_mem (Multiset.mem_cons_self _ _)
      have hlonger : u.state.graph.Spells (.pair id) (id :: ids) (item.cell :: items) :=
        hlist.extend hnone (hdropped.trans hwithin) hu.owned.sound.graph_closed hthere
      rw [← hfront] at hu hlonger
      refine (ih hu hlonger fun f hf => hrest f (List.mem_cons_of_mem _ hf)).mono fun r v hv => ?_
      rwa [List.reverse_cons, List.map_append, List.append_assoc]

/-- A list of handles starts with nil, which has no root. -/
theorem list (items : List Handle) (h : T.state.Owned hs loose)
    (hitems : ∀ f ∈ items, f.cell ∈ hs) :
    (Heap.list items).Yields T fun r u =>
      match r with
      | .ok front => ∃ ids, Since T (front.cell ::ₘ hs) loose ids u ∧
          u.state.graph.Spells front.cell ids (items.map Handle.cell)
      | .error e => e.isOutOfMemory = true ∧ ∃ ids, Since T hs loose ids u := by
  unfold Heap.list Heap.nil
  rw [Action.yields_bind, yields_adopt]
  have hnil : T.state.Owned (Cell.nil ::ₘ hs) loose := h.plain rfl rfl
  refine (prepend items.reverse (start hnil) .nil h.sound fun f hf =>
    hitems f (List.mem_reverse.1 hf)).mono fun r u hu => ?_
  rwa [List.reverse_reverse, List.append_nil] at hu

end Since

/-- The books after a list was made: one handle more, or none where there was no room. -/
theorem Owned.list (items : List Handle) (h : H.Owned hs loose)
    (hitems : ∀ f ∈ items, f.cell ∈ hs) :
    (Heap.list items).Yields ⟨H, es⟩ fun r u =>
      match r with
      | .ok front => u.state.Owned (front.cell ::ₘ hs) loose
      | .error e => e.isOutOfMemory = true ∧ u.state.Owned hs loose := by
  refine (Since.list (T := ⟨H, es⟩) items h hitems).mono fun r u hu => ?_
  cases r with
  | ok front =>
    obtain ⟨_, hsince, -⟩ := hu
    exact hsince.owned
  | error e =>
    obtain ⟨he, _, hsince⟩ := hu
    exact ⟨he, hsince.owned⟩

end Heap

end ConsHeap
