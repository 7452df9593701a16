import ConsHeap.Proofs.Collector.Confinement

/-!
# Reachability, computed

What a collector answers when it is asked for the reachable pairs is the least set that has all
rooted pairs in it and is closed under cars and cdrs (`Collector.reachable_isLeast`). Nothing is
assumed of the graph, which may have cycles and pairs that hold themselves, nor of the colors of
what is met on the way; it has to stay inside the pages. The roots do so in every state, and the
edges do in every run on live arguments.
-/

namespace ConsHeap

namespace Collector

variable {o : Options} {c c₀ : Collector} {past : List Collector} {id : PairId}

/-- The rooted pairs are slots. -/
def RootsInside (c : Collector) : Prop :=
  ∀ color ∈ Color.roots, ∀ id ∈ c.conses color, id.index < c.totalSlots

/-- Edges lead to slots, whatever the color of a pair. -/
def EdgesInside (c : Collector) : Prop :=
  ∀ id x, c.slot id = .ok x → ∀ child ∈ x.children, child.index < c.totalSlots

/-- A set of pairs with all members of the root classes in it, and with what its pairs hold. -/
structure IsClosed (c : Collector) (S : Set PairId) : Prop where
  roots : ∀ color ∈ Color.roots, ∀ id ∈ c.conses color, id ∈ S
  edges : ∀ id ∈ S, ∀ x, c.slot id = .ok x → ∀ child ∈ x.children, child ∈ S

theorem mem_conses_of_isRoot {color : Color} (hcolor : color.isRoot = true) :
    id ∈ c.conses color ↔ id ∈ c.store.classes.members color := by
  rw [conses_of_ne_void (Color.ne_void_of_isLive (Color.isLive_of_isRoot hcolor)),
    Array.mem_toList_iff]

/-- What the relation reaches is the least closed set. -/
theorem isLeast_reaches : IsLeast {S | c.IsClosed S} {id | c.store.Reaches id} := by
  refine ⟨⟨fun color hcolor id hid => ?_, fun id hid x hx child hchild => ?_⟩,
    fun S hS id hid => ?_⟩
  · have hroot := Color.mem_roots.1 hcolor
    exact .root hroot ((mem_conses_of_isRoot hroot).1 hid)
  · exact .edge hid (slot?_of_slot hx) hchild
  · induction hid with
    | root hroot hmem =>
      exact hS.roots _ (Color.mem_roots.2 hroot) _ ((mem_conses_of_isRoot hroot).2 hmem)
    | edge _ hslot hchild ih =>
      exact hS.edges _ ih _ (Arena.slot_eq_ok.2 hslot) _ hchild

/-- Inside the pages there is a slot for whatever is reached. -/
theorem EdgesInside.exists_slot (hedges : c.EdgesInside) (hroots : c.RootsInside)
    (hid : c.store.Reaches id) : ∃ x, c.store.arena.slot? id = some x := by
  refine Option.isSome_iff_exists.1 (Arena.slot?_isSome.2 ?_)
  cases hid with
  | root hroot hmem =>
    exact hroots _ (Color.mem_roots.2 hroot) _ ((mem_conses_of_isRoot hroot).2 hmem)
  | @edge parent _ slot _ hslot hchild =>
    exact hedges parent slot (Arena.slot_eq_ok.2 hslot) _ hchild

/-- **What can be asked for as the reachable pairs is reachability.** Where roots and edges stay
inside the pages, the traversal ends without a fault and lists, each of them once, the pairs of the
least set that has all rooted pairs in it and is closed under cars and cdrs; they are at most as many
as there are slots. Whatever is done to a collector, also where it faults, its roots stay inside the
pages, and in a run on live arguments the edges do, too. -/
theorem reachable_isLeast (created : Collector.create o = .ok c₀) :
    (∀ c : Collector, c.RootsInside → c.EdgesInside → ∃ found, c.reachable = .ok found ∧
      found.Nodup ∧ IsLeast {S | c.IsClosed S} {id | id ∈ found} ∧
      found.length ≤ c.totalSlots) ∧
    (∀ c, Reached c₀ c → c.RootsInside) ∧
    ∀ past c, Run Op.LiveArgs c₀ past c → c.RootsInside ∧ c.EdgesInside := by
  have hroots : ∀ c, Reached c₀ c → c.RootsInside := by
    intro c reached color hcolor id hid
    exact reached.member_lt created ((mem_conses_of_isRoot (Color.mem_roots.1 hcolor)).1 hid)
  refine ⟨fun c hroots hedges => ?_, hroots, fun past c run => ⟨hroots c run.reached,
    fun id x hx child hchild => run.child_lt created hx hchild⟩⟩
  obtain ⟨w, hw, hlisted, hhas⟩ := Store.reachable_spec fun _ => hedges.exists_slot hroots
  have hdistinct := Store.distinct_reachable hw
  refine ⟨w.found.toList, ?_, hdistinct.nodup, ?_, ?_⟩
  · unfold Collector.reachable
    rw [hw]
  · have hset : {id | id ∈ w.found.toList} = {id | c.store.Reaches id} := by
      ext id
      change id ∈ w.found.toList ↔ c.store.Reaches id
      rw [Array.mem_toList_iff, ← hlisted id, hhas]
    rw [hset]
    exact isLeast_reaches
  · -- found pairs and slots without a mark are all slots together
    have hcount := hdistinct.count
    rw [Array.length_toList]
    change w.found.size ≤ c.store.arena.totalSlots
    omega

/-- A pair that holds itself has lost its root and is held twice by another one; a third one holds
both and is free. -/
theorem reachable_isLeast_self_loop : ∃ past c, Run Op.LiveArgs manualTwo past c ∧
    c.roots = [⟨1⟩] ∧ c.conses .free = [⟨2⟩] ∧
    (∃ x, c.look ⟨0⟩ = some x ∧ x.children = [⟨0⟩]) ∧
    (∃ x, c.look ⟨1⟩ = some x ∧ x.children = [⟨0⟩, ⟨0⟩]) ∧
    ∃ found, c.reachable = .ok found ∧ found.Nodup ∧
      IsLeast {S | c.IsClosed S} {id | id ∈ found} ∧ found.length ≤ c.totalSlots := by
  have first := Run.start.live (.make .nil .nil) (by decide +kernel)
  have looped := first.live (.write ⟨0⟩ .cdr (.pair ⟨0⟩)) (by decide +kernel)
  have second := looped.live (.make (.pair ⟨0⟩) (.pair ⟨0⟩)) (by decide +kernel)
  have third := second.live (.make (.pair ⟨0⟩) (.pair ⟨1⟩)) (by decide +kernel)
  have unrooted := third.live (.unroot ⟨0⟩) (by decide +kernel)
  have unrooted' := unrooted.live (.unroot ⟨2⟩) (by decide +kernel)
  have scanned := unrooted'.live .step trivial
  have scanned' := scanned.live .step trivial
  have swapped := scanned'.live .step trivial
  obtain ⟨hreachable, -, hinside⟩ := reachable_isLeast create_manualTwo
  obtain ⟨hroots, hedges⟩ := hinside _ _ swapped
  exact ⟨_, _, swapped, by decide +kernel, by decide +kernel, by decide +kernel, by decide +kernel,
    hreachable _ hroots hedges⟩

end Collector

end ConsHeap
