import ConsHeap.Heap.Basic
import ConsHeap.Proofs.Collector.Runs
import ConsHeap.Proofs.SymbolTable

/-!
# Who owns what in a heap

Handles own roots, and cells own references to managed objects. `Heap.Owned H hs loose` says that
the books of a heap are right when `hs` are the cells of its handles and `loose` are cells that an
operation has copied and not yet stored:

* a pair has as many roots as there are handles of it;
* an object has as many references as there are fields, handles and loose cells that hold it;
* the symbol table is up to date with the symbols that are alive.

`Heap.Becomes H E hs loose H'` is the shape of all that is said about operations: the books of `H'`
are right, its pairs are those of the graph `E` or fewer, and no object of `H` was changed. The
books are kept by every operation of a collector (`Heap.Owned.performs`).
-/

namespace ConsHeap

theorem Cell.pair?_eq_some {cell : Cell} {id : PairId} :
    cell.pair? = some id ↔ cell = .pair id := by
  cases cell <;> simp [pair?]

theorem Cell.ne_pair {cell : Cell} (h : cell.pair? = none) (id : PairId) : .pair id ≠ cell := by
  rintro rfl
  exact absurd h (by simp [pair?])

theorem Cell.ne_managed {cell : Cell} (h : cell.managed? = none) (o : ObjectId) :
    .managed o ≠ cell := by
  rintro rfl
  exact absurd h (by simp [managed?])

namespace Heap

variable {H H' K : Heap} {E G : Graph} {hs hs' loose : Multiset Cell} {cell car cdr : Cell}
  {id : PairId} {n : Node} {o a : ObjectId} {m : Managed} {es : Array Event} {c c' : Collector}
  {op : Collector.Op} {reply : Collector.Reply} {side : Collector.Side} {name : String}

/-! ### The books -/

/-- The pairs in use. -/
def graph (H : Heap) : Graph :=
  H.collector.graph

/-- The handles `hs` and the loose cells `loose` own all roots, and all references but those of
fields. -/
structure Owned (H : Heap) (hs loose : Multiset Cell) : Prop where
  sound : H.collector.Sound
  roots : ∀ id, hs.count (.pair id) = H.graph.roots id
  balanced : H.collector.Balanced (hs + loose)
  tracks : H.symbols.Tracks H.objects

/-- A heap with other counts of objects. -/
def withObjects (H : Heap) (os : Objects) : Heap :=
  { H with collector := { H.collector with objects := os } }

/-- A cell that is in use: its pair is, or its object is alive. -/
def Has (H : Heap) : Cell → Prop
  | .pair id => ∃ n, H.graph id = some n
  | .managed o => 0 < H.objects.strong o
  | _ => True

theorem Has.isLive (h : H.Has cell) : ∀ child ∈ cell.pair?.toList, H.collector.IsLive child := by
  intro child hchild
  cases cell with
  | pair id =>
    obtain rfl := List.mem_singleton.1 hchild
    exact Collector.isLive_iff.2 h
  | _ => exact absurd hchild List.not_mem_nil

/-- What follows for a heap from an operation on it. -/
structure Becomes (H : Heap) (E : Graph) (hs loose : Multiset Cell) (H' : Heap) : Prop where
  owned : H'.Owned hs loose
  ident_eq : H'.ident = H.ident
  within : H'.graph.Within E
  value : ∀ {o m}, H.objects.value? o = some m → H'.objects.value? o = some m

theorem Owned.becomes (h : H.Owned hs loose) : H.Becomes H.graph hs loose H :=
  ⟨h, rfl, .refl _, fun hm => hm⟩

theorem Becomes.mono (h : H.Becomes E hs loose H') (hE : E.Within G) : H.Becomes G hs loose H' :=
  ⟨h.owned, h.ident_eq, h.within.trans hE, h.value⟩

/-- Of two operations in a row, the second one says what the graph is. -/
theorem Becomes.comp {hs' loose' : Multiset Cell} (h : H.Becomes E hs loose H')
    (h' : H'.Becomes G hs' loose' K) : H.Becomes G hs' loose' K :=
  ⟨h'.owned, h'.ident_eq.trans h.ident_eq, h'.within, fun hm => h'.value (h.value hm)⟩

theorem Becomes.trans {hs' loose' : Multiset Cell} (h : H.Becomes H.graph hs loose H')
    (h' : H'.Becomes H'.graph hs' loose' K) : H.Becomes H.graph hs' loose' K :=
  h.comp (h'.mono h.within)

namespace Owned

/-- The heap just created. -/
theorem create {opts : Options} (h : Heap.create opts = .ok H) : H.Owned 0 0 := by
  unfold Heap.create Collector.create at h
  split at h
  · exact absurd h (by simp [Except.map])
  · obtain rfl := Except.ok.inj h
    have hvalid := Options.problem?_eq_none.1 ‹_›
    exact ⟨.empty hvalid, fun _ => rfl, .empty hvalid, .empty _ Objects.strong_empty⟩

/-! ### What is in use -/

/-- What a handle or an operation holds is in use. -/
theorem has_of_mem (h : H.Owned hs loose) (hmem : cell ∈ hs) : H.Has cell := by
  cases cell with
  | pair id =>
    -- a handle of the pair is a root of it, and a pair that is not there has none
    have hroots := h.roots id
    have hpos := Multiset.count_pos.2 hmem
    unfold Graph.roots at hroots
    cases hn : H.graph id with
    | some n => exact ⟨n, hn⟩
    | none =>
      rw [hn, Option.elim_none] at hroots
      omega
  | managed o => exact h.balanced.strong_pos_of_mem (Multiset.mem_add.2 (.inl hmem))
  | _ => trivial

/-- A pair that a handle holds has a root color. -/
theorem look_of_mem (h : H.Owned hs loose) (hmem : .pair id ∈ hs) :
    ∃ x, H.collector.look id = some x ∧ x.color.isRoot = true := by
  obtain ⟨n, hn⟩ : ∃ n, H.graph id = some n := h.has_of_mem hmem
  obtain ⟨x, hx, -, rfl⟩ := Collector.graph_eq_some.1 hn
  refine ⟨x, hx, (h.sound.rooted hx).2 ?_⟩
  have hroots := h.roots id
  have hpos := Multiset.count_pos.2 hmem
  unfold Graph.roots at hroots
  rw [hn, Option.elim_some] at hroots
  change 0 < x.node.roots
  omega

/-- What a pair in use holds is in use. -/
theorem has_getNode (h : H.Owned hs loose) (hn : H.graph id = some n) (side : Collector.Side) :
    H.Has (side.getNode n) := by
  obtain ⟨x, hx, hl, rfl⟩ := Collector.graph_eq_some.1 hn
  cases hcell : side.getNode x.node with
  | pair child =>
    refine h.sound.graph_closed hn ?_
    unfold Node.children
    cases side with
    | car => rw [show x.node.car = _ from hcell]; exact List.mem_cons_self
    | cdr => rw [show x.node.cdr = _ from hcell]; exact List.mem_append_right _ List.mem_cons_self
  | managed o =>
    -- the field is counted, so the object has a reference
    have hheld := Store.holds_le_held hx o
    rw [Slot.holds_eq] at hheld
    refine h.balanced.strong_pos_of_held (Nat.lt_of_lt_of_le ?_ hheld)
    cases side with
    | car => rw [if_pos (show x.car = _ from hcell)]; omega
    | cdr => rw [if_pos (show x.cdr = _ from hcell)]; omega
  | _ => trivial

/-! ### Operations of the collector -/

/-- **What an operation of the collector does to the books.** It takes over the references of its
cells, and the handles afterwards are told by the roots that it leaves. -/
theorem performs (hs' : Multiset Cell) (h : H.Owned hs (op.cells + loose))
    (hp : H.collector.Performs op reply c')
    (hroots : ∀ id, hs'.count (.pair id) = (op.effect reply H.graph).roots id)
    (hcount : ∀ o, hs'.count (.managed o) = hs.count (.managed o)) :
    H.Becomes (op.effect reply H.graph) hs' loose { H with collector := c' } where
  owned :=
    { sound := hp.sound h.sound
      roots := fun id => (hroots id).trans ((hp.trims h.sound).roots_eq id).symm
      balanced := by
        have hcells : H.collector.Balanced (op.cells + (hs' + loose)) := by
          refine h.balanced.of_count fun o => ?_
          simp only [Multiset.count_add, hcount]
          omega
        exact hp.balanced h.sound hcells
      tracks := h.tracks.releases hp.releases }
  ident_eq := rfl
  within := (hp.trims h.sound).within
  value := fun hm => (hp.releases.value _).trans hm

/-- The collector's own work leaves the books as they are. -/
theorem upkeep (h : H.Owned hs loose) (hu : H.collector.Upkeep c') :
    H.Becomes H.graph hs loose { H with collector := c' } := by
  have hworked : H.collector.Performs .step .done c' := .of_upkeep rfl (fun _ => nofun) hu
  refine performs hs ?_ hworked h.roots fun _ => rfl
  rw [show Collector.Op.step.cells = 0 from rfl, zero_add]
  exact h

/-! ### Changes of objects alone -/

/-- Cells may change hands as long as every root and every reference has its owner. -/
theorem of_count {loose' : Multiset Cell} (h : H.Owned hs loose)
    (hpair : ∀ id, hs'.count (.pair id) = hs.count (.pair id))
    (hmanaged : ∀ o, (hs' + loose').count (.managed o) = (hs + loose).count (.managed o)) :
    H.Owned hs' loose' where
  sound := h.sound
  roots := fun id => (hpair id).trans (h.roots id)
  balanced := h.balanced.of_count hmanaged
  tracks := h.tracks

/-- What a change of objects alone must be shown to do. -/
theorem of_objects {loose' : Multiset Cell} {os : Objects} {t : SymbolTable}
    (h : H.Owned hs loose) (hpair : ∀ id, hs'.count (.pair id) = hs.count (.pair id))
    (hbalanced : ({ H.collector with objects := os } : Collector).Balanced (hs' + loose'))
    (hvalue : ∀ {o m}, H.objects.value? o = some m → os.value? o = some m)
    (htracks : t.Tracks os) :
    H.Becomes H.graph hs' loose' ⟨{ H.collector with objects := os }, t, H.ident⟩ where
  owned :=
    { sound := h.sound.withObjects os
      roots := fun id => (hpair id).trans (h.roots id)
      balanced := hbalanced
      tracks := htracks }
  ident_eq := rfl
  within := .refl _
  value := hvalue

/-- A cell is copied. -/
theorem acquire (h : H.Owned hs loose) (hcell : H.Has cell) :
    H.Becomes H.graph hs (cell ::ₘ loose) (H.withObjects (H.objects.acquire cell)) := by
  have halive : ∀ a, cell = .managed a → 0 < H.objects.strong a := by
    rintro a rfl
    exact hcell
  refine h.of_objects (fun _ => rfl) ?_ (fun hm => Objects.value?_acquire.trans hm)
    (h.tracks.acquire halive)
  rw [Multiset.add_cons]
  exact h.balanced.gain fun o =>
    Objects.strong_acquire fun a ha => Objects.lt_size_of_strong (halive a ha)

/-- A copy is given up. -/
theorem discard (h : H.Owned hs (cell ::ₘ loose)) :
    H.Becomes H.graph hs loose (H.withObjects (H.objects.discard cell)) := by
  refine h.of_objects (fun _ => rfl) (Collector.Balanced.discard ?_)
    (fun hm => Objects.value?_discard.trans hm) (h.tracks.releases (.discard _ _))
  rw [← Multiset.add_cons]
  exact h.balanced

/-- The copy of a cell that is no pair is all that its handle needs. -/
theorem adopt (h : H.Owned hs (cell ::ₘ loose)) (hcell : cell.pair? = none) :
    H.Owned (cell ::ₘ hs) loose := by
  refine h.of_count (fun id => Multiset.count_cons_of_ne (Cell.ne_pair hcell id) hs) fun o => ?_
  rw [Multiset.cons_add, Multiset.add_cons]

/-- The handle of a cell that is no pair is a copy of it. -/
theorem unadopt (h : H.Owned (cell ::ₘ hs) loose) (hcell : cell.pair? = none) :
    H.Owned hs (cell ::ₘ loose) := by
  refine h.of_count (fun id => (Multiset.count_cons_of_ne (Cell.ne_pair hcell id) hs).symm)
    fun o => ?_
  rw [Multiset.cons_add, Multiset.add_cons]

/-- Copies of pairs own nothing. -/
theorem cons_loose_pair : H.Owned hs (.pair id ::ₘ loose) ↔ H.Owned hs loose := by
  have hcount : ∀ o, (hs + (.pair id ::ₘ loose)).count (.managed o) =
      (hs + loose).count (.managed o) := by
    intro o
    rw [Multiset.add_cons, Multiset.count_cons_of_ne (by simp)]
  exact ⟨fun h => h.of_count (fun _ => rfl) fun o => (hcount o).symm,
    fun h => h.of_count (fun _ => rfl) hcount⟩

end Owned

end Heap

end ConsHeap
