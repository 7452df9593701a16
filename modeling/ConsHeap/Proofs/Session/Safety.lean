import ConsHeap.Proofs.Session.Accounting

/-!
# What a program that keeps to handles can run into

A handle owns a root, so whatever an operation on handles asks of the collector is in order: the
pairs of its operands are rooted, what they hold is in use, and a root that is released was there.
Two things are left that it can run into. A root count may be at its largest, which takes more
handles than a table can be expected to have (`Session.Accounted.rootCount_lt`); and a program may
ask for a handle on a pair that it names by a bare id.

* `Session.admits_iff` — with room for roots, an operation can be done unless it names a pair by its
  id and that pair is not in use;
* `Session.Run.refused_only_objectAt` — so this is the only operation that faults, and it has
  changed nothing when it does.
-/

namespace ConsHeap

namespace Session

variable {H : Heap} {s : Session} {leaked : Multiset PairId} {op : Op} {cell : Cell} {o : Options}
  {id : PairId} {x : Slot}

/-! ### Room for roots -/

/-- A pair has no more roots than there are entries in the table and roots left behind. -/
theorem Accounted.rootCount_lt (h : Accounted leaked s) {bound : Nat}
    (hsize : s.handles.size + leaked.card < bound) (hx : s.heap.slot id = .ok x) :
    x.rootCount < bound := by
  have hholders : s.holders id ≤ s.handles.size := by
    unfold holders
    rw [← Array.length_toList]
    exact List.countP_le_length
  have hleaked : leaked.count id ≤ leaked.card := Multiset.count_le_card id leaked
  calc x.rootCount = s.heap.graph.roots id := ((Heap.Owned.sound h).roots_eq hx).symm
    _ = s.holders id + leaked.count id := h.roots_eq
    _ ≤ s.handles.size + leaked.card := Nat.add_le_add hholders hleaked
    _ < bound := hsize

/-- There is room for a root wherever no root count is at its largest. -/
theorem room_of_rootCount_lt
    (hroom : ∀ id x, s.heap.slot id = .ok x → x.rootCount < Collector.maxRoots) :
    s.heap.Room cell := by
  intro id n _ hn
  obtain ⟨x, hx, -⟩ := Heap.slot_of_graph hn
  rw [← Heap.rootCount_of_graph hx hn]
  exact hroom id x hx

/-- **What cannot be done**, as long as there is room for roots, is to make a handle of a pair that
is not in use. -/
theorem admits_iff (hroom : ∀ id x, s.heap.slot id = .ok x → x.rootCount < Collector.maxRoots) :
    s.Admits op ↔ ∀ id, op = .objectAt id → s.heap.collector.IsLive id := by
  have hall : ∀ cell, s.heap.Room cell := fun _ => room_of_rootCount_lt hroom
  cases op with
  | objectAt id =>
    -- the only operation whose pair is not one of a handle
    constructor
    · intro hadm j hj
      obtain rfl := Op.objectAt.inj hj
      exact Collector.isLive_iff.2 hadm.1
    · intro hlive
      exact ⟨Collector.isLive_iff.1 (hlive id rfl), hall _⟩
  | clone => exact iff_of_true (fun _ _ => hall _) nofun
  | objectOf => exact iff_of_true (fun _ _ => hall _) nofun
  | get => exact iff_of_true (fun _ _ _ _ _ _ => hall _) nofun
  | _ => exact iff_of_true trivial nofun

/-! ### Runs -/

/-- An operation that can be done ends, and what it leaves is reached by one more operation. -/
theorem Accounted.yields_run {s₀ : Session} (h : Accounted leaked s) (run : Run s₀ leaked s)
    (hadm : s.Admits op) (es : Array Event) :
    (perform op).Yields ⟨s, es⟩ fun _ u => Run s₀ (leaked + s.leaks op) u.state := by
  have hok : (perform op).Yields ⟨s, es⟩ fun _ _ => True := by
    by_cases hop : ∀ i, op ≠ .dropUnwinding i true
    · exact (h.yields hop hadm).mono fun _ _ _ => trivial
    · -- a drop that leaks a root ends as well
      push Not at hop
      obtain ⟨i, rfl⟩ := hop
      exact h.leak.mono fun _ _ _ => trivial
  obtain ⟨r, u, hu, -⟩ := hok
  have hnext := run.perform op es
  unfold Session.after at hnext
  rw [hu] at hnext
  exact ⟨r, u, hu, hnext⟩

/-- **Handles discharge what the collector relies on.** Take a program that keeps to handles and
pairs named by bare ids, at any point of its run, and let no root count be at its largest. Every
operation ends without a fault, except to make a handle of a pair that is not in use. That one
always faults, and leaves the heap, the table and everything else as they were. The cell of a handle
can always be read: its pair is never found unrooted. -/
theorem Run.refused_only_objectAt (created : Heap.create o = .ok H)
    (run : Run { heap := H } leaked s)
    (hroom : ∀ id x, s.heap.slot id = .ok x → x.rootCount < Collector.maxRoots) :
    (∀ op es, (∀ id, op = .objectAt id → s.heap.collector.IsLive id) →
      (Session.perform op).Yields ⟨s, es⟩
        fun _ u => Run { heap := H } (leaked + s.leaks op) u.state) ∧
    (∀ id es, ¬s.heap.collector.IsLive id →
      (Session.perform (.objectAt id)).Refuses ⟨s, es⟩) ∧
    ∀ i f es, s.handle? i = some f →
      (Heap.cellOf f).Yields ⟨s.heap, es⟩ fun cell _ => cell = f.cell := by
  have h : Accounted leaked s := run.accounted (.create created)
  refine ⟨fun op es hlive => ?_, fun id es hdead => ?_, fun i f es hf => ?_⟩
  · exact h.yields_run run ((admits_iff hroom).2 hlive) es
  · apply h.refuses
    intro hadm
    exact hdead ((admits_iff hroom).1 hadm id rfl)
  · have howned : s.heap.Owned (s.cells + leaked.map .pair) 0 := h
    exact (howned.cellOf (mem_owners hf)).mono fun _ _ hm => hm.1

/-- A program holds a pair, has been refused a handle of one that was never allocated, and asks for
both again. -/
theorem refused_only_objectAt_unallocated : ∃ leaked s,
    Run { heap := { collector := Collector.manualTwo } } leaked s ∧
      (perform (.objectAt ⟨0⟩)).Yields ⟨s, #[]⟩ (fun _ u =>
        Run { heap := { collector := Collector.manualTwo } }
          (leaked + s.leaks (.objectAt ⟨0⟩)) u.state) ∧
      (perform (.objectAt ⟨5⟩)).Refuses ⟨s, #[]⟩ ∧
      ∀ f, s.handle? 1 = some f →
        (Heap.cellOf f).Yields ⟨s.heap, #[]⟩ fun cell _ => cell = f.cell := by
  have created : Heap.create (.manual 2) = .ok { collector := Collector.manualTwo } := rfl
  have value : Run { heap := { collector := Collector.manualTwo } } _ _ :=
    Run.start.perform (.integer 7) #[]
  have made := value.perform (.cons 0 0) #[]
  have refused := made.perform (.objectAt ⟨5⟩) #[]
  have haccounted := refused.accounted (.create created)
  obtain ⟨hyields, hrefuses, hcell⟩ := Run.refused_only_objectAt created refused fun id x hx =>
    haccounted.rootCount_lt (by decide +kernel) hx
  refine ⟨_, _, refused, hyields _ _ ?_, hrefuses _ _ (by decide +kernel), fun f => hcell 1 f #[]⟩
  intro id hid
  obtain rfl := Op.objectAt.inj hid
  decide +kernel

end Session

end ConsHeap
