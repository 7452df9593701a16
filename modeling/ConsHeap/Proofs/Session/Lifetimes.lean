import ConsHeap.Proofs.Heap.Custody
import ConsHeap.Proofs.Session.Accounting

/-!
# How long an object lives

A managed object lives exactly as long as a cell holds it. Cells are the fields of slots, the
handles of a session, and whatever cells a program keeps for itself. A field counts until its slot
is void again: a pair that was disposed of still owns what it holds (`Collector.fields`).

A `Program` is a session together with the cells that are kept outside of it. It may use handles, it
may work on the collector behind the back of the session, and it may do both in any order, so that
nothing is known of the roots of pairs. Still every reference is accounted for after each step that
ends without a fault (`Program.Step.keeps`), and so along every run (`Program.Run.keeps`). Then
`Program.Run.object_lifetimes` reads off the counts, and what the stages of a disposal do to them.
-/

namespace ConsHeap

/-! ### Fields -/

namespace Collector

variable {c c' : Collector} {id : PairId} {x : Slot} {es : Array Event} {a : ObjectId} {n : Nat}
  {cells : Multiset Cell}

/-- How many cars and cdrs of slots that are not void hold an object. -/
def fields (c : Collector) (a : ObjectId) : Nat :=
  ∑ n ∈ Finset.range c.totalSlots,
    ((c.slot (.ofNat n)).toOption.filter fun x => x.color ≠ .void).elim 0 fun x => x.holds a

/-- Void slots are blank, so all that slots hold is in fields. -/
theorem Sound.fields_eq (h : c.Sound) (a : ObjectId) : c.fields a = c.store.held a := by
  refine Finset.sum_congr rfl fun n _ => ?_
  cases hs : c.slot (.ofNat n) with
  | error f =>
    have hnone : c.store.look (.ofNat n) = none := by
      refine Option.eq_none_iff_forall_ne_some.2 fun x hx => ?_
      obtain ⟨s, hs', -⟩ := slot_of_look hx
      rw [hs] at hs'
      exact absurd hs' nofun
    rw [hnone]
    rfl
  | ok x =>
    rw [show c.store.look (.ofNat n) = _ from look_of_slot hs]
    by_cases hc : x.color = .void
    · -- a void slot is not asked, and it is blank
      obtain rfl := h.eq_blank_of_void hs hc
      exact (Slot.holds_blank a).symm
    · have hkeep : (Except.ok x : Except Fault Slot).toOption.filter (fun x => x.color ≠ .void) =
          some x := Option.filter_eq_some_iff.2 ⟨rfl, decide_eq_true hc⟩
      rw [hkeep]
      rfl

/-- The references of an object are the fields and the outside cells that hold it. -/
theorem Balanced.strong_eq (hb : c.Balanced cells) (h : c.Sound) (a : ObjectId) :
    c.objects.strong a = c.fields a + cells.count (.managed a) := by
  rw [h.fields_eq]
  exact hb a

/-! ### The stages of a disposal -/

/-- **A swap releases nothing**: what it disposes of goes on holding what it held. -/
theorem Swapped.fields_eq (hs : c.Swapped n c') (h : c.Sound) :
    c'.objects = c.objects ∧ ∀ a, c'.fields a = c.fields a := by
  refine ⟨by rw [hs.frame], fun a => ?_⟩
  rw [(hs.sound h).fields_eq, h.fields_eq]
  exact hs.store.held_eq a

/-- **A recycled slot releases its fields**, and no others. -/
theorem Recycled.strong_eq (hs : c.Recycled id x c') (h : c.Sound) (hb : c.Balanced cells)
    (a : ObjectId) : c'.objects.strong a + x.holds a = c.objects.strong a := by
  have hheld : c'.store.held a + x.holds a = c.store.held a := by
    rw [hs.held_eq]
    exact held_returned h.store hs.look_eq a
  -- the counts follow the fields, and the outside cells are the same
  calc c'.objects.strong a + x.holds a
      = c'.store.held a + cells.count (.managed a) + x.holds a := by
        rw [hs.balanced hb h.store a]
    _ = c'.store.held a + x.holds a + cells.count (.managed a) := Nat.add_right_comm _ _ _
    _ = c.objects.strong a := by rw [hheld, hb a]

/-- A recycled slot is blank. -/
theorem Recycled.slot_eq (hs : c.Recycled id x c') (h : c.Sound) : c'.slot id = .ok {} := by
  have hlook : c'.look id = some {} := by rw [hs.look_eq_ite, if_pos rfl]
  obtain ⟨y, hy, he⟩ := slot_of_look hlook
  rw [hy, (hs.sound h).eq_blank_of_void hy (congrArg Slot.color he)]

/-- After a full cycle only reachable pairs have fields. -/
theorem Cycled.reachable_of_slot (hs : c.Cycled n c') (h : c.Sound) (hx : c'.slot id = .ok x)
    (hc : x.color ≠ .void) : c'.graph.Reachable id := by
  rw [(hs.trims h).reachable_iff]
  rcases hs.look_cases (look_of_slot hx) with ⟨-, y, -, hid, -⟩ | hblank
  · exact hid
  · exact absurd (congrArg Slot.color hblank) hc

end Collector

/-! ### Programs -/

/-- A session, and the cells that its program keeps outside of it. -/
structure Program where
  session : Session
  kept : Multiset Cell := 0

namespace Program

variable {p q : Program} {H : Heap} {s : Session} {cells : Multiset Cell} {o : Options}
  {a : ObjectId} {m : Managed} {es : Array Event}

/-- The heap that a program works on. -/
def heap (p : Program) : Heap :=
  p.session.heap

def collector (p : Program) : Collector :=
  p.heap.collector

def objects (p : Program) : Objects :=
  p.heap.objects

/-- All cells that are not fields: those of the handles, and those kept outside. -/
def outside (p : Program) : Multiset Cell :=
  p.session.cells + p.kept

/-- One step of a program that ends without a fault. Whatever is done to the collector takes over
the cells that it is given. A cell can be copied while its object is alive. -/
inductive Step : Program → Program → Prop where
  | handles {s s' : Session} {cells : Multiset Cell} {op : Session.Op}
    {reply : Option Session.Reply} {es es' : Array Event}
    (done : Session.perform op ⟨s, es⟩ = .ok reply ⟨s', es'⟩) : Step ⟨s, cells⟩ ⟨s', cells⟩
  | collector {s : Session} {cells : Multiset Cell} {op : Collector.Op} {reply : Collector.Reply}
    {c' : Collector} {es es' : Array Event}
    (done : Collector.perform op ⟨s.heap.collector, es⟩ = .ok reply ⟨c', es'⟩) :
    Step ⟨s, op.cells + cells⟩ ⟨{ s with heap := { s.heap with collector := c' } }, cells⟩
  /-- The amounts of work that events pay for are changed. -/
  | pace {s : Session} {cells : Multiset Cell} (g r : Nat) : Step ⟨s, cells⟩
      ⟨{ s with heap := { s.heap with collector := s.heap.collector.paced g r } }, cells⟩
  | alloc {s : Session} {cells : Multiset Cell} (m : Managed) : Step ⟨s, cells⟩
      ⟨{ s with heap := s.heap.withObjects (s.heap.objects.alloc m).2 },
        .managed (s.heap.objects.alloc m).1 ::ₘ cells⟩
  | copy {s : Session} {cells : Multiset Cell} {cell : Cell}
    (alive : ∀ a, cell = .managed a → s.heap.objects.isLive a = true) : Step ⟨s, cells⟩
      ⟨{ s with heap := s.heap.withObjects (s.heap.objects.acquire cell) }, cell ::ₘ cells⟩
  | discard {s : Session} {cells : Multiset Cell} {cell : Cell} : Step ⟨s, cell ::ₘ cells⟩
      ⟨{ s with heap := s.heap.withObjects (s.heap.objects.discard cell) }, cells⟩

/-- A program is reached from `p` by steps that end without a fault. -/
inductive Run (p : Program) : Program → Prop where
  | start : Run p p
  | step {q r : Program} (run : Run p q) (next : Step q r) : Run p r

end Program

/-! ### Handles -/

namespace Session

variable {s s' : Session} {cells : Multiset Cell} {i : Int} {f : Handle} {op : Op}
  {es : Array Event}

/-- What follows for a session from an operation on it, when `cells` are kept outside. -/
def Keeps (s : Session) (cells : Multiset Cell) (s' : Session) : Prop :=
  s.heap.Keeps (s'.cells + cells) s'.heap

/-- An operation that makes a handle. -/
theorem made_keeps {a : Action Heap Handle} (ha : a.Leaves ⟨s.heap, es⟩ fun r m =>
      s.heap.Keeps (r.cell ::ₘ (s.cells + cells)) m.state) :
    (do keepMade (← onHeap a) : Action Session Reply).Leaves ⟨s, es⟩
      fun _ u => s.Keeps cells u.state := by
  rw [Action.leaves_bind, leaves_onHeap]
  exact ha.mono fun _ _ hm => (keepMade_cells (P := s.heap.Keeps) hm).leaves

theorem made_keeps_some {a : Action Heap Handle} (ha : a.Leaves ⟨s.heap, es⟩ fun r m =>
      s.heap.Keeps (r.cell ::ₘ (s.cells + cells)) m.state) :
    (do return some (← keepMade (← onHeap a)) : Action Session (Option Reply)).Leaves ⟨s, es⟩
      fun _ u => s.Keeps cells u.state := by
  rw [← bind_assoc]
  exact leaves_some (made_keeps ha)

/-- An operation that finds a handle or nothing. -/
theorem found_keeps {a : Action Heap (Option Handle)} (ha : a.Leaves ⟨s.heap, es⟩ fun r m =>
      s.heap.Keeps (r.elim (s.cells + cells) fun g => g.cell ::ₘ (s.cells + cells)) m.state) :
    (do keepFound (← onHeap a) : Action Session Reply).Leaves ⟨s, es⟩
      fun _ u => s.Keeps cells u.state := by
  rw [Action.leaves_bind, leaves_onHeap]
  exact ha.mono fun _ _ hm => (keepFound_cells (P := s.heap.Keeps) hm).leaves

/-- An operation that allocates. -/
theorem allocated_keeps {a : Action Heap (Except HeapError Handle)}
    (ha : a.Leaves ⟨s.heap, es⟩ fun r m =>
      match r with
      | .ok g => s.heap.Keeps (g.cell ::ₘ (s.cells + cells)) m.state
      | .error _ => s.heap.Keeps (s.cells + cells) m.state) :
    (do keep (← onHeap a) : Action Session Reply).Leaves ⟨s, es⟩
      fun _ u => s.Keeps cells u.state := by
  rw [Action.leaves_bind, leaves_onHeap]
  exact ha.mono fun _ _ hm => (keep_cells (P := s.heap.Keeps) hm).leaves

/-- An operation that makes no handle. -/
theorem kept_keeps {α β : Type} {a : Action Heap α} {reply : α → β}
    (ha : a.Leaves ⟨s.heap, es⟩ fun _ m => s.heap.Keeps (s.cells + cells) m.state) :
    (do return reply (← onHeap a) : Action Session β).Leaves ⟨s, es⟩
      fun _ u => s.Keeps cells u.state := by
  rw [Action.leaves_bind, leaves_onHeap]
  exact ha.mono fun _ m hm => Action.leaves_pure.2 hm

/-- An operation that takes a handle out of the table and gives it up. -/
theorem given_up_keeps {a : Action Heap Unit} {r : Reply} (hf : s.handle? i = some f)
    (ha : ∀ hs, s.cells = f.cell ::ₘ hs →
      a.Leaves ⟨s.heap, es⟩ fun _ m => s.heap.Keeps (hs + cells) m.state) :
    (do clear i; onHeap a; return r : Action Session Reply).Leaves ⟨s, es⟩
      fun _ u => s.Keeps cells u.state := by
  obtain ⟨n, hi, hn⟩ := handle?_eq_some.1 hf
  refine Action.Yields.bind_leaves ((yields_clear hi).2 ?_)
  rw [Action.leaves_bind, leaves_onHeap]
  refine (ha _ (cells_set (H := s.heap) hn)).mono fun _ m hm => ?_
  exact Action.leaves_pure.2 hm

/-- **Every operation on handles keeps the books right**, if it ends. -/
theorem perform_keeps (h : s.heap.Kept (s.cells + cells)) :
    (perform op).Leaves ⟨s, es⟩ fun _ u => s.Keeps cells u.state := by
  have hnone : s.Keeps cells s := h.keeps
  have howner : ∀ {i f}, s.handle? i = some f → f.cell ∈ s.cells + cells :=
    fun hf => Multiset.mem_add.2 (.inl (mem_cells hf))
  cases op with
  -- values that are not pairs bring a reference at most
  | nil => exact made_keeps_some (h.adopt rfl)
  | integer value => exact made_keeps_some (h.adopt rfl)
  | symbol name => exact made_keeps_some (h.symbol name)
  | string text => exact made_keeps_some (h.string text)
  | cons i j =>
    exact leaves_withTwo hnone fun f g hf hg => allocated_keeps (h.cons (howner hf) (howner hg))
  | list is =>
    -- the list takes copies of the cells of its items
    refine leaves_withHandles hnone fun fs hfs => allocated_keeps (h.list fs fun f hf => ?_)
    exact Multiset.mem_add.2 (.inl (mem_cells_of_handles? hfs hf))
  | clone i => exact leaves_withHandle hnone fun f hf => made_keeps (h.clone (howner hf))
  | get i side => exact leaves_withHandle hnone fun f _ => found_keeps h.get
  | objectOf i =>
    refine leaves_withHandle hnone fun f hf => made_keeps ?_
    -- the cell is copied first, and the handle is made for the copy
    rw [Action.leaves_bind]
    refine (h.cellOf (howner hf)).mono fun cell m hm => ?_
    obtain ⟨rfl, hm⟩ := hm
    exact hm.kept.object.mono fun r u hu => hm.trans hu
  | objectAt id => exact made_keeps_some ((Heap.Kept.cons_iff rfl).2 h).object
  | set i side j =>
    -- what was stored before gives up its reference
    exact leaves_withTwo hnone fun f g _ hg => kept_keeps (h.set (howner hg))
  | unset i side => exact leaves_withHandle hnone fun f _ => kept_keeps h.unset
  | drop i =>
    -- the cell of the handle is given up, and its root if there is one
    refine leaves_withHandle hnone fun f hf => given_up_keeps hf fun hs hcells => ?_
    rw [hcells, Multiset.cons_add] at h
    exact h.drop
  | dropUnwinding i collectorInUse =>
    refine leaves_withHandle hnone fun f hf => given_up_keeps hf fun hs hcells => ?_
    rw [hcells, Multiset.cons_add] at h
    exact h.dropUnwinding collectorInUse
  | collect => exact kept_keeps h.collect

end Session

namespace Program

variable {p q : Program} {H : Heap} {s : Session} {cells : Multiset Cell} {o : Options}
  {a : ObjectId} {m : Managed} {es : Array Event}

/-! ### The books along a run -/

/-- **A step keeps the books right**, and brings no object back. -/
theorem Step.keeps (hstep : Step p q) (h : p.heap.Kept p.outside) :
    p.heap.Keeps q.outside q.heap := by
  cases hstep with
  | handles done => exact Session.perform_keeps h _ _ done
  | @collector s cells op =>
    -- what was kept outside is handed over to the collector
    rename_i done
    have hgiven : s.heap.Kept (op.cells + (s.cells + cells)) := by
      rw [add_left_comm]
      exact h
    exact hgiven.perform done
  | pace g r => exact ⟨⟨h.sound.paced g r, h.balanced⟩, .refl _⟩
  | @alloc s cells m =>
    have halloc : s.heap.Keeps (_ ::ₘ (s.cells + cells)) _ := Heap.Kept.alloc h m
    rw [← Multiset.add_cons] at halloc
    exact halloc
  | @copy s cells cell alive =>
    have hcopy : s.heap.Keeps (cell ::ₘ (s.cells + cells)) _ :=
      Heap.Kept.copy h fun a ha => of_decide_eq_true (alive a ha)
    rw [← Multiset.add_cons] at hcopy
    exact hcopy
  | @discard s cells cell =>
    have hgiven : s.heap.Kept (cell ::ₘ (s.cells + cells)) := by
      rw [← Multiset.add_cons]
      exact h
    exact hgiven.release

/-- The books are right along every run. -/
theorem Run.keeps (run : Run p q) (h : p.heap.Kept p.outside) :
    p.heap.Keeps q.outside q.heap := by
  induction run with
  | start => exact h.keeps
  | step _ next ih => exact ih.trans (next.keeps ih.kept)

/-- At the beginning there is nothing to account for. -/
theorem Run.keeps_of_create (created : Heap.create o = .ok H)
    (run : Run { session := { heap := H } } p) : p.heap.Kept p.outside := by
  have hstart : H.Kept 0 := .create created
  exact (run.keeps (p := { session := { heap := H } }) hstart).kept

/-! ### Lifetimes -/

/-- **A managed object lives exactly as long as a cell holds it.** In every state that a program
reaches by steps that end without a fault, the strong count of an object is the number of fields of
slots that are not void and of cells outside that hold it, and the object is alive exactly when
there are any; an object that is dead stays dead. A swap of the generations releases nothing. A
recycled slot was free, and releases what its two fields held. After a full cycle the fields that
count are those of reachable pairs. -/
theorem Run.object_lifetimes (created : Heap.create o = .ok H)
    (run : Run { session := { heap := H } } p) :
    (∀ a, p.objects.strong a = p.collector.fields a + p.outside.count (.managed a)) ∧
    (∀ a, p.objects.isLive a = true ↔ 0 < p.collector.fields a + p.outside.count (.managed a)) ∧
    (∀ q a m, Run p q → p.objects.value? a = some m → p.objects.isLive a = false →
      q.objects.isLive a = false) ∧
    ∀ es,
      (Collector.step.Yields ⟨p.collector, es⟩ fun r u => ∀ n, r = .swapped n →
        u.state.objects = p.objects ∧ ∀ a, u.state.fields a = p.collector.fields a) ∧
      (Collector.recycle.Yields ⟨p.collector, es⟩ fun r u => ∀ id, r = some id →
        ∃ x, p.collector.slot id = .ok x ∧ x.color = .free ∧ u.state.slot id = .ok {} ∧
          ∀ a, u.state.objects.strong a + x.holds a = p.objects.strong a) ∧
      Collector.cycle.Yields ⟨p.collector, es⟩ fun _ u =>
        (∀ id x, u.state.slot id = .ok x → x.color ≠ .void → u.state.graph.Reachable id) ∧
          ∀ a, u.state.objects.strong a = u.state.fields a + p.outside.count (.managed a) := by
  have h : p.heap.Kept p.outside := run.keeps_of_create created
  have hc : p.collector.Sound := h.sound
  have hstrong : ∀ a, p.objects.strong a =
      p.collector.fields a + p.outside.count (.managed a) := h.balanced.strong_eq hc
  refine ⟨hstrong, fun a => ?_, fun q a m hlater hvalue hdead => ?_, fun es => ⟨?_, ?_, ?_⟩⟩
  · have halive : p.objects.isLive a = true ↔ 0 < p.objects.strong a := decide_eq_true_iff
    rw [halive, hstrong]
  · -- an object that has lost all its references gets none again
    have hzero : p.objects.strong a = 0 := by
      have hnot := of_decide_eq_false hdead
      omega
    have hlater' : q.objects.strong a = 0 := (hlater.keeps h).ages.dead hvalue hzero
    exact decide_eq_false (by omega)
  · refine hc.step.mono fun r u hu n hr => ?_
    rw [hr] at hu
    exact hu.1.fields_eq hc
  · refine (Collector.Sound.recycle hc.store).mono fun r u hu id hr => ?_
    rw [hr] at hu
    obtain ⟨x, hs, -⟩ := hu
    obtain ⟨y, hy, rfl⟩ := Collector.slot_of_look hs.look_eq
    exact ⟨y, hy, hs.color_eq, hs.slot_eq hc, hs.strong_eq hc h.balanced⟩
  · refine hc.cycle.mono fun n u hu => ⟨fun id x hx hcolor => ?_, fun a => ?_⟩
    · exact hu.reachable_of_slot hc hx hcolor
    · exact (hu.balanced _ h.balanced).strong_eq (hu.sound hc) a

/-! ### Runs that can be computed -/

/-- Whether an operation on handles ends. -/
def ends (p : Program) (op : Session.Op) : Bool :=
  match Session.perform op ⟨p.session, #[]⟩ with
  | .ok _ _ => true
  | .error _ _ => false

/-- A run goes on with every operation on handles that ends. -/
theorem Run.handles (run : Run q p) (op : Session.Op) (hends : p.ends op = true) :
    Run q ⟨p.session.after op #[], p.kept⟩ := by
  apply run.step
  unfold Session.after
  unfold ends at hends
  cases hdone : Session.perform op ⟨p.session, #[]⟩ with
  | ok reply u => exact .handles hdone
  | error f u =>
    rw [hdone] at hends
    exact absurd hends Bool.false_ne_true

/-- A run goes on with an operation of the collector that ends, on cells that the program keeps. -/
theorem Run.collector {reply : Collector.Reply} {c' : Collector} {es' : Array Event}
    (run : Run q p) (op : Collector.Op) (cells : Multiset Cell) (hgiven : p.kept = op.cells + cells)
    (hdone : Collector.perform op ⟨p.collector, #[]⟩ = .ok reply ⟨c', es'⟩) :
    Run q ⟨{ p.session with heap := { p.heap with collector := c' } }, cells⟩ := by
  obtain ⟨s, kept⟩ := p
  obtain rfl : kept = op.cells + cells := hgiven
  exact run.step (.collector hdone)

/-- A pair holds a string twice, and one of the fields is overwritten by a copy of the same string.
When all handles are gone, the string lives in the fields of the pair that is left, until a full
cycle takes that away. -/
theorem object_lifetimes_string : ∃ p, Run { session := { heap := { collector :=
      Collector.manualTwo } } } p ∧
    p.outside.count (.managed ⟨0⟩) = 0 ∧ p.collector.fields ⟨0⟩ = 2 ∧
    p.objects.strong ⟨0⟩ = p.collector.fields ⟨0⟩ + p.outside.count (.managed ⟨0⟩) ∧
    Collector.cycle.Yields ⟨p.collector, #[]⟩ fun _ u =>
      (∀ id x, u.state.slot id = .ok x → x.color ≠ .void → u.state.graph.Reachable id) ∧
        ∀ a, u.state.objects.strong a = u.state.fields a + p.outside.count (.managed a) := by
  have created : Heap.create (.manual 2) = .ok { collector := Collector.manualTwo } := rfl
  have text : Run { session := { heap := { collector := Collector.manualTwo } } } _ :=
    Run.handles .start (.string "hello") (by decide +kernel)
  have pair := text.handles (.cons 0 0) (by decide +kernel)
  have copied := pair.step (.copy fun a (ha : .managed ⟨0⟩ = Cell.managed a) => by
    obtain rfl := Cell.managed.inj ha
    decide +kernel)
  have written := copied.collector (.write ⟨0⟩ .cdr (.managed ⟨0⟩)) 0 rfl rfl
  have dropped := written.handles (.drop 0) (by decide +kernel)
  have dropped' := dropped.handles (.drop 1) (by decide +kernel)
  obtain ⟨hstrong, -, -, hstages⟩ := Run.object_lifetimes created dropped'
  exact ⟨_, dropped', by decide +kernel, by decide +kernel, hstrong ⟨0⟩, (hstages #[]).2.2⟩

end Program

end ConsHeap
