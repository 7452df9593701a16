import ConsHeap.Proofs.Collector.Exactness
import ConsHeap.Proofs.Heap.Lists
import ConsHeap.Proofs.Heap.Refusals
import ConsHeap.Proofs.Session.Table

/-!
# Every root has its owner

A program that keeps to handles never leaves a root without an owner: after every operation, whether
it ended or was refused, the root count of a pair is the number of living handles of it, and of the
handles of it that were given up while the collector was in use. The latter are the only leak
(`Session.leaks`). So when nothing has leaked, and all handles are gone, a collection leaves no
pair.

`Session.Accounted leaked s` is the invariant: the books of the heap are right when its owners are
the living handles and the leaked roots. What an operation of the heap does to the books is known
from `Heap.Owned`; here it is put together with what the operation does to the table
(`Session.Accounted.after`), and with that the invariant holds along every run.
-/

namespace ConsHeap

namespace Session

variable {H : Heap} {s s₀ : Session} {leaked : Multiset PairId} {hs : Multiset Cell} {i : Int}
  {is : List Int} {n : Nat} {id : PairId} {f : Handle} {fs : List Handle} {e : Option Handle}
  {op : Op} {es : Array Event} {o : Options} {cell : Cell}

/-! ### Runs of operations on handles -/

/-- The roots that an operation leaves behind. A handle that is given up while the collector is in
use cannot release its root. -/
def leaks (s : Session) : Op → Multiset PairId
  | .dropUnwinding i true => ((s.handle? i).bind fun f => f.cell.pair?).elim 0 fun id => {id}
  | _ => 0

/-- The state after an operation, whether it ended or faulted. -/
def after (s : Session) (op : Op) (es : Array Event) : Session :=
  match perform op ⟨s, es⟩ with
  | .ok _ u | .error _ u => u.state

/-- `s` is reached from `s₀` by operations on handles, some of which may have failed or faulted, and
`leaked` are the roots that were left behind on the way. -/
inductive Run (s₀ : Session) : Multiset PairId → Session → Prop where
  | start : Run s₀ 0 s₀
  | perform {leaked : Multiset PairId} {s : Session} (run : Run s₀ leaked s) (op : Op)
    (es : Array Event) : Run s₀ (leaked + s.leaks op) (s.after op es)

/-- The number of living handles of a pair. -/
def holders (s : Session) (id : PairId) : Nat :=
  s.handles.toList.countP fun e => e.any fun f => f.cell = .pair id

/-! ### The cells of the living handles -/

/-- What the handles of the table hold, each as often as it is held. -/
def cells (s : Session) : Multiset Cell :=
  ↑(s.handles.toList.reduceOption.map Handle.cell)

theorem count_cells : s.cells.count (.pair id) = s.holders id := by
  unfold cells holders
  -- entry by entry: an empty one is counted on neither side
  induction s.handles.toList with
  | nil => rfl
  | cons e T ih =>
    rw [Multiset.coe_count] at ih ⊢
    cases e with
    | none =>
      rw [List.reduceOption_cons_of_none, ih, List.countP_cons_of_neg (by simp)]
    | some f =>
      rw [List.reduceOption_cons_of_some, List.map_cons, List.count_cons, ih, List.countP_cons]
      simp

theorem mem_cells_iff : cell ∈ s.cells ↔ ∃ f, some f ∈ s.handles ∧ f.cell = cell := by
  unfold cells
  rw [Multiset.mem_coe, List.mem_map]
  simp only [List.reduceOption_mem_iff, Array.mem_toList_iff]

/-- The handle of an entry is one of the living handles. -/
theorem mem_cells (hf : s.handle? i = some f) : f.cell ∈ s.cells := by
  obtain ⟨n, -, hn⟩ := handle?_eq_some.1 hf
  rw [← Array.getElem?_toList] at hn
  exact List.mem_map_of_mem (List.reduceOption_mem_iff.2 (List.mem_of_getElem? hn))

theorem mem_cells_of_handles? (hfs : s.handles? is = some fs) (hf : f ∈ fs) : f.cell ∈ s.cells := by
  obtain ⟨i, hi⟩ := exists_of_handles? hfs hf
  exact mem_cells hi

/-- A new entry. -/
theorem cells_push : ({ s with heap := H, handles := s.handles.push e } : Session).cells =
    e.elim s.cells fun f => f.cell ::ₘ s.cells := by
  unfold cells
  rw [Array.toList_push, List.reduceOption_append, List.map_append, ← Multiset.coe_add]
  cases e with
  | none => exact add_zero _
  | some f => exact add_comm _ _

/-- An entry emptied. -/
theorem cells_set (hn : s.handles[n]? = some (some f)) :
    s.cells = f.cell ::ₘ
      ({ s with heap := H, handles := s.handles.setIfInBounds n none } : Session).cells := by
  rw [← Array.getElem?_toList] at hn
  unfold cells
  rw [← Multiset.map_coe, reduceOption_set hn, Multiset.map_cons, Array.toList_setIfInBounds]
  rfl

/-! ### The invariant -/

/-- The living handles and the leaked roots own all roots, and nothing is loose. -/
def Accounted (leaked : Multiset PairId) (s : Session) : Prop :=
  s.heap.Owned (s.cells + leaked.map .pair) 0

theorem Accounted.create (created : Heap.create o = .ok H) : Accounted 0 { heap := H } := by
  have howned : H.Owned 0 0 := Heap.Owned.create created
  exact howned

/-- The pair of a living handle is rooted, so where what is reachable is kept, it is with its
roots. -/
theorem Accounted.rootCount_of_keeps {K : Heap} (h : Accounted leaked s)
    (hsound : K.collector.Sound) (hk : s.heap.graph.Keeps K.graph) (hf : some f ∈ s.handles) :
    K.rootCount f = s.heap.rootCount f := by
  unfold Heap.rootCount
  cases hp : f.cell.pair? with
  | none => rfl
  | some id =>
    have hmem : .pair id ∈ s.cells + leaked.map .pair :=
      Multiset.mem_add.2 (.inl (mem_cells_iff.2 ⟨f, hf, Cell.pair?_eq_some.1 hp⟩))
    obtain ⟨x, hx, hr⟩ := Heap.Owned.look_of_mem h hmem
    have hid : s.heap.graph.Reachable id := (Heap.Owned.sound h).reachable_of_isRoot hx hr
    obtain ⟨y, z, hy, hz, hyz⟩ := (Heap.Owned.sound h).agrees_of_keeps hsound hk hid
    have hy' : s.heap.slot id = .ok y := hy
    have hz' : K.slot id = .ok z := hz
    simp only [hy', hz', Except.map, hyz.rootCount_eq]

/-! ### Operations that add an entry -/

section Entries

variable {P : Multiset Cell → Heap → Prop} {rest : Multiset Cell}

/-- What is known of the heap and its cells, those of the new entry included, is known of the
session that has the entry. The answer does not matter. -/
theorem append_cells {r : Reply}
    (h : P (e.elim (s.cells + rest) fun f => f.cell ::ₘ (s.cells + rest)) H) :
    (do append e; return r : Action Session Reply).Yields ⟨{ s with heap := H }, es⟩
      fun _ u => P (u.state.cells + rest) u.state.heap := by
  rw [Action.yields_bind, yields_append, Action.yields_pure, cells_push]
  cases e with
  | none => exact h
  | some f =>
    rw [Option.elim_some, Multiset.cons_add]
    exact h

theorem keepMade_cells (h : P (f.cell ::ₘ (s.cells + rest)) H) :
    (keepMade f).Yields ⟨{ s with heap := H }, es⟩
      fun _ u => P (u.state.cells + rest) u.state.heap :=
  append_cells (e := some f) h

theorem keepFound_cells {r : Option Handle}
    (h : P (r.elim (s.cells + rest) fun g => g.cell ::ₘ (s.cells + rest)) H) :
    (keepFound r).Yields ⟨{ s with heap := H }, es⟩
      fun _ u => P (u.state.cells + rest) u.state.heap := by
  cases r with
  | none => exact append_cells (e := none) h
  | some g => exact keepMade_cells h

/-- Where there was no room, the new entry is empty. -/
theorem keep_cells {r : Except HeapError Handle}
    (h : match r with
      | .ok g => P (g.cell ::ₘ (s.cells + rest)) H
      | .error _ => P (s.cells + rest) H) :
    (keep r).Yields ⟨{ s with heap := H }, es⟩
      fun _ u => P (u.state.cells + rest) u.state.heap := by
  cases r with
  | ok g => exact keepMade_cells h
  | error _ => exact append_cells (e := none) h

end Entries

/-- An operation that makes a handle. -/
theorem made_yields {a : Action Heap Handle} (ha : a.Yields ⟨s.heap, es⟩ fun r m =>
      m.state.Owned (r.cell ::ₘ (s.cells + leaked.map .pair)) 0) :
    (do keepMade (← onHeap a) : Action Session Reply).Yields ⟨s, es⟩
      fun _ u => Accounted leaked u.state := by
  rw [Action.yields_bind, yields_onHeap]
  exact ha.mono fun _ _ hm => keepMade_cells (P := fun hs H => H.Owned hs 0) hm

theorem made_yields_some {a : Action Heap Handle} (ha : a.Yields ⟨s.heap, es⟩ fun r m =>
      m.state.Owned (r.cell ::ₘ (s.cells + leaked.map .pair)) 0) :
    (do return some (← keepMade (← onHeap a)) : Action Session (Option Reply)).Yields ⟨s, es⟩
      fun _ u => Accounted leaked u.state := by
  rw [← bind_assoc]
  exact yields_some (made_yields ha)

/-- An operation that finds a handle or nothing. -/
theorem found_yields {a : Action Heap (Option Handle)} (ha : a.Yields ⟨s.heap, es⟩ fun r m =>
      m.state.Owned (r.elim (s.cells + leaked.map .pair)
        fun g => g.cell ::ₘ (s.cells + leaked.map .pair)) 0) :
    (do keepFound (← onHeap a) : Action Session Reply).Yields ⟨s, es⟩
      fun _ u => Accounted leaked u.state := by
  rw [Action.yields_bind, yields_onHeap]
  exact ha.mono fun _ _ hm => keepFound_cells (P := fun hs H => H.Owned hs 0) hm

/-- An operation that allocates. Where there was no room, the books are those of before. -/
theorem allocated_yields {a : Action Heap (Except HeapError Handle)}
    (ha : a.Yields ⟨s.heap, es⟩ fun r m =>
      match r with
      | .ok g => m.state.Owned (g.cell ::ₘ (s.cells + leaked.map .pair)) 0
      | .error _ => m.state.Owned (s.cells + leaked.map .pair) 0) :
    (do keep (← onHeap a) : Action Session Reply).Yields ⟨s, es⟩
      fun _ u => Accounted leaked u.state := by
  rw [Action.yields_bind, yields_onHeap]
  exact ha.mono fun _ _ hm => keep_cells (P := fun hs H => H.Owned hs 0) hm

/-! ### Operations that leave the table as it is, or empty an entry -/

/-- An operation that makes no handle. -/
theorem kept_yields {α β : Type} {a : Action Heap α} {reply : α → β}
    (ha : a.Yields ⟨s.heap, es⟩ fun _ m => m.state.Owned (s.cells + leaked.map .pair) 0) :
    (do return reply (← onHeap a) : Action Session β).Yields ⟨s, es⟩
      fun _ u => Accounted leaked u.state := by
  rw [Action.yields_bind, yields_onHeap]
  exact ha.mono fun r m hm => Action.yields_pure.2 hm

/-- An operation that takes a handle out of the table and gives it up. -/
theorem given_up_yields {a : Action Heap Unit} {r : Reply} (hf : s.handle? i = some f)
    (ha : ∀ hs, s.cells = f.cell ::ₘ hs →
      a.Yields ⟨s.heap, es⟩ fun _ m => m.state.Owned (hs + leaked.map .pair) 0) :
    (do clear i; onHeap a; return r : Action Session Reply).Yields ⟨s, es⟩
      fun _ u => Accounted leaked u.state := by
  obtain ⟨n, hi, hn⟩ := handle?_eq_some.1 hf
  -- the entry is emptied first, so the heap gives up a handle that is not in the table any more
  rw [Action.yields_bind, yields_clear hi, Action.yields_bind, yields_onHeap]
  refine (ha _ (cells_set (H := s.heap) hn)).mono fun _ m hm => ?_
  exact Action.yields_pure.2 hm

/-! ### One operation, and all -/

/-- Whether an operation can be done: there is room for the root of the handle that it makes. Only a
pair that is named by its id may be missing altogether. -/
def Admits (s : Session) : Op → Prop
  | .clone i | .objectOf i => ∀ f, s.handle? i = some f → s.heap.Room f.cell
  | .get i side => ∀ f id n, s.handle? i = some f → f.cell = .pair id →
      s.heap.graph id = some n → s.heap.Room (side.getNode n)
  | .objectAt id => s.heap.Has (.pair id) ∧ s.heap.Room (.pair id)
  | _ => True

/-- An operation is done on handles of the table, so each of them is an owner. -/
theorem mem_owners (hf : s.handle? i = some f) : f.cell ∈ s.cells + leaked.map .pair :=
  Multiset.mem_add.2 (.inl (mem_cells hf))

/-- Every operation that can be done and leaks nothing keeps the books right. -/
theorem Accounted.yields (h : Accounted leaked s) (hop : ∀ i, op ≠ .dropUnwinding i true)
    (hadm : s.Admits op) :
    (perform op).Yields ⟨s, es⟩ fun _ u => Accounted leaked u.state := by
  have howned : s.heap.Owned (s.cells + leaked.map .pair) 0 := h
  cases op with
  -- values that are not pairs have no roots to account for
  | nil => exact made_yields_some (Heap.yields_adopt.2 (howned.plain rfl rfl))
  | integer value => exact made_yields_some (Heap.yields_adopt.2 (howned.plain rfl rfl))
  | symbol name =>
    refine made_yields_some ((howned.symbol name).mono fun r m hm => ?_)
    obtain ⟨_, rfl, hm⟩ := hm
    exact hm.becomes.owned
  | string text =>
    refine made_yields_some ((howned.string text).mono fun r m hm => ?_)
    obtain ⟨_, rfl, hm⟩ := hm
    exact hm.becomes.owned
  | cons i j =>
    -- the root of the new pair belongs to the new handle; without room nobody gets one
    refine yields_withTwo h fun f g hf hg => allocated_yields ?_
    refine (howned.cons (mem_owners hf) (mem_owners hg)).mono fun r m hm => ?_
    cases r with
    | error _ => exact hm.2.owned
    | ok g =>
      obtain ⟨_, rfl, -, hm⟩ := hm
      exact hm.owned
  | list is =>
    -- the handles of the pairs in between are gone again when the list is made
    -- the copy needs room for one more root, and owns it
    refine yields_withHandles h fun fs hfs => allocated_yields ?_
    have hmem : ∀ f ∈ fs, f.cell ∈ s.cells + leaked.map .pair :=
      fun f hf => Multiset.mem_add.2 (.inl (mem_cells_of_handles? hfs hf))
    refine (howned.list fs hmem).mono fun r m hm => ?_
    cases r with
    | error _ => exact hm.2
    | ok _ => exact hm
  | clone i =>
    refine yields_withHandle (fun _ => h) fun f hf => made_yields ?_
    refine (howned.clone (mem_owners hf) (hadm f hf)).mono fun r m hm => ?_
    rw [hm.1]
    exact hm.2.owned
  | get i side =>
    refine yields_withHandle (fun _ => h) fun f hf => found_yields ?_
    exact (howned.getFound (mem_owners hf) fun id n => hadm f id n hf).mono fun r m hm => hm.owned
  | objectOf i =>
    refine yields_withHandle (fun _ => h) fun f hf => made_yields ?_
    refine (howned.objectOf (mem_owners hf) (hadm f hf)).mono fun r m hm => ?_
    rw [hm.1]
    exact hm.2.owned
  | objectAt id =>
    refine made_yields_some ((howned.objectAt hadm.1 hadm.2).mono fun r m hm => ?_)
    rw [hm.1]
    exact hm.2.owned
  | set i side j =>
    -- writes do not touch the table, and the owners stay who they are
    refine yields_withTwo h fun f g hf hg => kept_yields ?_
    exact howned.set_owned (mem_owners hf) (mem_owners hg)
  | unset i side =>
    refine yields_withHandle (fun _ => h) fun f hf => kept_yields ?_
    exact howned.unset_owned (mem_owners hf)
  | drop i =>
    -- the owner goes, and its root with it
    refine yields_withHandle (fun _ => h) fun f hf => given_up_yields hf fun hs hcells => ?_
    rw [hcells, Multiset.cons_add] at howned
    exact howned.drop.mono fun _ _ hm => hm.owned
  | dropUnwinding i collectorInUse =>
    refine yields_withHandle (fun _ => h) fun f hf => given_up_yields hf fun hs hcells => ?_
    rw [hcells, Multiset.cons_add] at howned
    -- the drop that leaks was excluded
    cases collectorInUse with
    | false => exact howned.drop.mono fun _ _ hm => hm.owned
    | true => exact absurd rfl (hop i)
  | collect =>
    exact kept_yields (howned.collect.mono fun _ _ hm => hm.owned)

/-- An operation that cannot be done is refused before it has changed anything. -/
theorem Accounted.refuses (h : Accounted leaked s) (hadm : ¬s.Admits op) :
    (perform op).Refuses ⟨s, es⟩ := by
  have howned : s.heap.Owned (s.cells + leaked.map .pair) 0 := h
  -- a copy lacks room for its root, and a bare id a pair that lives; the rest is never refused
  cases op with
  | clone i =>
    unfold Admits at hadm
    push Not at hadm
    obtain ⟨f, hf, hroom⟩ := hadm
    exact refuses_withHandle hf (refuses_onHeap (Heap.clone_refuses hroom)).bind
  | get i side =>
    unfold Admits at hadm
    push Not at hadm
    obtain ⟨f, id, n, hf, hcell, hn, hroom⟩ := hadm
    exact refuses_withHandle hf (refuses_onHeap (howned.get_refuses hcell hn hroom)).bind
  | objectOf i =>
    unfold Admits at hadm
    push Not at hadm
    obtain ⟨f, hf, hroom⟩ := hadm
    refine refuses_withHandle hf (refuses_onHeap ?_).bind
    exact howned.objectOf_refuses (mem_owners hf) hroom
  | objectAt id => exact (refuses_onHeap (howned.object_refuses hadm)).bind
  | _ => exact absurd trivial hadm

/-- A handle that is given up while the collector is in use turns into a leaked root, if it holds a
pair. Such a drop is never refused. -/
theorem Accounted.leak (h : Accounted leaked s) :
    (perform (.dropUnwinding i true)).Yields ⟨s, es⟩
      fun _ u => Accounted (leaked + s.leaks (.dropUnwinding i true)) u.state := by
  have howned : s.heap.Owned (s.cells + leaked.map .pair) 0 := h
  refine yields_withHandle (fun hnone => ?_) fun f hf => given_up_yields hf fun hs hcells => ?_
  · -- nothing is given up, so nothing leaks
    rw [leaks, hnone, Option.bind_none, Option.elim_none, add_zero]
    exact h
  · rw [hcells, Multiset.cons_add] at howned
    refine howned.leak.mono fun _ m hm => ?_
    have howned' := hm.owned
    rw [leaks, hf, Option.bind_some]
    cases hp : f.cell.pair? with
    | none =>
      -- other values have no roots
      rw [hp] at howned'
      rw [Option.elim_none, add_zero]
      exact howned'
    | some id =>
      -- the root stays, and its owner moves from the handles to the leaked roots
      rw [hp] at howned'
      rw [Option.elim_some, Multiset.map_add, Multiset.map_singleton, ← add_assoc, add_comm,
        Multiset.singleton_add]
      exact howned'

theorem leaks_eq_zero (hop : ∀ i, op ≠ .dropUnwinding i true) : s.leaks op = 0 := by
  cases op with
  | dropUnwinding i collectorInUse =>
    cases collectorInUse with
    | false => rfl
    | true => exact absurd rfl (hop i)
  | _ => rfl

/-- **Every operation keeps the books right**, whether it ends or is refused. -/
theorem Accounted.after (h : Accounted leaked s) (op : Op) (es : Array Event) :
    Accounted (leaked + s.leaks op) (s.after op es) := by
  unfold Session.after
  by_cases hop : ∀ i, op ≠ .dropUnwinding i true
  · rw [leaks_eq_zero hop, add_zero]
    by_cases hadm : s.Admits op
    · obtain ⟨r, u, hok, hu⟩ : (perform op).Yields ⟨s, es⟩ _ := h.yields hop hadm
      rw [hok]
      exact hu
    · -- nothing has changed
      obtain ⟨f, u, herror, hu⟩ : (perform op).Refuses ⟨s, es⟩ := h.refuses hadm
      rw [herror]
      show Accounted leaked u.state
      rw [hu]
      exact h
  · push Not at hop
    obtain ⟨i, rfl⟩ := hop
    obtain ⟨r, u, hok, hu⟩ : (perform (.dropUnwinding i true)).Yields ⟨s, es⟩ _ := h.leak
    rw [hok]
    exact hu

/-- The books are right along every run. -/
theorem Run.accounted (run : Run s₀ leaked s) (h : Accounted 0 s₀) : Accounted leaked s := by
  induction run with
  | start => exact h
  | perform _ op es ih => exact ih.after op es

/-! ### What the books say -/

/-- The roots of a pair are its living handles and the leaked ones. -/
theorem Accounted.roots_eq (h : Accounted leaked s) :
    s.heap.graph.roots id = s.holders id + leaked.count id := by
  have hinj : Function.Injective Cell.pair := fun _ _ he => Cell.pair.inj he
  rw [← Heap.Owned.roots h id, Multiset.count_add, count_cells,
    Multiset.count_map_eq_count' _ _ hinj]

/-- **Every root has its owner, and nothing else keeps a pair.** After every operation of a program
that keeps to handles, whether it ended, failed or was refused, the root count of a slot is the
number of living handles of it and of roots on it that were left behind, and it has a root color
exactly when there are any. When no root was left behind and all handles are gone, a collection
leaves every slot blank. -/
theorem Run.roots_accounted (created : Heap.create o = .ok H)
    (run : Run { heap := H } leaked s) :
    (∀ id x, s.heap.slot id = .ok x → x.rootCount = s.holders id + leaked.count id ∧
      (x.color.isRoot = true ↔ 0 < s.holders id + leaked.count id)) ∧
    (∀ id, 0 < s.holders id + leaked.count id → ∃ x, s.heap.slot id = .ok x) ∧
    (leaked = 0 → (∀ e ∈ s.handles, e = none) → ∀ es, (Session.perform .collect).Yields ⟨s, es⟩
      fun _ u => ∀ id, id.index < u.state.heap.collector.totalSlots →
        u.state.heap.slot id = .ok {}) := by
  have h : Accounted leaked s := run.accounted (.create created)
  have hsound : s.heap.collector.Sound := Heap.Owned.sound h
  refine ⟨fun id x hx => ?_, fun id hpos => ?_, fun hleaked hnone es => ?_⟩
  · -- a collector in order colors a pair as rooted exactly when it has roots
    have hcount : x.rootCount = s.holders id + leaked.count id :=
      (hsound.roots_eq hx).symm.trans h.roots_eq
    have hrooted := hsound.rooted (Collector.look_of_slot hx)
    change x.color.isRoot = true ↔ 0 < x.rootCount at hrooted
    exact ⟨hcount, hcount ▸ hrooted⟩
  · -- a pair that is not there has no roots
    rw [← h.roots_eq] at hpos
    unfold Graph.roots at hpos
    cases hn : s.heap.graph id with
    | none =>
      rw [hn] at hpos
      exact absurd hpos (Nat.lt_irrefl 0)
    | some n =>
      obtain ⟨x, hx, -⟩ := Heap.slot_of_graph hn
      exact ⟨x, hx⟩
  · -- nobody is left to own a root, so nothing is reachable
    have hroots : ∀ id, s.heap.graph.roots id = 0 := by
      intro id
      have hholders : s.holders id = 0 := by
        refine List.countP_eq_zero.2 fun e he => ?_
        rw [hnone e (Array.mem_toList_iff.1 he)]
        exact Bool.false_ne_true
      rw [h.roots_eq, hleaked, hholders, Multiset.count_zero]
    unfold Session.perform
    rw [Action.yields_bind, yields_onHeap]
    refine (Heap.collect_cycled hsound).mono fun n m hm => Action.yields_pure.2 fun id hlt => ?_
    exact hm.slot_of_not_reachable hsound (hm.index_lt_iff.1 hlt)
      (Graph.not_reachable_of_roots hroots)

/-- A pair holds itself, has two handles, and is named by a wrong id in between. In the first run
one of the handles is given up while the collector is in use; in the second both are dropped. -/
theorem roots_accounted_self_loop :
    (∃ leaked s, Run { heap := { collector := Collector.manualTwo } } leaked s ∧
      leaked = {⟨0⟩} ∧ s.holders ⟨0⟩ = 1 ∧
      ∀ id x, s.heap.slot id = .ok x → x.rootCount = s.holders id + leaked.count id ∧
        (x.color.isRoot = true ↔ 0 < s.holders id + leaked.count id)) ∧
    ∃ leaked s, Run { heap := { collector := Collector.manualTwo } } leaked s ∧
      leaked = 0 ∧ s.heap.slot ⟨0⟩ ≠ .ok {} ∧
      ∀ es, (perform .collect).Yields ⟨s, es⟩
        fun _ u => ∀ id, id.index < u.state.heap.collector.totalSlots →
          u.state.heap.slot id = .ok {} := by
  have created : Heap.create (.manual 2) = .ok { collector := Collector.manualTwo } := rfl
  have value : Run { heap := { collector := Collector.manualTwo } } _ _ :=
    Run.start.perform (.integer 7) #[]
  have made := value.perform (.cons 0 0) #[]
  have looped := made.perform (.set 1 .cdr 1) #[]
  have refused := looped.perform (.objectAt ⟨5⟩) #[]
  have cloned := refused.perform (.clone 1) #[]
  have leaky := cloned.perform (.dropUnwinding 1 true) #[]
  have dropped := cloned.perform (.drop 1) #[]
  have dropped' := dropped.perform (.drop 2) #[]
  have clean := dropped'.perform (.drop 0) #[]
  refine ⟨⟨_, _, leaky, by decide +kernel, by decide +kernel,
    (Run.roots_accounted created leaky).1⟩, _, _, clean, by decide +kernel, by decide +kernel, ?_⟩
  exact (Run.roots_accounted created clean).2.2 (by decide +kernel) (by decide +kernel)

end Session

end ConsHeap
