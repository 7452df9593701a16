import ConsHeap.Heap.Session
import ConsHeap.Proofs.Yields
import Mathlib.Data.List.ReduceOption
import Mathlib.Data.Multiset.Basic

/-!
# The table of a session

An operation of a session is an operation of its heap with some bookkeeping around it: the handles
of its entries are looked up, and the table gains an entry or loses the handle of one. What is known
of the operation of the heap is carried over to the session by the lemmas of this file: that it ends
(`Action.Yields`), that it is refused (`Action.Refuses`), or what follows if it ends
(`Action.Leaves`).

The handles that live are the entries of the table that are not empty. `Session.reduceOption_set`
says what is left of them when an entry is emptied.
-/

namespace ConsHeap

namespace Session

variable {α : Type} {s : Session} {i j : Int} {is : List Int} {n : Nat} {f : Handle}
  {fs : List Handle} {e : Option Handle} {es : Array Event} {k : Handle → Action Session Reply}
  {P : Session → Prop}

/-! ### The heap inside -/

theorem yields_onHeap {a : Action Heap α} {Q : α → Traced Session → Prop} :
    (onHeap a).Yields ⟨s, es⟩ Q ↔
      a.Yields ⟨s.heap, es⟩ fun r m => Q r ⟨{ s with heap := m.state }, m.events⟩ :=
  Action.yields_focus

theorem leaves_onHeap {a : Action Heap α} {Q : α → Traced Session → Prop} :
    (onHeap a).Leaves ⟨s, es⟩ Q ↔
      a.Leaves ⟨s.heap, es⟩ fun r m => Q r ⟨{ s with heap := m.state }, m.events⟩ :=
  Action.leaves_focus

theorem refuses_onHeap {a : Action Heap α} (h : a.Refuses ⟨s.heap, es⟩) :
    (onHeap a).Refuses ⟨s, es⟩ :=
  Action.Refuses.focus h rfl

/-! ### Changes of the table -/

theorem yields_append {Q : Unit → Traced Session → Prop} :
    (append e).Yields ⟨s, es⟩ Q ↔ Q () ⟨{ s with handles := s.handles.push e }, es⟩ :=
  Action.yields_update

theorem yields_clear {Q : Unit → Traced Session → Prop} (hn : s.place? i = some n) :
    (clear i).Yields ⟨s, es⟩ Q ↔
      Q () ⟨{ s with handles := s.handles.setIfInBounds n none }, es⟩ := by
  unfold clear
  rw [Action.yields_update]
  simp only [hn]

/-- The table gains an entry, with the handle that was made or without one. -/
theorem yields_keep {r : Except HeapError Handle} {Q : Reply → Traced Session → Prop} :
    (keep r).Yields ⟨s, es⟩ Q ↔
      match r with
      | .ok f => Q (.made f) ⟨{ s with handles := s.handles.push (some f) }, es⟩
      | .error e => Q (.failed e) ⟨{ s with handles := s.handles.push none }, es⟩ := by
  unfold keep
  cases r <;> rw [Action.yields_bind, yields_append, Action.yields_pure]

/-- The others are left when an entry is emptied. -/
theorem reduceOption_set {T : List (Option α)} {a : α} (h : T[n]? = some (some a)) :
    (↑T.reduceOption : Multiset α) = a ::ₘ ↑(T.set n none).reduceOption := by
  -- down to the entry, which is the head there
  induction T generalizing n with
  | nil => exact absurd h (by simp)
  | cons e T ih =>
    cases n with
    | zero =>
      rw [List.getElem?_cons_zero] at h
      obtain rfl := Option.some.inj h
      rw [List.set_cons_zero, List.reduceOption_cons_of_some, List.reduceOption_cons_of_none]
      rfl
    | succ n =>
      rw [List.getElem?_cons_succ] at h
      rw [List.set_cons_succ]
      cases e with
      | none =>
        rw [List.reduceOption_cons_of_none, List.reduceOption_cons_of_none]
        exact ih h
      | some p =>
        rw [List.reduceOption_cons_of_some, List.reduceOption_cons_of_some, ← Multiset.cons_coe,
          ← Multiset.cons_coe, ih h, Multiset.cons_swap]

/-! ### Entries looked up -/

/-- A number that names a handle has a place, and the handle stands there. -/
theorem handle?_eq_some :
    s.handle? i = some f ↔ ∃ n, s.place? i = some n ∧ s.handles[n]? = some (some f) := by
  unfold handle?
  rw [Option.bind_eq_some_iff]
  simp only [Option.join_eq_some_iff]

/-- Several numbers name handles if they name different entries that all have one. -/
theorem handles?_eq_some :
    s.handles? is = some fs ↔ (is.map s.place?).Nodup ∧ is.mapM s.handle? = some fs := by
  unfold handles?
  rw [Option.ite_none_right_eq_some]

/-- Several numbers that name handles name each of them. -/
theorem exists_of_handles? (h : s.handles? is = some fs) (hf : f ∈ fs) :
    ∃ i, s.handle? i = some f := by
  rw [handles?_eq_some] at h
  obtain ⟨-, h⟩ := h
  induction is generalizing fs with
  | nil =>
    rw [List.mapM_nil] at h
    obtain rfl := Option.some.inj h
    exact absurd hf List.not_mem_nil
  | cons i is ih =>
    rw [List.mapM_cons] at h
    obtain ⟨g, hg, h⟩ := Option.bind_eq_some_iff.1 h
    obtain ⟨gs, hgs, h⟩ := Option.bind_eq_some_iff.1 h
    obtain rfl := Option.some.inj h
    rcases List.mem_cons.1 hf with rfl | hf
    · exact ⟨i, hg⟩
    · exact ih hf hgs

theorem withHandle_of_none (h : s.handle? i = none) :
    withHandle i k ⟨s, es⟩ = (pure none : Action Session (Option Reply)) ⟨s, es⟩ := by
  unfold withHandle
  rw [Action.ask_bind, h]

theorem withHandle_of_some (h : s.handle? i = some f) :
    withHandle i k ⟨s, es⟩ = (do return some (← k f) : Action Session _) ⟨s, es⟩ := by
  unfold withHandle
  rw [Action.ask_bind, h]

theorem withTwo_of_none {k : Handle → Handle → Action Session Reply} (h : s.handle? i = none) :
    withTwo i j k ⟨s, es⟩ = (pure none : Action Session (Option Reply)) ⟨s, es⟩ := by
  unfold withTwo
  rw [Action.ask_bind, h]

theorem withTwo_of_some {k : Handle → Handle → Action Session Reply} (h : s.handle? i = some f) :
    withTwo i j k ⟨s, es⟩ = withHandle j (k f) ⟨s, es⟩ := by
  unfold withTwo
  rw [Action.ask_bind, h]

theorem withHandles_of_none {k : List Handle → Action Session Reply} (h : s.handles? is = none) :
    withHandles is k ⟨s, es⟩ = (pure none : Action Session (Option Reply)) ⟨s, es⟩ := by
  unfold withHandles
  rw [Action.ask_bind, h]

theorem withHandles_of_some {k : List Handle → Action Session Reply}
    (h : s.handles? is = some fs) :
    withHandles is k ⟨s, es⟩ = (do return some (← k fs) : Action Session _) ⟨s, es⟩ := by
  unfold withHandles
  rw [Action.ask_bind, h]

/-! ### Operations on entries -/

/-- An answer does not change where an operation ended. -/
theorem yields_some {a : Action Session Reply} (h : a.Yields ⟨s, es⟩ fun _ u => P u.state) :
    (do return some (← a) : Action Session (Option Reply)).Yields ⟨s, es⟩ fun _ u => P u.state :=
  h.answer

/-- Nothing is done without a handle. -/
theorem yields_withHandle (hs : s.handle? i = none → P s)
    (hk : ∀ f, s.handle? i = some f → (k f).Yields ⟨s, es⟩ fun _ u => P u.state) :
    (withHandle i k).Yields ⟨s, es⟩ fun _ u => P u.state := by
  cases hf : s.handle? i with
  | none => exact (Action.yields_pure.2 (hs hf)).congr (withHandle_of_none hf)
  | some f => exact (yields_some (hk f hf)).congr (withHandle_of_some hf)

theorem yields_withTwo {k : Handle → Handle → Action Session Reply} (hs : P s)
    (hk : ∀ f g, s.handle? i = some f → s.handle? j = some g →
      (k f g).Yields ⟨s, es⟩ fun _ u => P u.state) :
    (withTwo i j k).Yields ⟨s, es⟩ fun _ u => P u.state := by
  cases hf : s.handle? i with
  | none => exact (Action.yields_pure.2 hs).congr (withTwo_of_none hf)
  | some f =>
    exact (yields_withHandle (fun _ => hs) fun g hg => hk f g hf hg).congr (withTwo_of_some hf)

theorem yields_withHandles {k : List Handle → Action Session Reply} (hs : P s)
    (hk : ∀ fs, s.handles? is = some fs → (k fs).Yields ⟨s, es⟩ fun _ u => P u.state) :
    (withHandles is k).Yields ⟨s, es⟩ fun _ u => P u.state := by
  cases hfs : s.handles? is with
  | none => exact (Action.yields_pure.2 hs).congr (withHandles_of_none hfs)
  | some fs => exact (yields_some (hk fs hfs)).congr (withHandles_of_some hfs)

/-- Only what is done with a handle can be refused. -/
theorem refuses_withHandle (hf : s.handle? i = some f) (hk : (k f).Refuses ⟨s, es⟩) :
    (withHandle i k).Refuses ⟨s, es⟩ := by
  unfold Action.Refuses
  rw [withHandle_of_some hf]
  exact hk.bind

/-! ### Operations that may not end -/

theorem leaves_some {a : Action Session Reply} (h : a.Leaves ⟨s, es⟩ fun _ u => P u.state) :
    (do return some (← a) : Action Session (Option Reply)).Leaves ⟨s, es⟩ fun _ u => P u.state :=
  Action.leaves_bind.2 (h.mono fun _ _ hu => Action.leaves_pure.2 hu)

theorem leaves_withHandle (hs : P s)
    (hk : ∀ f, s.handle? i = some f → (k f).Leaves ⟨s, es⟩ fun _ u => P u.state) :
    (withHandle i k).Leaves ⟨s, es⟩ fun _ u => P u.state := by
  cases hf : s.handle? i with
  | none => exact (Action.leaves_pure.2 hs).congr (withHandle_of_none hf)
  | some f => exact (leaves_some (hk f hf)).congr (withHandle_of_some hf)

theorem leaves_withTwo {k : Handle → Handle → Action Session Reply} (hs : P s)
    (hk : ∀ f g, s.handle? i = some f → s.handle? j = some g →
      (k f g).Leaves ⟨s, es⟩ fun _ u => P u.state) :
    (withTwo i j k).Leaves ⟨s, es⟩ fun _ u => P u.state := by
  cases hf : s.handle? i with
  | none => exact (Action.leaves_pure.2 hs).congr (withTwo_of_none hf)
  | some f => exact (leaves_withHandle hs fun g hg => hk f g hf hg).congr (withTwo_of_some hf)

theorem leaves_withHandles {k : List Handle → Action Session Reply} (hs : P s)
    (hk : ∀ fs, s.handles? is = some fs → (k fs).Leaves ⟨s, es⟩ fun _ u => P u.state) :
    (withHandles is k).Leaves ⟨s, es⟩ fun _ u => P u.state := by
  cases hfs : s.handles? is with
  | none => exact (Action.leaves_pure.2 hs).congr (withHandles_of_none hfs)
  | some fs => exact (leaves_some (hk fs hfs)).congr (withHandles_of_some hfs)

end Session

end ConsHeap
