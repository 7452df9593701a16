import ConsHeap.Proofs.Session.Renaming
import ConsHeap.Proofs.Session.Table

/-!
# The collector is not seen

A program is a list of operations on the handles of a session. Whoever runs it may call for work of
the collector in between, and may choose the options as they like. `Session.execute_agree` says that
this makes no difference to the program: two executions with room for all pairs answer the same
after every operation, and the sessions after it differ in the names of pairs and objects only.

The proof runs both executions side by side on a table of paired handles. Work that is called for is
done on one side alone and leaves the pairing as it is (`Chore.yields`); an operation of the program
is done on both sides (`Twinned.perform`). How much the collector does inside an operation does not
matter, since an operation is known by its owners and its graph only.
-/

namespace ConsHeap

namespace Session

variable {α β : Type} {s t : Session} {T : List (Option (Handle × Handle))}
  {ps : Multiset (Handle × Handle)} {f g : Handle} {i j : Int} {es es' : Array Event} {n : Nat}
  {φ : PairId → PairId} {ψ : ObjectId → ObjectId} {u v : Traced Session}

/-! ### Executions -/

/-- Work of the collector that can be called for at any time. -/
inductive Chore where
  | collect
  | step
  | recycle
  | finish

/-- Do some work of the collector; what it answers is not looked at. -/
def Chore.run : Chore → Action Session Unit
  | collect => do
    let _ ← onHeap Heap.collect
    return ()
  | step => do
    let _ ← onHeap (Heap.onCollector Collector.step)
    return ()
  | recycle => do
    let _ ← onHeap (Heap.onCollector Collector.recycle)
    return ()
  | finish => do
    let _ ← onHeap (Heap.onCollector Collector.finish)
    return ()

/-- Something that is done in an execution. -/
inductive Act where
  | chore (c : Chore)
  | op (op : Op)

/-- The operations of an execution. -/
def program : List Act → List Op
  | [] => []
  | .chore _ :: acts => program acts
  | .op op :: acts => op :: program acts

/-- The operations that a program is made of. Ids of pairs are no handles, so a program cannot use
them, and it has no part in the handling of faults. -/
def Op.isProgram : Op → Bool
  | objectAt _ | dropUnwinding _ _ | collect => false
  | _ => true

/-- There was no room for a pair. -/
def Reply.isOutOfMemory : Reply → Bool
  | failed e => e.isOutOfMemory
  | _ => false

/-- Run the operations and the work in between. What is recorded after every operation is its answer
and the session. If there is no room for a pair, the execution stops and has no record. -/
def execute : List Act → Action Session (Option (List (Option Reply × Session)))
  | [] => return some []
  | .chore c :: acts => do
    c.run
    execute acts
  | .op op :: acts => do
    let reply ← perform op
    if reply.any Reply.isOutOfMemory then
      return none
    else
      let after ← Action.ask id
      return (← execute acts).map fun records => (reply, after) :: records

/-- Two answers that differ in names only. -/
def Reply.Renames (φ : PairId → PairId) (ψ : ObjectId → ObjectId) : Reply → Reply → Prop
  | .done, .done | .nothing, .nothing => True
  | .made f, .made g => g.cell = f.cell.rename φ ψ
  | .failed e, .failed e' => e = e'
  | _, _ => False

/-- What was recorded after an operation of two executions agrees: by one renaming of pairs and
objects, the answers are the same and the sessions look the same. -/
def Agree (a b : Option Reply × Session) : Prop :=
  ∃ φ ψ, Option.Rel (Reply.Renames φ ψ) a.1 b.1 ∧ Renames φ ψ a.2 b.2

/-! ### Work on one side -/

/-- Work of the collector leaves the table as it is, and nothing is added to the graph. -/
theorem Chore.yields {hs : Multiset Cell} (c : Chore) (h : s.heap.Owned hs 0) :
    c.run.Yields ⟨s, es⟩ fun _ u => u.state.handles = s.handles ∧
      s.heap.Becomes s.heap.graph hs 0 u.state.heap := by
  cases c with
  | collect =>
    unfold Chore.run
    rw [Action.yields_bind, yields_onHeap]
    exact h.collect.mono fun _ m hm => Action.yields_pure.2 ⟨rfl, hm⟩
  | step =>
    unfold Chore.run
    rw [Action.yields_bind, yields_onHeap, Heap.yields_onCollector]
    exact h.sound.step_upkeep.mono fun _ m hm => Action.yields_pure.2 ⟨rfl, h.upkeep hm⟩
  | recycle =>
    unfold Chore.run
    rw [Action.yields_bind, yields_onHeap, Heap.yields_onCollector]
    refine (Collector.Sound.recycle h.sound.store).mono fun r m hm => Action.yields_pure.2 ⟨rfl, ?_⟩
    cases r with
    | none =>
      -- nothing was there to be recycled
      exact h.upkeep (hm.1 ▸ .refl _)
    | some id =>
      obtain ⟨x, hs, -⟩ := hm
      exact h.upkeep (.single (.recycle hs))
  | finish =>
    unfold Chore.run
    rw [Action.yields_bind, yields_onHeap, Heap.yields_onCollector]
    exact h.sound.finish_upkeep.mono fun n m hm =>
      Action.yields_pure.2 ⟨rfl, h.upkeep hm⟩

/-- Work on the first side is not seen. -/
theorem Twinned.chore_left (c : Chore) (h : Twinned T s t) :
    c.run.Yields ⟨s, es⟩ fun _ u => Twinned T u.state t :=
  (c.yields h.twin.left).mono fun _ _ hu =>
    ⟨hu.1 ▸ h.left, h.right, h.twin.left_becomes hu.2⟩

theorem Twinned.chore_right (c : Chore) (h : Twinned T s t) :
    c.run.Yields ⟨t, es⟩ fun _ u => Twinned T s u.state :=
  (c.yields h.twin.right).mono fun _ _ hu =>
    ⟨h.left, hu.1 ▸ h.right, h.twin.right_becomes hu.2⟩

/-! ### One operation on both sides -/

/-- Two answers whose handles are paired. -/
inductive Reply.Pairs (ps : List (Handle × Handle)) : Reply → Reply → Prop where
  | done : Reply.Pairs ps .done .done
  | nothing : Reply.Pairs ps .nothing .nothing
  | failed (e : HeapError) : Reply.Pairs ps (.failed e) (.failed e)
  | made {f g : Handle} (mem : (f, g) ∈ ps) : Reply.Pairs ps (.made f) (.made g)

/-- Unless one side had no room, the sessions are twins again and the answers are paired. -/
def Answered (r : Reply) (u : Traced Session) (r' : Reply) (v : Traced Session) : Prop :=
  r.isOutOfMemory = false → r'.isOutOfMemory = false →
    ∃ T, Twinned T u.state v.state ∧ r.Pairs T.reduceOption r'

/-- The same of an operation that may not have been done. -/
def Stepped (r : Option Reply) (u : Traced Session) (r' : Option Reply) (v : Traced Session) :
    Prop :=
  r.any Reply.isOutOfMemory = false → r'.any Reply.isOutOfMemory = false →
    ∃ T, Twinned T u.state v.state ∧ Option.Rel (Reply.Pairs T.reduceOption) r r'

theorem Answered.stepped {r r' : Reply} (h : Answered r u r' v) :
    Stepped (some r) u (some r') v := by
  intro hr hr'
  obtain ⟨T, hT, hpairs⟩ := h hr hr'
  exact ⟨T, hT, .some hpairs⟩

/-- An action on two heaps, done in two sessions with paired tables. -/
theorem Paired.guides_onHeap {a : Action Heap α} {b : Action Heap β}
    {R : α → Traced Heap → β → Traced Heap → Prop} (h : Paired T ps s t)
    (hab : a.Guides ⟨s.heap, es⟩ b ⟨t.heap, es'⟩ R) :
    (onHeap a).Guides ⟨s, es⟩ (onHeap b) ⟨t, es'⟩ fun x u y v =>
      (∀ {ps'}, u.state.heap.Twin v.state.heap ps' → Paired T ps' u.state v.state) ∧
        R x ⟨u.state.heap, u.events⟩ y ⟨v.state.heap, v.events⟩ :=
  Action.Guides.focus (hab.mono fun _ _ _ _ hR => ⟨fun htwin => ⟨h.left, h.right, htwin⟩, hR⟩)

/-- The tables gain an entry, and that is all that is done with a result. -/
theorem Paired.guides_append {p : Option (Handle × Handle)} {r r' : Reply} (h : Paired T ps s t)
    (hps : ps = ↑(T ++ [p]).reduceOption) (hr : r.Pairs (T ++ [p]).reduceOption r') :
    (do append (p.map Prod.fst); return r : Action Session Reply).Guides ⟨s, es⟩
      (do append (p.map Prod.snd); return r') ⟨t, es'⟩ Answered := by
  intro x u hok
  obtain ⟨_, m, happend, hok⟩ := Action.bind_eq_ok.1 hok
  obtain rfl := Action.update_eq_ok.1 happend
  obtain ⟨rfl, rfl⟩ := Action.pure_eq_ok.1 hok
  rw [Action.yields_bind, yields_append, Action.yields_pure]
  refine fun _ _ => ⟨T ++ [p], ⟨?_, ?_, ?_⟩, hr⟩
  · change (s.handles.push _).toList = _
    rw [Array.toList_push, h.left, List.map_append]
    rfl
  · change (t.handles.push _).toList = _
    rw [Array.toList_push, h.right, List.map_append]
    rfl
  · rw [← hps]
    exact h.twin

/-- Handles that were made get an entry. -/
theorem Paired.guides_keepMade (h : Paired T ((f, g) ::ₘ ↑T.reduceOption) s t) :
    (keepMade f).Guides ⟨s, es⟩ (keepMade g) ⟨t, es'⟩ Answered := by
  have hreduce : (T ++ [some (f, g)]).reduceOption = T.reduceOption ++ [(f, g)] :=
    List.reduceOption_append _ _
  refine h.guides_append (p := some (f, g)) ?_ (.made ?_)
  · rw [hreduce, ← Multiset.coe_add, add_comm]
    rfl
  · rw [hreduce]
    exact List.mem_append_right _ List.mem_cons_self

/-- An operation that makes a handle. -/
theorem Twinned.guides_made {a b : Action Heap Handle} (h : Twinned T s t)
    (hab : a.Guides ⟨s.heap, es⟩ b ⟨t.heap, es'⟩ (Heap.Twin.Made T.reduceOption)) :
    (do keepMade (← onHeap a) : Action Session Reply).Guides ⟨s, es⟩
      (do keepMade (← onHeap b)) ⟨t, es'⟩ Answered :=
  (Paired.guides_onHeap h hab).bind fun _ _ _ _ hR => (hR.1 hR.2).guides_keepMade

/-- An operation that finds a handle or nothing. -/
theorem Twinned.guides_found {a b : Action Heap (Option Handle)} (h : Twinned T s t)
    (hab : a.Guides ⟨s.heap, es⟩ b ⟨t.heap, es'⟩ (Heap.Twin.Found T.reduceOption)) :
    (do keepFound (← onHeap a) : Action Session Reply).Guides ⟨s, es⟩
      (do keepFound (← onHeap b)) ⟨t, es'⟩ Answered := by
  refine (Paired.guides_onHeap h hab).bind fun x u y v hR => ?_
  obtain ⟨hpaired, hfound⟩ := hR
  -- something is found on both sides or on neither
  cases x with
  | some f =>
    cases y with
    | some g => exact (hpaired hfound).guides_keepMade
    | none => exact absurd hfound id
  | none =>
    cases y with
    | some g => exact absurd hfound id
    | none =>
      refine (hpaired hfound).guides_append (p := none) ?_ .nothing
      rw [List.reduceOption_append]
      exact congrArg _ (List.append_nil _).symm

theorem keep_yields (r : Except HeapError Handle) (t : Traced Session) :
    (keep r).Yields t fun reply _ => ∀ e, r = .error e → reply = .failed e := by
  cases r with
  | ok f => exact ⟨_, _, rfl, fun e he => absurd he (by simp)⟩
  | error e => exact ⟨_, _, rfl, fun e' he => by rw [Except.error.inj he]⟩

/-- An operation that allocates. If the one side had no room, nothing is left to be shown but that
the other side goes on. -/
theorem Twinned.guides_allocated {a b : Action Heap (Except HeapError Handle)} (h : Twinned T s t)
    (hab : a.Guides ⟨s.heap, es⟩ b ⟨t.heap, es'⟩ (Heap.Twin.Allocated T.reduceOption)) :
    (do keep (← onHeap a) : Action Session Reply).Guides ⟨s, es⟩
      (do keep (← onHeap b)) ⟨t, es'⟩ Answered := by
  refine (Paired.guides_onHeap h hab).bind fun x u y v hR => ?_
  obtain ⟨hpaired, hallocated⟩ := hR
  cases x with
  | error e =>
    refine ((keep_yields _ u).guides (keep_yields y v)).mono fun r _ r' _ hR hr => ?_
    -- the only error is that there is no room, and it is answered as such
    rw [hR.1 e rfl] at hr
    exact absurd ((hallocated.left rfl).symm.trans hr) (by decide)
  | ok f =>
    cases y with
    | error e =>
      refine ((keep_yields _ u).guides (keep_yields _ v)).mono fun r _ r' _ hR _ hr => ?_
      rw [hR.2 e rfl] at hr
      exact absurd ((hallocated.right rfl).symm.trans hr) (by decide)
    | ok g => exact (hpaired (hallocated.made rfl rfl)).guides_keepMade

/-- An operation that writes. -/
theorem Twinned.guides_written {a b : Action Heap (Except HeapError Unit)} (h : Twinned T s t)
    (hab : a.Guides ⟨s.heap, es⟩ b ⟨t.heap, es'⟩ (Heap.Twin.Same T.reduceOption)) :
    (do return written (← onHeap a) : Action Session Reply).Guides ⟨s, es⟩
      (do return written (← onHeap b)) ⟨t, es'⟩ Answered := by
  refine (Paired.guides_onHeap h hab).bind fun x u y v hR => ?_
  obtain ⟨hpaired, rfl, -, htwin⟩ := hR
  refine Action.guides_pure fun _ _ => ⟨T, hpaired htwin, ?_⟩
  cases x with
  | ok _ => exact .done
  | error e => exact .failed e

/-! ### Operations on entries -/

section Entries

variable {k l : Handle → Action Session Reply}

/-- Nothing is done on either side. -/
theorem Twinned.guides_nothing (h : Twinned T s t) :
    (pure none : Action Session (Option Reply)).Guides ⟨s, es⟩
      (pure none : Action Session (Option Reply)) ⟨t, es'⟩ Stepped :=
  Action.guides_pure fun _ _ => ⟨T, h, .none⟩

/-- An answer on both sides. -/
theorem guides_some {a b : Action Session Reply} (hab : a.Guides ⟨s, es⟩ b ⟨t, es'⟩ Answered) :
    (do return some (← a) : Action Session _).Guides ⟨s, es⟩ (do return some (← b)) ⟨t, es'⟩
      Stepped :=
  hab.bind fun _ _ _ _ hR => Action.guides_pure (Answered.stepped hR)

/-- An entry is taken by both sides or by none. -/
theorem Twinned.guides_withHandle (h : Twinned T s t)
    (hk : ∀ n f g, s.place? i = some n → T[n]? = some (some (f, g)) →
      (k f).Guides ⟨s, es⟩ (l g) ⟨t, es'⟩ Answered) :
    (withHandle i k).Guides ⟨s, es⟩ (withHandle i l) ⟨t, es'⟩ Stepped := by
  rcases h.handle? i with ⟨hs, ht⟩ | ⟨n, f, g, hn, hT, hs, ht⟩
  · exact h.guides_nothing.congr (withHandle_of_none hs) (withHandle_of_none ht)
  · exact (guides_some (hk n f g hn hT)).congr (withHandle_of_some hs) (withHandle_of_some ht)

theorem Twinned.guides_withTwo {k l : Handle → Handle → Action Session Reply} (h : Twinned T s t)
    (hk : ∀ f g f' g', (f, g) ∈ T.reduceOption → (f', g') ∈ T.reduceOption →
      (k f f').Guides ⟨s, es⟩ (l g g') ⟨t, es'⟩ Answered) :
    (withTwo i j k).Guides ⟨s, es⟩ (withTwo i j l) ⟨t, es'⟩ Stepped := by
  rcases h.handle? i with ⟨hs, ht⟩ | ⟨n, f, g, -, hT, hs, ht⟩
  · exact h.guides_nothing.congr (withTwo_of_none hs) (withTwo_of_none ht)
  · -- the second entry is looked at when the first one has a handle
    refine (h.guides_withHandle fun m f' g' _ hT' => ?_).congr (withTwo_of_some hs)
      (withTwo_of_some ht)
    exact hk f g f' g' (mem_reduceOption hT) (mem_reduceOption hT')

theorem Twinned.guides_withHandles {is : List Int} {k l : List Handle → Action Session Reply}
    (h : Twinned T s t)
    (hk : ∀ items : List (Handle × Handle), (∀ p ∈ items, p ∈ T.reduceOption) →
      (k (items.map Prod.fst)).Guides ⟨s, es⟩ (l (items.map Prod.snd)) ⟨t, es'⟩ Answered) :
    (withHandles is k).Guides ⟨s, es⟩ (withHandles is l) ⟨t, es'⟩ Stepped := by
  rcases h.handles? is with ⟨hs, ht⟩ | ⟨items, hitems, hs, ht⟩
  · exact h.guides_nothing.congr (withHandles_of_none hs) (withHandles_of_none ht)
  · exact (guides_some (hk items hitems)).congr (withHandles_of_some hs) (withHandles_of_some ht)

end Entries

/-- An entry is emptied on both sides. -/
theorem Twinned.guides_clear (h : Twinned T s t) (hn : s.place? i = some n)
    (hT : T[n]? = some (some (f, g))) :
    (clear i).Guides ⟨s, es⟩ (clear i) ⟨t, es'⟩ fun _ u _ v =>
      Paired (T.set n none) ((f, g) ::ₘ ↑(T.set n none).reduceOption) u.state v.state := by
  -- the number of the entry means the same in both tables
  have hn' := (Paired.place?_eq h i).trans hn
  have hleft : (clear i).Yields ⟨s, es⟩ _ := (yields_clear (Q := fun _ u => u = _) hn).2 rfl
  have hright : (clear i).Yields ⟨t, es'⟩ _ := (yields_clear (Q := fun _ u => u = _) hn').2 rfl
  refine (hleft.guides hright).mono fun _ u _ v hR => ?_
  obtain ⟨rfl, rfl⟩ := hR
  refine ⟨?_, ?_, ?_⟩
  · change (s.handles.setIfInBounds n none).toList = _
    rw [Array.toList_setIfInBounds, h.left, List.map_set]
    rfl
  · change (t.handles.setIfInBounds n none).toList = _
    rw [Array.toList_setIfInBounds, h.right, List.map_set]
    rfl
  · rw [← reduceOption_set hT]
    exact h.twin

/-! ### All operations -/

/-- **An operation of a program keeps sessions twins**, whatever the two collectors do during it. -/
theorem Twinned.perform (h : Twinned T s t) {op : Op} (hop : op.isProgram = true) :
    (perform op).Guides ⟨s, es⟩ (perform op) ⟨t, es'⟩ Stepped := by
  have mem : ∀ {n f g}, T[n]? = some (some (f, g)) →
      (f, g) ∈ (↑T.reduceOption : Multiset (Handle × Handle)) := fun hT => mem_reduceOption hT
  -- answers are related by what makes them: a new handle, a found one, an error or nothing
  cases op with
  | nil => exact guides_some (h.guides_made (h.twin.guides_adopt rfl rfl))
  | integer value => exact guides_some (h.guides_made (h.twin.guides_adopt rfl rfl))
  | symbol name => exact guides_some (h.guides_made (h.twin.guides_symbol name))
  | string text => exact guides_some (h.guides_made (h.twin.guides_string text))
  | cons i j =>
    exact h.guides_withTwo fun f g f' g' hfg hfg' =>
      h.guides_allocated (h.twin.guides_cons hfg hfg')
  | list is =>
    exact h.guides_withHandles fun items hitems =>
      h.guides_allocated (h.twin.guides_list items hitems)
  | clone i =>
    exact h.guides_withHandle fun n f g _ hT => h.guides_made (h.twin.guides_clone (mem hT))
  | get i side =>
    exact h.guides_withHandle fun n f g _ hT => h.guides_found (h.twin.guides_get (mem hT))
  | objectOf i =>
    exact h.guides_withHandle fun n f g _ hT => h.guides_made (h.twin.guides_object (mem hT))
  -- a bare id means nothing in the other session, and a program does not use one
  | objectAt id => exact absurd hop (by simp [Op.isProgram])
  | set i side j =>
    exact h.guides_withTwo fun f g f' g' hfg hfg' =>
      h.guides_written (h.twin.guides_set hfg hfg')
  | unset i side =>
    exact h.guides_withHandle fun n f g _ hT => h.guides_written (h.twin.guides_unset (mem hT))
  | drop i =>
    -- for a moment the handles are in no table, but they are still held
    refine h.guides_withHandle fun n f g hn hT => ?_
    refine (h.guides_clear hn hT).bind fun _ u _ v hpaired => ?_
    refine (Paired.guides_onHeap hpaired hpaired.twin.guides_drop).bind fun _ u _ v hR => ?_
    exact Action.guides_pure fun _ _ => ⟨T.set n none, hR.1 hR.2, .done⟩
  | dropUnwinding i collectorInUse => exact absurd hop (by simp [Op.isProgram])
  | collect => exact absurd hop (by simp [Op.isProgram])

/-! ### Whole executions -/

theorem Reply.Pairs.renames {ps : List (Handle × Handle)} {r r' : Reply} (h : r.Pairs ps r')
    (hps : ∀ {f g}, (f, g) ∈ ps → g.cell = f.cell.rename φ ψ) : r.Renames φ ψ r' := by
  cases h with
  | done => trivial
  | nothing => trivial
  | failed e => rfl
  | made mem => exact hps mem

/-- What is recorded after an operation agrees. -/
theorem Twinned.agree {r r' : Option Reply} (h : Twinned T s t)
    (hr : Option.Rel (Reply.Pairs T.reduceOption) r r') : Agree (r, s) (r', t) := by
  obtain ⟨φ, ψ, hrenames, hps⟩ := h.exists_renames
  refine ⟨φ, ψ, ?_, hrenames⟩
  cases hr with
  | none => exact .none
  | some hpairs => exact .some (hpairs.renames hps)

/-- What an execution recorded began with its first operation. -/
theorem execute_op_ok {op : Op} {acts : List Act} {records : List (Option Reply × Session)}
    {r : Traced Session} (hok : execute (.op op :: acts) r = .ok (some records) u) :
    ∃ reply m rest, perform op r = .ok reply m ∧ reply.any Reply.isOutOfMemory = false ∧
      execute acts m = .ok (some rest) u ∧ records = (reply, m.state) :: rest := by
  unfold execute at hok
  obtain ⟨reply, m, hperform, hok⟩ := Action.bind_eq_ok.1 hok
  split at hok
  · exact absurd (Action.pure_eq_ok.1 hok).1 (by simp)
  · rename_i hroom
    obtain ⟨after, m', hask, hok⟩ := Action.bind_eq_ok.1 hok
    obtain ⟨rfl, rfl⟩ := Action.ask_eq_ok.1 hask
    obtain ⟨rest, m', hrest, hok⟩ := Action.bind_eq_ok.1 hok
    obtain ⟨hrecords, rfl⟩ := Action.pure_eq_ok.1 hok
    obtain ⟨rest, rfl, rfl⟩ := Option.map_eq_some_iff.1 hrecords.symm
    exact ⟨reply, m', rest, hperform, Bool.not_eq_true _ ▸ hroom, hrest, rfl⟩

/-- An execution without operations records nothing. -/
theorem Twinned.execute_nil {acts : List Act} (h : Twinned T s t) (hnil : program acts = []) :
    (Session.execute acts).Yields ⟨t, es⟩ fun r _ => r = some [] := by
  induction acts generalizing t es with
  | nil => exact Action.yields_pure.2 rfl
  | cons act acts ih =>
    cases act with
    | chore c =>
      unfold Session.execute
      rw [Action.yields_bind]
      exact (h.chore_right c).mono fun _ _ h' => ih h' hnil
    | op op => exact absurd hnil (by simp [program])

/-- The work that an execution does before its first operation is not seen. -/
theorem Twinned.execute_cons {op : Op} {ops : List Op} {acts : List Act}
    {Q : Option (List (Option Reply × Session)) → Traced Session → Prop} (h : Twinned T s t)
    (hcons : program acts = op :: ops)
    (hop : ∀ {t es rest}, Twinned T s t → program rest = ops →
      (Session.execute (.op op :: rest)).Yields ⟨t, es⟩ Q) :
    (Session.execute acts).Yields ⟨t, es⟩ Q := by
  induction acts generalizing t es with
  | nil => exact absurd hcons (by simp [program])
  | cons act acts ih =>
    cases act with
    | chore c =>
      unfold Session.execute
      rw [Action.yields_bind]
      exact (h.chore_right c).mono fun _ _ h' => ih h' hcons
    | op op' =>
      obtain ⟨rfl, htail⟩ := List.cons.inj hcons
      exact hop h htail

/-- An operation that the first execution has done is done by the second one, and both go on from
sessions that are twins again. -/
theorem Twinned.execute_op {op : Op} {acts : List Act} {reply : Option Reply} {m : Traced Session}
    {rest : List (Option Reply × Session)} (h : Twinned T s t) (hop : op.isProgram = true)
    (hperform : Session.perform op ⟨s, es⟩ = .ok reply m)
    (hroom : reply.any Reply.isOutOfMemory = false)
    (hrest : ∀ {T t es}, Twinned T m.state t → (Session.execute acts).Yields ⟨t, es⟩ fun r _ =>
      ∀ records, r = some records → List.Forall₂ Agree rest records) :
    (Session.execute (.op op :: acts)).Yields ⟨t, es'⟩ fun r _ =>
      ∀ records, r = some records → List.Forall₂ Agree ((reply, m.state) :: rest) records := by
  unfold Session.execute
  rw [Action.yields_bind]
  refine (h.perform hop reply m hperform).mono fun reply' m' hstep => ?_
  rw [Action.yields_ite]
  constructor
  · -- without room in the second execution there is no record to compare
    intro _
    rw [Action.yields_pure]
    exact fun _ hr => absurd hr (by simp)
  · intro hroom'
    obtain ⟨T', hT', hreply⟩ := hstep hroom (Bool.not_eq_true _ ▸ hroom')
    rw [Action.yields_bind, Action.yields_ask, Action.yields_bind]
    refine (hrest hT').mono fun r _ hr => ?_
    rw [Action.yields_pure]
    intro records hrecords
    obtain ⟨rest', rfl, rfl⟩ := Option.map_eq_some_iff.1 hrecords
    exact .cons (hT'.agree hreply) (hr rest' rfl)

/-- **Executions of one program agree**, by induction on the first execution. -/
theorem Twinned.execute {acts acts' : List Act} {records : List (Option Reply × Session)}
    (h : Twinned T s t) (same : program acts = program acts')
    (hops : ∀ op ∈ program acts, op.isProgram = true)
    (done : execute acts ⟨s, es⟩ = .ok (some records) u) :
    (execute acts').Yields ⟨t, es'⟩ fun r _ =>
      ∀ records', r = some records' → List.Forall₂ Agree records records' := by
  induction acts generalizing s t T es es' acts' records with
  | nil =>
    obtain ⟨hrecords, -⟩ := Action.pure_eq_ok.1 done
    rw [Option.some.inj hrecords]
    refine (h.execute_nil same.symm).mono fun r _ hr records' hr' => ?_
    rw [← Option.some.inj (hr.symm.trans hr')]
    exact .nil
  | cons act acts ih =>
    cases act with
    | chore c =>
      -- the first session stays a twin of the second one
      obtain ⟨_, m, hchore, done⟩ := Action.bind_eq_ok.1 done
      exact ih ((h.chore_left c).elim hchore) same hops done
    | op op =>
      obtain ⟨reply, m, rest, hperform, hroom, hrest, rfl⟩ := execute_op_ok done
      have hop : op.isProgram = true := hops op List.mem_cons_self
      have hops' : ∀ op ∈ program acts, op.isProgram = true :=
        fun op hmem => hops op (List.mem_cons_of_mem _ hmem)
      -- the second execution does work of its own until it comes to the same operation
      refine h.execute_cons same.symm fun ht hprogram => ?_
      exact ht.execute_op hop hperform hroom fun hT => ih hT hprogram.symm hops' hrest

/-- **The collector is transparent.** Take two executions of one program, with any options and any
work of the collector in between. If the first one records all operations, so does the second one
unless it has no room for a pair, and it does not fault. After every operation the answers are the
same and the sessions look the same, by one renaming of the pairs and objects that the handles lead
to. -/
theorem execute_agree {o₁ o₂ : Options} {h₁ h₂ : Heap} (created₁ : Heap.create o₁ = .ok h₁)
    (created₂ : Heap.create o₂ = .ok h₂) {acts₁ acts₂ : List Act}
    (same : program acts₁ = program acts₂) (hops : ∀ op ∈ program acts₁, op.isProgram = true)
    (es₁ es₂ : Array Event) {records : List (Option Reply × Session)}
    (done : execute acts₁ ⟨{ heap := h₁ }, es₁⟩ = .ok (some records) u) :
    (execute acts₂).Yields ⟨{ heap := h₂ }, es₂⟩ fun r _ =>
      ∀ records', r = some records' → List.Forall₂ Agree records records' :=
  have start : Twinned [] { heap := h₁ } { heap := h₂ } := ⟨rfl, rfl, .create created₁ created₂⟩
  start.execute same hops done

/-- How many operations were recorded. -/
def recorded : EStateM.Result Fault (Traced Session) (Option (List (Option Reply × Session))) → Nat
  | .ok (some records) _ => records.length
  | _ => 0

theorem exists_records {r : EStateM.Result Fault (Traced Session) _} (h : 0 < recorded r) :
    ∃ records u, r = .ok (some records) u ∧ records.length = recorded r := by
  match r with
  | .ok (some records) u => exact ⟨records, u, rfl, rfl⟩
  | .ok none _ | .error _ _ => exact absurd h (Nat.lt_irrefl 0)

/-- A pair that holds itself and a symbol loses its handles, and is collected in the second
execution only, before the name is interned again. -/
theorem execute_agree_self_loop : ∃ records u h₂,
    execute [.op (.symbol "a"), .op (.cons 0 0), .op (.set 1 .cdr 1), .op (.get 1 .cdr),
        .op (.drop 1), .op (.drop 2), .op (.drop 0), .op (.symbol "a")]
      ⟨{ heap := { collector := .manualTwo } }, #[]⟩ = .ok (some records) u ∧
    records.length = 8 ∧
    Heap.create { pageSize := 1, garbageSteps := 3, recycleSteps := 1 } = .ok h₂ ∧
    (execute [.op (.symbol "a"), .op (.cons 0 0), .chore .finish, .op (.set 1 .cdr 1),
        .op (.get 1 .cdr), .op (.drop 1), .chore .step, .op (.drop 2), .op (.drop 0),
        .chore .collect, .op (.symbol "a")]).Yields ⟨{ heap := h₂ }, #[]⟩ fun r _ =>
      ∀ records', r = some records' → List.Forall₂ Agree records records' := by
  have hrecorded : recorded (execute [.op (.symbol "a"), .op (.cons 0 0), .op (.set 1 .cdr 1),
      .op (.get 1 .cdr), .op (.drop 1), .op (.drop 2), .op (.drop 0), .op (.symbol "a")]
      ⟨{ heap := { collector := .manualTwo } }, #[]⟩) = 8 := by
    decide +kernel
  obtain ⟨records, u, done, hlength⟩ :=
    exists_records (Nat.lt_of_lt_of_eq (by decide) hrecorded.symm)
  have created₁ : Heap.create (.manual 2) = .ok { collector := .manualTwo } := rfl
  obtain ⟨h₂, created₂⟩ : ∃ h₂,
      Heap.create { pageSize := 1, garbageSteps := 3, recycleSteps := 1 } = .ok h₂ := ⟨_, rfl⟩
  have hlength := hlength.trans hrecorded
  refine ⟨records, u, h₂, done, hlength, created₂, ?_⟩
  exact execute_agree created₁ created₂ (by rfl) (by decide) #[] #[] done

end Session

end ConsHeap
