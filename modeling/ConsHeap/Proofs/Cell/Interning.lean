import ConsHeap.Proofs.Cell.References
import ConsHeap.Proofs.Yields
import Mathlib.Data.Set.Card

/-!
# One symbol for each name

A symbol table answers for the symbols that it made, as long as they live, however often it is
pruned. What it made cannot be read off the table, which forgets the dead; so a run keeps a ledger
of the symbols that interning answered and of the names that were not forgotten since
(`CellTable.Ledger`).

`SymbolTable.Indexes t os made` ties the table to the symbols made. The symbol alive of a name is
then a matter of `os` and `made` alone (`Indexes.living?_eq_some`): tables that differ by pruning
answer every request for a name alike (`CellTable.Alike.step`).

* `CellTable.Sound.step` — what is true of a table and its ledger stays true;
* `CellTable.Sound.execute_repruned` — a program answers the same wherever it prunes;
* `CellTable.Run.one_symbol_per_name` — what follows for every state of a run.
-/

namespace ConsHeap

/-! ### The names of a table -/

namespace SymbolTable

variable {t : SymbolTable} {os os' : Objects} {o a : ObjectId} {name b : String}
  {made : Set ObjectId}

theorem mem_keys : name ∈ t.keys ↔ ∃ o, (name, o) ∈ t.entries := by
  unfold keys
  simp

theorem mem_keys_record : b ∈ (t.record name o).keys ↔ b = name ∨ b ∈ t.keys := by
  by_cases hb : b = name <;> simp [keys, record, hb]

/-- A name has an entry after it was interned, and no other name gets one. -/
theorem mem_keys_intern : b ∈ (t.intern os name).2.1.keys ↔
    b = name ∨ b ∈ t.keys := by
  unfold SymbolTable.intern
  cases hl : t.living? os name with
  | some o =>
    -- a symbol that was found has its entry already
    have hlookup := (living?_eq_some.1 hl).1
    have hkey : name ∈ t.keys := mem_keys.2 ⟨o, mem_of_lookup hlookup⟩
    exact ⟨.inr, fun hb => hb.elim (fun he => he ▸ hkey) id⟩
  | none => exact mem_keys_record

/-- Each name has one entry, so they can be counted. -/
theorem size_eq_ncard (h : t.keys.Nodup) :
    {name | name ∈ t.keys}.Finite ∧ t.size = {name | name ∈ t.keys}.ncard := by
  rw [← List.coe_toFinset]
  refine ⟨Finset.finite_toSet _, ?_⟩
  rw [Set.ncard_coe_finset, List.toFinset_card_of_nodup h]
  exact (List.length_map _).symm

namespace Indexes

/-- The names left by pruning are those of the symbols alive. -/
theorem mem_keys_prune (h : t.Indexes os made) : name ∈ (t.prune os).keys ↔
    ∃ o ∈ made, os.isLive o = true ∧ os.value? o = some ⟨.symbol, name⟩ := by
  rw [mem_keys]
  constructor
  · rintro ⟨o, he⟩
    obtain ⟨he, hlive⟩ := prune_entries.1 he
    obtain ⟨hmade, hname⟩ := h.entry he
    exact ⟨o, hmade, hlive, hname⟩
  · rintro ⟨o, hmade, hlive, hname⟩
    have hlookup := h.lookup hmade (of_decide_eq_true hlive) hname
    exact ⟨o, prune_entries.2 ⟨mem_of_lookup hlookup, hlive⟩⟩

end Indexes

end SymbolTable

/-! ### Runs -/

namespace CellTable

variable {t t' s s' : CellTable} {op : Op} {ops ops' : List Op} {reply : Reply}
  {replies : List Reply} {es es' : Array Event} {u : Traced CellTable} {name : String}
  {o a : ObjectId}

/-- What is remembered of a run: the symbols that interning has answered, and the names that were
interned and that no pruning has removed since because their symbol was dead. -/
structure Ledger where
  made : Set ObjectId := ∅
  names : Set String := ∅

namespace Ledger

variable {l k : Ledger}

/-- A symbol of a name that interning has answered and that is still alive. -/
def Living (l : Ledger) (t : CellTable) (name : String) (o : ObjectId) : Prop :=
  o ∈ l.made ∧ t.objects.isLive o = true ∧ t.objects.value? o = some ⟨.symbol, name⟩

/-- The ledger after an operation that took `t` to `t'`. -/
def after (l : Ledger) (t : CellTable) (op : Op) (reply : Reply) (t' : CellTable) : Ledger :=
  match op, reply with
  | .intern name, .entry i =>
    { made := {o | t'.cells[i]? = some (.managed o)} ∪ l.made, names := insert name l.names }
  | .prune, _ => { l with names := {name | name ∈ l.names ∧ ∃ o, l.Living t name o} }
  | _, _ => l

/-- Interning adds the symbol that its cell holds. -/
theorem made_intern {os : Objects} {symbols : SymbolTable} :
    (l.after t (.intern name) (.entry t.cells.size)
      ⟨t.cells.push (.managed o), os, symbols⟩).made = insert o l.made := by
  ext a
  change (t.cells.push (.managed o))[t.cells.size]? = some (.managed a) ∨ a ∈ l.made ↔ _
  rw [Array.getElem?_push_size, Option.some.injEq, Cell.managed.injEq, Set.mem_insert_iff,
    eq_comm]

end Ledger

variable {l k : Ledger}

/-- `t` is reached from an empty table by operations that end without a fault; `l` is the ledger of
the run. -/
inductive Run : Ledger → CellTable → Prop
  | start : Run {} {}
  | perform {l : Ledger} {t t' : CellTable} {op : Op} {reply : Reply} {es es' : Array Event}
    (run : Run l t) (done : CellTable.perform op ⟨t, es⟩ = .ok reply ⟨t', es'⟩) :
    Run (l.after t op reply t') t'

/-- What holds of a table that is used by operations only. -/
structure Sound (t : CellTable) (l : Ledger) : Prop where
  counts : t.objects.Counts t.contents
  indexes : t.symbols.Indexes t.objects l.made
  names : l.names = {name | name ∈ t.symbols.keys}

theorem Sound.nodup (h : t.Sound l) : t.symbols.keys.Nodup :=
  h.indexes.nodup

theorem Sound.empty : ({} : CellTable).Sound {} where
  counts := .empty
  indexes := .empty _
  names := by
    ext name
    simp [SymbolTable.keys]

/-- **Operations keep the ledger**, interning by adding to it, and pruning by what it removes. -/
theorem Sound.step (h : t.Sound l) (hs : Step t op reply t') :
    t'.Sound (l.after t op reply t') := by
  have hages := hs.ages h.counts
  have hcounts := hs.counts h.counts
  cases hs with
  | intern name =>
    refine ⟨hcounts, ?_, ?_⟩
    · rw [Ledger.made_intern]
      exact h.indexes.intern name
    · ext b
      change b ∈ insert name l.names ↔ b ∈ (t.symbols.intern t.objects name).2.1.keys
      rw [SymbolTable.mem_keys_intern, h.names]
      rfl
  | prune =>
    refine ⟨hcounts, h.indexes.prune, ?_⟩
    ext b
    change (b ∈ l.names ∧ ∃ o, l.Living t b o) ↔ b ∈ (t.symbols.prune t.objects).keys
    rw [h.indexes.mem_keys_prune, and_iff_right_of_imp]
    · rfl
    · -- a symbol alive has an entry
      rintro ⟨o, hmade, hlive, hname⟩
      rw [h.names]
      exact SymbolTable.mem_keys.2
        ⟨o, SymbolTable.mem_of_lookup (h.indexes.lookup hmade (of_decide_eq_true hlive) hname)⟩
  | adopt | plain | clone | take | assign | unset | drop | equal =>
    -- nothing else touches the symbol table; symbols may die
    exact ⟨hcounts, h.indexes.ages hages, h.names⟩

theorem Run.next (run : Run l t) (hs : Step t op reply t') : Run (l.after t op reply t') t' :=
  run.perform (hs.perform #[])

theorem Run.sound (run : Run l t) : t.Sound l := by
  induction run with
  | start => exact .empty
  | perform _ done ih => exact ih.step (step_of_perform done).1

/-! ### Tables that differ by pruning -/

/-- Two tables with the same cells and objects, after runs that have interned the same symbols. What
their symbol tables have forgotten may differ. -/
structure Alike (t s : CellTable) (l k : Ledger) : Prop where
  left : t.Sound l
  right : s.Sound k
  cells : s.cells = t.cells
  objects : s.objects = t.objects
  made : k.made = l.made

theorem Alike.refl (h : t.Sound l) : Alike t t l l :=
  ⟨h, h, rfl, rfl, rfl⟩

theorem Alike.symm (h : Alike t s l k) : Alike s t k l :=
  ⟨h.right, h.left, h.cells.symm, h.objects.symm, h.made.symm⟩

/-- The symbols alive are the same in both. -/
theorem Alike.living?_eq (h : Alike t s l k) (name : String) :
    s.symbols.living? t.objects name = t.symbols.living? t.objects name := by
  have hs := h.right.indexes
  rw [h.objects, h.made] at hs
  refine Option.ext fun o => ?_
  rw [hs.living?_eq_some, h.left.indexes.living?_eq_some]

/-- Pruning one of them makes no difference. -/
theorem Alike.prune (h : Alike t s l k) (hs : Step t .prune reply t') :
    Alike t' s (l.after t .prune reply t') k := by
  have hsound := h.left.step hs
  cases hs
  exact ⟨hsound, h.right, h.cells, h.objects, h.made⟩

theorem Op.eq_prune (h : op.isPrune = true) : op = .prune := by
  cases op with
  | prune => rfl
  | _ => exact absurd h nofun

theorem Step.isPruned (hs : Step t op reply t') : reply.isPruned = op.isPrune := by
  cases hs <;> rfl

/-- What is made follows from the answers and the cells. -/
theorem Ledger.made_congr (hmade : k.made = l.made) (hcells : s'.cells = t'.cells) :
    (k.after s op reply s').made = (l.after t op reply t').made := by
  unfold Ledger.after
  split
  · rw [hmade, hcells]
  · exact hmade
  · exact hmade

/-- Every other operation can be done in both, with the same answer, cells and objects. -/
theorem Alike.exists_step (h : Alike t s l k) (hs : Step t op reply t') (hop : op.isPrune = false) :
    ∃ s', Step s op reply s' ∧ s'.cells = t'.cells ∧ s'.objects = t'.objects := by
  -- the right table is the left one with another symbol table
  have hliving := h.living?_eq
  have hcells := h.cells
  have hobjects := h.objects
  clear h
  obtain ⟨cells, objects, symbols⟩ := s
  obtain rfl : cells = t.cells := hcells
  obtain rfl : objects = t.objects := hobjects
  cases hs with
  | intern name =>
    -- the table is only asked for the symbol alive
    have hsame : (symbols.intern t.objects name).1 = (t.symbols.intern t.objects name).1 ∧
        (symbols.intern t.objects name).2.2 = (t.symbols.intern t.objects name).2.2 := by
      unfold SymbolTable.intern
      rw [hliving name]
      cases t.symbols.living? t.objects name with
      | some o => exact ⟨rfl, rfl⟩
      | none => exact ⟨rfl, rfl⟩
    refine ⟨_, .intern name, ?_, hsame.2⟩
    exact congrArg (fun o => t.cells.push (.managed o)) hsame.1
  | adopt m => exact ⟨_, .adopt m, rfl, rfl⟩
  | plain hc => exact ⟨_, .plain hc, rfl, rfl⟩
  | clone hi => exact ⟨_, .clone hi, rfl, rfl⟩
  | take hi => exact ⟨_, .take hi, rfl, rfl⟩
  | assign hj hi => exact ⟨_, .assign hj hi, rfl, rfl⟩
  | unset hi => exact ⟨_, .unset hi, rfl, rfl⟩
  | drop hi => exact ⟨_, .drop hi, rfl, rfl⟩
  | equal hi hj => exact ⟨_, .equal hi hj, rfl, rfl⟩
  | prune => exact absurd hop nofun

/-- **Every operation but pruning does the same in both.** -/
theorem Alike.step (h : Alike t s l k) (hs : Step t op reply t') (hop : op.isPrune = false) :
    ∃ s', Step s op reply s' ∧ Alike t' s' (l.after t op reply t') (k.after s op reply s') := by
  obtain ⟨s', hs', hcells, hobjects⟩ := h.exists_step hs hop
  exact ⟨s', hs', h.left.step hs, h.right.step hs', hcells, hobjects,
    Ledger.made_congr h.made hcells⟩

/-! ### Programs that differ by pruning -/

theorem execute_cons_eq_ok : execute (op :: ops) ⟨t, es⟩ = .ok replies u ↔ ∃ reply t' rest,
    Step t op reply t' ∧ execute ops ⟨t', es⟩ = .ok rest u ∧ replies = reply :: rest := by
  conv_lhs => unfold execute
  rw [Action.bind_eq_ok]
  constructor
  · rintro ⟨reply, ⟨t', es'⟩, hreply, h⟩
    obtain ⟨hs, rfl⟩ := step_of_perform hreply
    obtain ⟨rest, hrest, rfl⟩ := Action.bind_pure_eq_ok.1 h
    exact ⟨reply, t', rest, hs, hrest, rfl⟩
  · rintro ⟨reply, t', rest, hs, hrest, rfl⟩
    exact ⟨reply, _, hs.perform es, Action.bind_pure_eq_ok.2 ⟨rest, hrest, rfl⟩⟩

/-- The operations of a program, without the calls that prune. -/
def withoutPruning (ops : List Op) : List Op :=
  ops.filter fun op => !op.isPrune

/-- The answers of a program, without those of calls that prune. -/
def answers (replies : List Reply) : List Reply :=
  replies.filter fun reply => !reply.isPruned

theorem withoutPruning_cons (h : op.isPrune = false) :
    withoutPruning (op :: ops) = op :: withoutPruning ops :=
  List.filter_cons_of_pos (by rw [h]; rfl)

theorem answers_cons (h : reply.isPruned = false) :
    answers (reply :: replies) = reply :: answers replies :=
  List.filter_cons_of_pos (by rw [h]; rfl)

/-- A program can be left without its calls that prune. -/
theorem Alike.execute_withoutPruning (h : Alike t s l k)
    (hrun : execute ops ⟨t, es⟩ = .ok replies u) (es' : Array Event) :
    ∃ v, execute (withoutPruning ops) ⟨s, es'⟩ = .ok (answers replies) v ∧
      v.state.cells = u.state.cells ∧ v.state.objects = u.state.objects := by
  induction ops generalizing t s l k replies with
  | nil =>
    obtain ⟨rfl, rfl⟩ := Action.pure_eq_ok.1 hrun
    exact ⟨⟨s, es'⟩, rfl, h.cells, h.objects⟩
  | cons op ops ih =>
    obtain ⟨reply, t', rest, hs, hrest, rfl⟩ := execute_cons_eq_ok.1 hrun
    cases hop : op.isPrune with
    | true =>
      -- only the left table is pruned
      obtain rfl := Op.eq_prune hop
      have h' := h.prune hs
      cases hs
      obtain ⟨v, hv, hsame⟩ := ih h' hrest
      exact ⟨v, hv, hsame⟩
    | false =>
      obtain ⟨s', hs', h'⟩ := h.step hs hop
      obtain ⟨v, hv, hsame⟩ := ih h' hrest
      rw [withoutPruning_cons hop, answers_cons (hs.isPruned.trans hop)]
      exact ⟨v, execute_cons_eq_ok.2 ⟨reply, s', _, hs', hv, rfl⟩, hsame⟩

/-- Calls that prune can be put into a program anywhere. -/
theorem Alike.execute_withPruning (h : Alike t s l k)
    (hrun : execute (withoutPruning ops) ⟨t, es⟩ = .ok replies u) (es' : Array Event) :
    ∃ replies' v, execute ops ⟨s, es'⟩ = .ok replies' v ∧ answers replies' = replies ∧
      v.state.cells = u.state.cells ∧ v.state.objects = u.state.objects := by
  induction ops generalizing t s l k replies with
  | nil =>
    obtain ⟨rfl, rfl⟩ := Action.pure_eq_ok.1 hrun
    exact ⟨[], ⟨s, es'⟩, rfl, rfl, h.cells, h.objects⟩
  | cons op ops ih =>
    cases hop : op.isPrune with
    | true =>
      -- the right table can be pruned at any time
      obtain rfl := Op.eq_prune hop
      obtain ⟨replies', v, hv, hanswers, hsame⟩ := ih (h.symm.prune .prune).symm hrun
      exact ⟨_, v, execute_cons_eq_ok.2 ⟨_, _, _, .prune, hv, rfl⟩, hanswers, hsame⟩
    | false =>
      rw [withoutPruning_cons hop] at hrun
      obtain ⟨reply, t', rest, hs, hrest, rfl⟩ := execute_cons_eq_ok.1 hrun
      obtain ⟨s', hs', h'⟩ := h.step hs hop
      obtain ⟨replies', v, hv, hanswers, hsame⟩ := ih h' hrest
      refine ⟨_, v, execute_cons_eq_ok.2 ⟨reply, s', _, hs', hv, rfl⟩, ?_, hsame⟩
      rw [answers_cons (hs.isPruned.trans hop), hanswers]

/-- **Programs that differ by pruning only answer the same.** -/
theorem Sound.execute_repruned (h : t.Sound l) (hops : withoutPruning ops = withoutPruning ops')
    (hrun : execute ops ⟨t, es⟩ = .ok replies u) :
    ∃ replies' u', execute ops' ⟨t, es⟩ = .ok replies' u' ∧ answers replies' = answers replies ∧
      u'.state.cells = u.state.cells ∧ u'.state.objects = u.state.objects := by
  obtain ⟨v, hv, hcells, hobjects⟩ := (Alike.refl h).execute_withoutPruning hrun es
  rw [hops] at hv
  obtain ⟨replies', u', hu', hanswers, hcells', hobjects'⟩ :=
    (Alike.refl h).execute_withPruning hv es
  exact ⟨replies', u', hu', hanswers, hcells'.trans hcells, hobjects'.trans hobjects⟩

/-! ### One symbol for each name -/

/-- The entries that pruning drops are those that are not kept. -/
theorem dead_eq (symbols : SymbolTable) (os : Objects) :
    symbols.dead os = (symbols.entries.filter fun e => !os.isLive e.2).length := by
  have hsum := List.length_eq_length_filter_add (fun e => os.isLive e.2) (l := symbols.entries)
  unfold SymbolTable.dead SymbolTable.size SymbolTable.prune
  exact Nat.sub_eq_of_eq_add' hsum

/-- **One symbol for each name, whatever is pruned.** In every state that operations on cells lead
to, the symbols that interning has answered are alive exactly while a cell holds them, and two of
them that are alive have equal names exactly if they are one object. Interning a name answers the
one alive, if there is one, and else an object that was not there before. Pruning answers the number
of entries whose symbol is dead, and keeps the others. The size of the table is the number of names
that were interned and were not removed by pruning since. And when a program goes on from there,
calls that prune may be put in and left out anywhere: the other answers are the same, comparisons of
cells among them, and so are the cells and the objects in the end. -/
theorem Run.one_symbol_per_name (run : Run l t) (es : Array Event) :
    (∀ o ∈ l.made, (∃ name, t.objects.value? o = some ⟨.symbol, name⟩) ∧
      (t.objects.isLive o = true ↔ .managed o ∈ t.cells)) ∧
    (∀ o a name name', l.Living t name o → l.Living t name' a → (name = name' ↔ o = a)) ∧
    (∀ name, (CellTable.intern name).Yields ⟨t, es⟩ fun i u => ∃ o,
      u.state.cells[i]? = some (.managed o) ∧
      u.state.objects.value? o = some ⟨.symbol, name⟩ ∧
      (∀ a, l.Living t name a → o = a) ∧
      ((∀ a, ¬l.Living t name a) → t.objects.value? o = none)) ∧
    (CellTable.prune.Yields ⟨t, es⟩ fun n u =>
      n = (t.symbols.entries.filter fun e => !t.objects.isLive e.2).length ∧
      (∀ e, e ∈ u.state.symbols.entries ↔ e ∈ t.symbols.entries ∧ t.objects.isLive e.2 = true) ∧
      (∀ name o, l.Living t name o → (name, o) ∈ u.state.symbols.entries) ∧
      u.state.cells = t.cells ∧ u.state.objects = t.objects) ∧
    (l.names.Finite ∧ t.symbols.size = l.names.ncard) ∧
    ∀ ops ops' replies u, withoutPruning ops = withoutPruning ops' →
      execute ops ⟨t, es⟩ = .ok replies u →
      ∃ replies' u', execute ops' ⟨t, es⟩ = .ok replies' u' ∧ answers replies' = answers replies ∧
        u'.state.cells = u.state.cells ∧ u'.state.objects = u.state.objects := by
  have h := run.sound
  -- a living symbol has references, so the table finds it under its name
  have hpos : ∀ {name o}, l.Living t name o → 0 < t.objects.strong o :=
    fun ho => of_decide_eq_true ho.2.1
  have hlookup : ∀ {name o}, l.Living t name o → t.symbols.lookup name = some o :=
    fun ho => h.indexes.lookup ho.1 (hpos ho) ho.2.2
  refine ⟨fun o ho => ⟨h.indexes.symbol ho, ?_⟩, fun o a name name' ho ha => ⟨?_, ?_⟩,
    fun name => ?_, ?_, ?_, fun ops ops' replies u hops hrun => h.execute_repruned hops hrun⟩
  · rw [h.counts.isLive_iff, mem_contents]
  · rintro rfl
    exact Option.some.inj ((hlookup ho).symm.trans (hlookup ha))
  · rintro rfl
    exact congrArg Managed.text (Option.some.inj (ho.2.2.symm.trans ha.2.2))
  · obtain ⟨hliving, hnew⟩ := h.indexes.intern_cases name
    exact ⟨_, _, intern_eq_ok.2 ⟨rfl, rfl⟩, _, Array.getElem?_push_size,
      h.indexes.value?_intern_self name, fun a ha => hliving ha.1 (hpos ha) ha.2.2,
      fun hno => hnew fun a hmade halive hname => hno a ⟨hmade, decide_eq_true halive, hname⟩⟩
  · refine ⟨_, _, prune_eq_ok.2 ⟨rfl, rfl⟩, dead_eq _ _, fun _ => SymbolTable.prune_entries,
      fun name o ho => ?_, rfl, rfl⟩
    exact SymbolTable.prune_entries.2 ⟨SymbolTable.mem_of_lookup (hlookup ho), ho.2.1⟩
  · rw [h.names]
    exact SymbolTable.size_eq_ncard h.nodup

/-- A symbol has died, its name was interned anew, and there is a symbol of the same name from
elsewhere. The new one is answered again, and equal to its cell only, with pruning or without. -/
theorem one_symbol_per_name_reborn : ∃ l t, Run l t ∧
    t.cells = #[.nil, .managed ⟨1⟩, .managed ⟨2⟩] ∧ l.names.ncard = 1 ∧
    ∃ replies u, execute [.prune, .intern "a", .prune, .equal 1 3, .equal 1 2] ⟨t, #[]⟩ =
      .ok replies u ∧ answers replies = [.entry 3, .truth true, .truth false] := by
  obtain ⟨_, first⟩ : ∃ l, Run l ⟨#[.managed ⟨0⟩], ⟨#[⟨⟨.symbol, "a"⟩, 1⟩]⟩, ⟨[("a", ⟨0⟩)]⟩⟩ :=
    ⟨_, Run.start.next (.intern "a")⟩
  obtain ⟨_, died⟩ : ∃ l, Run l ⟨#[.nil], ⟨#[⟨⟨.symbol, "a"⟩, 0⟩]⟩, ⟨[("a", ⟨0⟩)]⟩⟩ :=
    ⟨_, first.perform (show CellTable.perform (.unset 0) ⟨_, #[]⟩ = .ok .done ⟨_, #[]⟩ from rfl)⟩
  obtain ⟨_, reborn⟩ : ∃ l, Run l ⟨#[.nil, .managed ⟨1⟩],
      ⟨#[⟨⟨.symbol, "a"⟩, 0⟩, ⟨⟨.symbol, "a"⟩, 1⟩]⟩, ⟨[("a", ⟨1⟩)]⟩⟩ :=
    ⟨_, died.next (.intern "a")⟩
  have foreign := reborn.next (.adopt ⟨.symbol, "a"⟩)
  obtain ⟨-, -, -, -, ⟨-, hsize⟩, hexecute⟩ := Run.one_symbol_per_name foreign #[]
  obtain ⟨replies, u, hrun, hanswers, -⟩ :=
    hexecute [.intern "a", .equal 1 3, .equal 1 2]
      [.prune, .intern "a", .prune, .equal 1 3, .equal 1 2]
      [.entry 3, .truth true, .truth false] _ rfl rfl
  exact ⟨_, _, foreign, rfl, hsize.symm, replies, u, hrun, hanswers⟩

end CellTable

end ConsHeap
