import ConsHeap.SymbolTable
import ConsHeap.Proofs.Objects
import Mathlib.Data.Set.Insert

/-!
# The symbol table and the symbols alive

A symbol table holds no reference, so it can be out of date: an entry may name a symbol that has
died. `SymbolTable.Indexes t os made` says what is left to rely on, when `made` are the symbols that
the table has made. No name has two entries, an entry names one of them, dead or alive, and one that
is alive is found under its name. So the symbol alive of a name is a matter of `made` and of what is
alive, and not of the table (`Indexes.living?_eq_some`). Giving references up, pruning the table and
interning keep this.

Where all symbols are made by one table, `made` need not be kept apart: `SymbolTable.Tracks t os` is
for that case. Among the objects alive there is at most one symbol of each name then
(`Tracks.unique`). What interning answers is the symbol alive of that name, or else an object that
nothing holds yet (`Tracks.eq_intern_iff`).
-/

namespace ConsHeap

/-- All symbols, dead or alive, whoever made them. -/
def Objects.symbols (os : Objects) : Set ObjectId :=
  {o | ∃ name, os.value? o = some ⟨.symbol, name⟩}

theorem Objects.symbols_congr {os os' : Objects} (h : ∀ o, os'.value? o = os.value? o) :
    os'.symbols = os.symbols := by
  unfold symbols
  simp only [h]

namespace SymbolTable

variable {t : SymbolTable} {os os' : Objects} {o a : ObjectId} {m : Managed} {name : String}
  {cell : Cell} {made : Set ObjectId}

theorem mem_of_lookup (h : t.lookup name = some o) : (name, o) ∈ t.entries := by
  obtain ⟨l₁, l₂, he, -⟩ := List.lookup_eq_some_iff.1 h
  rw [he]
  exact List.mem_append_right _ List.mem_cons_self

/-- Pruning drops the entries of dead symbols only. -/
theorem lookup_prune (h : t.lookup name = some o) (ho : os.isLive o = true) :
    (t.prune os).lookup name = some o := by
  obtain ⟨l₁, l₂, he, hne⟩ := List.lookup_eq_some_iff.1 h
  have hentries : (t.prune os).entries = (l₁.filter fun e => os.isLive e.2) ++
      (name, o) :: l₂.filter fun e => os.isLive e.2 := by
    unfold prune
    rw [he, List.filter_append, List.filter_cons, if_pos ho]
  exact List.lookup_eq_some_iff.2 ⟨_, _, hentries, fun e hmem => hne e (List.mem_filter.1 hmem).1⟩

theorem living?_eq_some : t.living? os name = some o ↔
    t.lookup name = some o ∧ 0 < os.strong o := by
  unfold living? Objects.isLive
  rw [Option.filter_eq_some_iff, decide_eq_true_iff]

/-! ### The names of a table -/

/-- The names of the entries. -/
def keys (t : SymbolTable) : List String :=
  t.entries.map Prod.fst

theorem nodup_keys_prune (h : t.keys.Nodup) : (t.prune os).keys.Nodup :=
  h.sublist (List.filter_sublist.map _)

theorem nodup_keys_record (h : t.keys.Nodup) : (t.record name o).keys.Nodup := by
  refine List.nodup_cons.2 ⟨fun hmem => ?_, h.sublist (List.filter_sublist.map _)⟩
  obtain ⟨e, he, rfl⟩ := List.mem_map.1 hmem
  exact absurd (List.mem_filter.1 he).2 (by simp)

/-! ### What interning does to objects -/

/-- Whoever interns a name owns one reference. -/
theorem strong_intern (name : String) (a : ObjectId) :
    (t.intern os name).2.2.strong a =
      os.strong a + if .managed (t.intern os name).1 = Cell.managed a then 1 else 0 := by
  unfold SymbolTable.intern
  cases hl : t.living? os name with
  | some o =>
    -- the symbol is alive, so there is a count to be raised
    obtain ⟨-, hpos⟩ := living?_eq_some.1 hl
    refine Objects.strong_acquire fun b (hb : Cell.managed o = .managed b) => ?_
    rw [← Cell.managed.inj hb]
    exact Objects.lt_size_of_strong hpos
  | none => exact Objects.strong_alloc_add

/-- A dead symbol is not brought back: its name is interned anew. -/
theorem ages_intern (name : String) : os.Ages (t.intern os name).2.2 := by
  unfold SymbolTable.intern
  cases hl : t.living? os name with
  | some o =>
    obtain ⟨-, hpos⟩ := living?_eq_some.1 hl
    refine Objects.Ages.acquire fun a (ha : Cell.managed o = .managed a) => ?_
    rw [← Cell.managed.inj ha]
    exact hpos
  | none => exact .alloc _

/-! ### A table and the symbols it made -/

/-- The entries name symbols that the table made, and those of them that are alive have entries. -/
structure Indexes (t : SymbolTable) (os : Objects) (made : Set ObjectId) : Prop where
  nodup : t.keys.Nodup
  symbol : ∀ {o}, o ∈ made → ∃ name, os.value? o = some ⟨.symbol, name⟩
  entry : ∀ {name o}, (name, o) ∈ t.entries → o ∈ made ∧ os.value? o = some ⟨.symbol, name⟩
  lookup : ∀ {o name}, o ∈ made → 0 < os.strong o → os.value? o = some ⟨.symbol, name⟩ →
    t.lookup name = some o

namespace Indexes

theorem empty (os : Objects) : ({} : SymbolTable).Indexes os ∅ where
  nodup := List.nodup_nil
  symbol := fun ho => absurd ho (Set.notMem_empty _)
  entry := fun he => absurd he List.not_mem_nil
  lookup := fun ho => absurd ho (Set.notMem_empty _)

/-- **The table does not matter**: the symbol alive of a name is the one among those made. -/
theorem living?_eq_some (h : t.Indexes os made) : t.living? os name = some o ↔
    o ∈ made ∧ 0 < os.strong o ∧ os.value? o = some ⟨.symbol, name⟩ := by
  rw [SymbolTable.living?_eq_some]
  constructor
  · rintro ⟨hlookup, hpos⟩
    obtain ⟨hmade, hname⟩ := h.entry (mem_of_lookup hlookup)
    exact ⟨hmade, hpos, hname⟩
  · rintro ⟨hmade, hpos, hname⟩
    exact ⟨h.lookup hmade hpos hname, hpos⟩

/-- The symbols made stay what they are, and those dead stay dead. -/
theorem ages (h : t.Indexes os made) (ha : os.Ages os') : t.Indexes os' made where
  nodup := h.nodup
  symbol := fun ho => (h.symbol ho).imp fun _ hname => ha.value hname
  entry := fun he => (h.entry he).imp_right ha.value
  lookup := by
    intro o name ho hpos hname
    -- a symbol made keeps its name, and it was alive before if it is now
    obtain ⟨b, hb⟩ := h.symbol ho
    obtain rfl : b = name :=
      congrArg Managed.text (Option.some.inj ((ha.value hb).symm.trans hname))
    refine h.lookup ho (Nat.pos_of_ne_zero fun hdead => ?_) hb
    rw [ha.dead hb hdead] at hpos
    exact absurd hpos (Nat.lt_irrefl 0)

theorem prune (h : t.Indexes os made) : (t.prune os).Indexes os made where
  nodup := nodup_keys_prune h.nodup
  symbol := h.symbol
  entry := fun he => h.entry (prune_entries.1 he).1
  lookup := fun ho hpos hname => lookup_prune (h.lookup ho hpos hname) (decide_eq_true hpos)

/-- A new symbol takes the place of one that died. -/
theorem record (h : t.Indexes os made) (hnone : t.living? os name = none) :
    (t.record name (os.alloc ⟨.symbol, name⟩).1).Indexes (os.alloc ⟨.symbol, name⟩).2
      (insert (os.alloc ⟨.symbol, name⟩).1 made) where
  nodup := nodup_keys_record h.nodup
  symbol := by
    rintro o (rfl | ho)
    · exact ⟨name, Objects.value?_alloc_self⟩
    · exact (h.symbol ho).imp fun _ hname => Objects.value?_alloc hname
  entry := by
    intro b o he
    rcases List.mem_cons.1 he with he | he
    · obtain ⟨rfl, rfl⟩ := Prod.mk.inj he
      exact ⟨Set.mem_insert _ _, Objects.value?_alloc_self⟩
    · obtain ⟨ho, hname⟩ := h.entry (List.mem_filter.1 he).1
      exact ⟨Set.mem_insert_of_mem _ ho, Objects.value?_alloc hname⟩
  lookup := by
    intro o b ho hpos hname
    rw [lookup_record]
    by_cases hnew : o = (os.alloc ⟨.symbol, name⟩).1
    · -- the new symbol is what was recorded
      rw [hnew, Objects.value?_alloc_self] at hname
      obtain rfl : name = b := congrArg Managed.text (Option.some.inj hname)
      rw [if_pos rfl, hnew]
    · have hmade := ho.resolve_left hnew
      have hvalue := Objects.value?_of_alloc hnew hname
      rw [Objects.strong_alloc, if_neg hnew] at hpos
      -- a symbol alive of the name to intern would have been found
      have hb : b ≠ name := by
        rintro rfl
        have hfound := h.living?_eq_some.2 ⟨hmade, hpos, hvalue⟩
        rw [hnone] at hfound
        exact absurd hfound nofun
      rw [if_neg hb]
      exact h.lookup hmade hpos hvalue

theorem intern (h : t.Indexes os made) (name : String) :
    (t.intern os name).2.1.Indexes (t.intern os name).2.2
      (insert (t.intern os name).1 made) := by
  have hages : os.Ages (t.intern os name).2.2 := ages_intern name
  revert hages
  unfold SymbolTable.intern
  cases hl : t.living? os name with
  | some o =>
    -- the answer is one of those made, and only its count has changed
    intro hages
    have hmade := (h.living?_eq_some.1 hl).1
    rw [Set.insert_eq_of_mem hmade]
    exact h.ages hages
  | none => exact fun _ => h.record hl

/-- The answer is a symbol of the name. -/
theorem value?_intern_self (h : t.Indexes os made) (name : String) :
    (t.intern os name).2.2.value? (t.intern os name).1 = some ⟨.symbol, name⟩ := by
  unfold SymbolTable.intern
  cases hl : t.living? os name with
  | some o => exact (Objects.value?_recount o (· + 1)).trans (h.living?_eq_some.1 hl).2.2
  | none => exact Objects.value?_alloc_self

/-- Interning makes no other symbol. -/
theorem symbols_intern (h : t.Indexes os os.symbols) :
    (t.intern os name).2.2.symbols = insert (t.intern os name).1 os.symbols := by
  have hself := h.value?_intern_self name
  revert hself
  unfold SymbolTable.intern
  cases hl : t.living? os name with
  | some o =>
    intro _
    rw [Set.insert_eq_of_mem (h.living?_eq_some.1 hl).1]
    exact Objects.symbols_congr fun _ => Objects.value?_recount o (· + 1)
  | none =>
    -- only the new object was not there before
    intro hself
    ext a
    rw [Set.mem_insert_iff]
    constructor
    · rintro ⟨b, hb⟩
      by_cases ha : a = (os.alloc ⟨.symbol, name⟩).1
      · exact .inl ha
      · exact .inr ⟨b, Objects.value?_of_alloc ha hb⟩
    · rintro (rfl | ⟨b, hb⟩)
      · exact ⟨name, hself⟩
      · exact ⟨b, Objects.value?_alloc hb⟩

/-- Interning answers the symbol alive of the name, or else an object that is new. -/
theorem intern_cases (h : t.Indexes os made) (name : String) :
    (∀ {a}, a ∈ made → 0 < os.strong a → os.value? a = some ⟨.symbol, name⟩ →
      (t.intern os name).1 = a) ∧
    ((∀ a ∈ made, 0 < os.strong a → os.value? a ≠ some ⟨.symbol, name⟩) →
      os.value? (t.intern os name).1 = none) := by
  unfold SymbolTable.intern
  cases hl : t.living? os name with
  | some o =>
    -- what is alive under the name is found, so there is only one such symbol
    obtain ⟨hmade, hpos, hname⟩ := h.living?_eq_some.1 hl
    refine ⟨fun ha hapos haname => ?_, fun hno => absurd hname (hno o hmade hpos)⟩
    exact Option.some.inj (hl.symm.trans (h.living?_eq_some.2 ⟨ha, hapos, haname⟩))
  | none =>
    -- nothing was found, so no symbol made is alive under the name
    have hnew : os.value? (os.alloc ⟨.symbol, name⟩).1 = none := Objects.value?_fresh
    refine ⟨fun ha hapos haname => ?_, fun _ => hnew⟩
    have hfound := h.living?_eq_some.2 ⟨ha, hapos, haname⟩
    rw [hl] at hfound
    exact absurd hfound nofun

end Indexes

/-! ### Where all symbols are made by the table -/

/-- The entries name symbols, and the symbols alive have entries. -/
structure Tracks (t : SymbolTable) (os : Objects) : Prop where
  nodup : t.keys.Nodup
  named : ∀ e ∈ t.entries, os.value? e.2 = some ⟨.symbol, e.1⟩
  lookup : ∀ {o name}, 0 < os.strong o → os.value? o = some ⟨.symbol, name⟩ →
    t.lookup name = some o

namespace Tracks

/-- A table that makes all symbols is one for which all symbols are made. -/
theorem indexes_iff : t.Tracks os ↔ t.Indexes os os.symbols := by
  constructor
  · intro h
    exact ⟨h.nodup, id, fun he => ⟨⟨_, h.named _ he⟩, h.named _ he⟩,
      fun _ hpos hname => h.lookup hpos hname⟩
  · intro h
    exact ⟨h.nodup, fun e he => (h.entry he).2, fun hpos hname => h.lookup ⟨_, hname⟩ hpos hname⟩

theorem empty (os : Objects) (h : ∀ o, os.strong o = 0) : ({} : SymbolTable).Tracks os where
  nodup := List.nodup_nil
  named := fun _ he => absurd he List.not_mem_nil
  lookup := fun {o _} hpos => by
    rw [h o] at hpos
    exact absurd hpos (Nat.lt_irrefl 0)

/-- Two symbols alive of one name are one. -/
theorem unique (h : t.Tracks os) (ho : 0 < os.strong o) (ha : 0 < os.strong a)
    (hname : os.value? o = some ⟨.symbol, name⟩) (hname' : os.value? a = some ⟨.symbol, name⟩) :
    o = a :=
  Option.some.inj ((h.lookup ho hname).symm.trans (h.lookup ha hname'))

/-- Time may pass, as long as no object is made. -/
theorem ages (h : t.Tracks os) (ha : os.Ages os') (hvalue : ∀ o, os'.value? o = os.value? o) :
    t.Tracks os' := by
  rw [indexes_iff, Objects.symbols_congr hvalue]
  exact (indexes_iff.1 h).ages ha

theorem releases (h : t.Tracks os) (hr : os.Releases os') : t.Tracks os' :=
  h.ages hr.ages hr.value

/-- A cell of an object alive is copied. -/
theorem acquire (h : t.Tracks os) (hcell : ∀ a, cell = .managed a → 0 < os.strong a) :
    t.Tracks (os.acquire cell) :=
  h.ages (.acquire hcell) fun _ => Objects.value?_acquire

theorem prune (h : t.Tracks os) : (t.prune os).Tracks os :=
  indexes_iff.2 (indexes_iff.1 h).prune

/-- A new string is no symbol. -/
theorem alloc_string (h : t.Tracks os) (text : String) :
    t.Tracks (os.alloc ⟨.string, text⟩).2 where
  nodup := h.nodup
  named := fun e he => Objects.value?_alloc (h.named e he)
  lookup := fun {o _} hpos hname => by
    by_cases ho : o = (os.alloc ⟨.string, text⟩).1
    · rw [ho, Objects.value?_alloc_self] at hname
      exact absurd hname (by simp)
    · rw [Objects.strong_alloc, if_neg ho] at hpos
      exact h.lookup hpos (Objects.value?_of_alloc ho hname)

/-! ### Interning -/

theorem intern (h : t.Tracks os) (name : String) :
    (t.intern os name).2.1.Tracks (t.intern os name).2.2 := by
  have hindexes := indexes_iff.1 h
  rw [indexes_iff, hindexes.symbols_intern]
  exact hindexes.intern name

theorem value?_intern_self (h : t.Tracks os) (name : String) :
    (t.intern os name).2.2.value? (t.intern os name).1 = some ⟨.symbol, name⟩ :=
  (indexes_iff.1 h).value?_intern_self name

/-- **The symbol of a name is the one alive**: an object alive is what interning answers exactly
when it is a symbol of that name. -/
theorem eq_intern_iff (h : t.Tracks os) (name : String) (ha : 0 < os.strong a) :
    a = (t.intern os name).1 ↔ os.value? a = some ⟨.symbol, name⟩ := by
  unfold SymbolTable.intern
  cases hl : t.living? os name with
  | some o =>
    obtain ⟨hlookup, hpos⟩ := living?_eq_some.1 hl
    have hvalue := h.named _ (mem_of_lookup hlookup)
    constructor
    · intro he
      rw [he]
      exact hvalue
    · intro hname
      exact h.unique ha hpos hname hvalue
  | none =>
    -- the answer is new, and a symbol alive of the name would have been found
    constructor
    · intro he
      exact absurd he (Objects.ne_fresh ha ⟨.symbol, name⟩)
    · intro hname
      have hfound := living?_eq_some.2 ⟨h.lookup ha hname, ha⟩
      rw [hl] at hfound
      exact absurd hfound (by simp)

end Tracks

end SymbolTable

end ConsHeap
