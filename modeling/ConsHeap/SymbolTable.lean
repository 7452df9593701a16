import ConsHeap.Cell

/-!
# Symbol table

Symbols of one name are one object as long as some cell holds it. The table itself holds nothing:
it remembers under each name the last symbol made, and a name whose symbol has died is interned
anew. `prune` forgets the dead entries.

* `SymbolTable.lookup_record` — what a name means after another was recorded;
* `SymbolTable.prune_entries` — pruning keeps exactly the living entries.
-/

namespace ConsHeap

/-- The symbol last interned under each name. -/
structure SymbolTable where
  entries : List (String × ObjectId) := []

namespace SymbolTable

/-- The number of entries, those of dead symbols included. -/
def size (t : SymbolTable) : Nat :=
  t.entries.length

/-- The symbol last interned under a name. -/
def lookup (t : SymbolTable) (name : String) : Option ObjectId :=
  t.entries.lookup name

/-- The entry of a name, replaced or added. -/
def record (t : SymbolTable) (name : String) (o : ObjectId) : SymbolTable :=
  ⟨(name, o) :: t.entries.filter fun e => e.1 != name⟩

/-- The living symbol of a name. -/
def living? (t : SymbolTable) (os : Objects) (name : String) : Option ObjectId :=
  (t.lookup name).filter os.isLive

/-- The symbol of a name with one more reference: the living one, or else a new one. -/
def intern (t : SymbolTable) (os : Objects) (name : String) : ObjectId × SymbolTable × Objects :=
  match t.living? os name with
  | some o => (o, t, os.retain o)
  | none =>
    -- the entry of a dead symbol of this name is replaced
    let made := os.alloc ⟨.symbol, name⟩
    (made.1, t.record name made.1, made.2)

/-- The table without the entries of dead symbols. -/
def prune (t : SymbolTable) (os : Objects) : SymbolTable :=
  ⟨t.entries.filter fun e => os.isLive e.2⟩

/-- The number of entries that `prune` drops. -/
def dead (t : SymbolTable) (os : Objects) : Nat :=
  t.size - (t.prune os).size

theorem prune_entries {t : SymbolTable} {os : Objects} {e : String × ObjectId} :
    e ∈ (t.prune os).entries ↔ e ∈ t.entries ∧ os.isLive e.2 = true := by
  simp [prune, List.mem_filter]

private theorem lookup_filter_ne {es : List (String × ObjectId)} {a b : String} (h : b ≠ a) :
    (es.filter fun e => e.1 != a).lookup b = es.lookup b := by
  induction es with
  | nil => rfl
  | cons e es ih =>
    rcases e with ⟨n, o⟩
    -- an entry of the name `a` is dropped, and it was not the one looked for
    by_cases hn : n = a
    · subst hn
      have hb : (b == n) = false := by simpa using h
      simp [List.lookup_cons, hb, ih]
    · have hn' : (n != a) = true := by simpa using hn
      simp only [List.filter_cons, hn', if_true, List.lookup_cons]
      rw [ih]

theorem lookup_record (t : SymbolTable) (a b : String) (o : ObjectId) :
    (t.record a o).lookup b = if b = a then some o else t.lookup b := by
  by_cases h : b = a
  · subst h; simp [record, lookup]
  · have hb : (b == a) = false := by simpa using h
    simp only [record, lookup, List.lookup_cons, hb, h, if_false]
    exact lookup_filter_ne h

end SymbolTable

end ConsHeap
