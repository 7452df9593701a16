import ConsHeap.Cell.Op
import ConsHeap.Proofs.SymbolTable
import Mathlib.Data.Multiset.Count

/-!
# References held by a cell table

`CellTable.Step` lists what the operations on cells do when they end without a fault
(`CellTable.step_of_perform`, `CellTable.Step.perform`). Everything else that is proved of an
operation goes by these cases.

Each entry of the table owns one reference, and nothing else does (`Objects.Counts`). So an object
is alive exactly while an entry holds it, and an operation that copies an entry copies a cell of an
object alive: no object comes back from the dead (`CellTable.Step.ages`).
-/

namespace ConsHeap

/-! ### Objects and cells -/

namespace Objects

variable {os : Objects} {cells : Multiset Cell} {c : Cell} {o : ObjectId}

/-- Every reference is owned by one of the cells, and every cell owns one. -/
def Counts (os : Objects) (cells : Multiset Cell) : Prop :=
  ∀ o, os.strong o = cells.count (.managed o)

namespace Counts

theorem empty : ({} : Objects).Counts 0 :=
  fun o => (strong_empty o).trans (Multiset.count_zero _).symm

/-- An object is alive exactly while a cell holds it. -/
theorem isLive_iff (h : os.Counts cells) : os.isLive o = true ↔ .managed o ∈ cells := by
  rw [isLive, decide_eq_true_iff, h o, Multiset.count_pos]

theorem strong_pos (h : os.Counts cells) (hc : c ∈ cells) (ho : c = .managed o) :
    0 < os.strong o := by
  rw [h o, Multiset.count_pos, ← ho]
  exact hc

/-- Copy a cell that is there. -/
theorem acquire (h : os.Counts cells) (hc : c ∈ cells) : (os.acquire c).Counts (c ::ₘ cells) := by
  intro o
  rw [strong_acquire fun a ha => lt_size_of_strong (h.strong_pos hc ha), h o, Multiset.count_cons]
  simp only [eq_comm]

theorem discard (h : os.Counts (c ::ₘ cells)) : (os.discard c).Counts cells := by
  intro o
  rw [strong_discard, h o, Multiset.count_cons]
  simp only [eq_comm, Nat.add_sub_cancel]

/-- A new object comes with its first cell. -/
theorem alloc (h : os.Counts cells) (m : Managed) :
    (os.alloc m).2.Counts (.managed (os.alloc m).1 ::ₘ cells) := by
  intro o
  rw [strong_alloc_add, h o, Multiset.count_cons]
  simp only [eq_comm]

/-- A cell that holds no object owns no reference. -/
theorem plain (h : os.Counts cells) (hc : c.managed? = none) : os.Counts (c ::ₘ cells) := by
  intro o
  rw [h o, Multiset.count_cons_of_ne]
  rintro rfl
  exact absurd hc nofun

/-- Whoever interns a name gets a cell of the symbol. -/
theorem intern (h : os.Counts cells) (symbols : SymbolTable) (name : String) :
    (symbols.intern os name).2.2.Counts (.managed (symbols.intern os name).1 ::ₘ cells) := by
  intro o
  rw [SymbolTable.strong_intern, h o, Multiset.count_cons]
  simp only [eq_comm]

end Counts

end Objects

/-! ### Entries -/

namespace CellTable

variable {t t' s : CellTable} {c old new a b : Cell} {i j n : Nat} {op : Op} {reply : Reply}
  {es : Array Event} {u : Traced CellTable} {name : String}

/-- The cells of the table. -/
def contents (t : CellTable) : Multiset Cell :=
  (t.cells.toList : Multiset Cell)

theorem mem_contents : c ∈ t.contents ↔ c ∈ t.cells := by
  rw [contents, Multiset.mem_coe, Array.mem_toList_iff]

theorem mem_contents_of (hi : t.cells[i]? = some c) : c ∈ t.contents :=
  mem_contents.2 (Array.mem_of_getElem? hi)

/-- All entries but one. -/
def others (t : CellTable) (i : Nat) : Multiset Cell :=
  (t.cells.toList.eraseIdx i : Multiset Cell)

theorem contents_eq (hi : t.cells[i]? = some c) : t.contents = c ::ₘ t.others i := by
  obtain ⟨hlt, rfl⟩ := Array.getElem?_eq_some_iff.1 hi
  exact (Multiset.coe_eq_coe.2 (List.getElem_cons_eraseIdx_perm hlt)).symm

theorem contents_push (cells : Array Cell) (c : Cell) :
    ((cells.push c).toList : Multiset Cell) = c ::ₘ ↑cells.toList := by
  rw [Array.toList_push]
  exact Multiset.coe_eq_coe.2 (List.perm_append_singleton c _)

theorem contents_set (hi : t.cells[i]? = some old) (new : Cell) :
    ((t.cells.setIfInBounds i new).toList : Multiset Cell) = new ::ₘ t.others i := by
  obtain ⟨hlt, -⟩ := Array.getElem?_eq_some_iff.1 hi
  rw [Array.toList_setIfInBounds]
  exact Multiset.coe_eq_coe.2 (List.set_perm_cons_eraseIdx hlt new)

/-! ### What the operations do -/

/-- What an operation does to the table, and its answer. -/
inductive Step (t : CellTable) : Op → Reply → CellTable → Prop
  | intern (name : String) : Step t (.intern name) (.entry t.cells.size)
      { cells := t.cells.push (.managed (t.symbols.intern t.objects name).1)
        objects := (t.symbols.intern t.objects name).2.2
        symbols := (t.symbols.intern t.objects name).2.1 }
  | adopt (m : Managed) : Step t (.adopt m) (.entry t.cells.size)
      { t with
        cells := t.cells.push (.managed (t.objects.alloc m).1), objects := (t.objects.alloc m).2 }
  | plain {c : Cell} (hc : c.managed? = none) : Step t (.plain c hc) (.entry t.cells.size)
      { t with cells := t.cells.push c }
  | clone {i : Nat} {c : Cell} (hi : t.cells[i]? = some c) :
      Step t (.clone i) (.entry t.cells.size)
        { t with cells := t.cells.push c, objects := t.objects.acquire c }
  | take {i : Nat} {c : Cell} (hi : t.cells[i]? = some c) :
      Step t (.take i) (.entry t.cells.size)
        { t with cells := (t.cells.setIfInBounds i .nil).push c }
  | assign {i j : Nat} {old new : Cell} (hj : t.cells[j]? = some new)
      (hi : t.cells[i]? = some old) : Step t (.assign i j) .done
        { t with
          cells := t.cells.setIfInBounds i new, objects := (t.objects.acquire new).discard old }
  | unset {i : Nat} {old : Cell} (hi : t.cells[i]? = some old) : Step t (.unset i) .done
      { t with cells := t.cells.setIfInBounds i .nil, objects := t.objects.discard old }
  | drop {i : Nat} {old : Cell} (hi : t.cells[i]? = some old) : Step t (.drop i) .done
      { t with cells := t.cells.eraseIdxIfInBounds i, objects := t.objects.discard old }
  | equal {i j : Nat} {a b : Cell} (hi : t.cells[i]? = some a) (hj : t.cells[j]? = some b) :
      Step t (.equal i j) (.truth (a == b)) t
  | prune : Step t .prune (.pruned (t.symbols.dead t.objects))
      { t with symbols := t.symbols.prune t.objects }

theorem cell_eq_ok : t.cell i = .ok c ↔ t.cells[i]? = some c := by
  unfold cell
  cases t.cells[i]? <;> simp

theorem query_cell_eq_ok : (Action.query fun t : CellTable => t.cell i) ⟨t, es⟩ = .ok c u ↔
    t.cells[i]? = some c ∧ u = ⟨t, es⟩ := by
  rw [Action.query_eq_ok, cell_eq_ok]

theorem push_eq_ok : push c ⟨t, es⟩ = .ok n u ↔
    n = t.cells.size ∧ u = ⟨{ t with cells := t.cells.push c }, es⟩ :=
  Action.updateGet_eq_ok

theorem intern_eq_ok : CellTable.intern name ⟨t, es⟩ = .ok n u ↔ n = t.cells.size ∧
    u = ⟨{ cells := t.cells.push (.managed (t.symbols.intern t.objects name).1)
           objects := (t.symbols.intern t.objects name).2.2
           symbols := (t.symbols.intern t.objects name).2.1 }, es⟩ := by
  unfold CellTable.intern
  rw [Action.bind_eq_ok]
  constructor
  · rintro ⟨o, m, ho, hn⟩
    obtain ⟨rfl, rfl⟩ := Action.updateGet_eq_ok.1 ho
    exact push_eq_ok.1 hn
  · intro h
    exact ⟨_, _, Action.updateGet_eq_ok.2 ⟨rfl, rfl⟩, push_eq_ok.2 h⟩

theorem clone_eq_ok : clone i ⟨t, es⟩ = .ok n u ↔ ∃ c, t.cells[i]? = some c ∧ n = t.cells.size ∧
    u = ⟨{ t with cells := t.cells.push c, objects := t.objects.acquire c }, es⟩ := by
  simp [clone, acquire, Action.bind_eq_ok, query_cell_eq_ok, Action.update_eq_ok, push_eq_ok]

theorem take_eq_ok : take i ⟨t, es⟩ = .ok n u ↔ ∃ c, t.cells[i]? = some c ∧ n = t.cells.size ∧
    u = ⟨{ t with cells := (t.cells.setIfInBounds i .nil).push c }, es⟩ := by
  simp [take, put, Action.bind_eq_ok, query_cell_eq_ok, Action.update_eq_ok, push_eq_ok]

theorem assign_eq_ok : assign i j ⟨t, es⟩ = .ok () u ↔
    ∃ new, t.cells[j]? = some new ∧ ∃ old, t.cells[i]? = some old ∧
      u = ⟨{ t with cells := t.cells.setIfInBounds i new
                    objects := (t.objects.acquire new).discard old }, es⟩ := by
  simp [assign, put, acquire, discard, Action.bind_eq_ok, query_cell_eq_ok, Action.update_eq_ok]

theorem unset_eq_ok : unset i ⟨t, es⟩ = .ok () u ↔ ∃ old, t.cells[i]? = some old ∧
    u = ⟨{ t with cells := t.cells.setIfInBounds i .nil
                  objects := t.objects.discard old }, es⟩ := by
  simp [unset, put, discard, Action.bind_eq_ok, query_cell_eq_ok, Action.update_eq_ok]

theorem drop_eq_ok : drop i ⟨t, es⟩ = .ok () u ↔ ∃ old, t.cells[i]? = some old ∧
    u = ⟨{ t with cells := t.cells.eraseIdxIfInBounds i
                  objects := t.objects.discard old }, es⟩ := by
  simp [drop, discard, Action.bind_eq_ok, query_cell_eq_ok, Action.update_eq_ok]

theorem equal_eq_ok {r : Bool} : equal i j ⟨t, es⟩ = .ok r u ↔
    ∃ a, t.cells[i]? = some a ∧ ∃ b, t.cells[j]? = some b ∧ r = (a == b) ∧ u = ⟨t, es⟩ := by
  unfold equal
  rw [Action.bind_eq_ok]
  constructor
  · rintro ⟨a, m, ha, h⟩
    obtain ⟨hi, rfl⟩ := query_cell_eq_ok.1 ha
    obtain ⟨b, hb, rfl⟩ := Action.bind_pure_eq_ok.1 h
    obtain ⟨hj, rfl⟩ := query_cell_eq_ok.1 hb
    exact ⟨a, hi, b, hj, rfl, rfl⟩
  · rintro ⟨a, hi, b, hj, rfl, rfl⟩
    exact ⟨a, _, query_cell_eq_ok.2 ⟨hi, rfl⟩,
      Action.bind_pure_eq_ok.2 ⟨b, query_cell_eq_ok.2 ⟨hj, rfl⟩, rfl⟩⟩

theorem prune_eq_ok : prune ⟨t, es⟩ = .ok n u ↔ n = t.symbols.dead t.objects ∧
    u = ⟨{ t with symbols := t.symbols.prune t.objects }, es⟩ :=
  Action.updateGet_eq_ok

theorem adopt_eq_ok {m : Managed} : adopt m ⟨t, es⟩ = .ok n u ↔ n = t.cells.size ∧
    u = ⟨{ t with cells := t.cells.push (.managed (t.objects.alloc m).1)
                  objects := (t.objects.alloc m).2 }, es⟩ := by
  unfold adopt
  rw [Action.bind_eq_ok]
  constructor
  · rintro ⟨o, m, ho, hn⟩
    obtain ⟨rfl, rfl⟩ := Action.updateGet_eq_ok.1 ho
    exact push_eq_ok.1 hn
  · intro h
    exact ⟨_, _, Action.updateGet_eq_ok.2 ⟨rfl, rfl⟩, push_eq_ok.2 h⟩

/-- What was done is one of the steps. -/
theorem step_of_perform (h : perform op ⟨t, es⟩ = .ok reply u) :
    Step t op reply u.state ∧ u.events = es := by
  -- each case takes its program apart into the equation of its step
  cases op with
  | intern name =>
    obtain ⟨n, hn, rfl⟩ := Action.bind_pure_eq_ok.1 h
    obtain ⟨rfl, rfl⟩ := intern_eq_ok.1 hn
    exact ⟨.intern name, rfl⟩
  | adopt m =>
    obtain ⟨n, hn, rfl⟩ := Action.bind_pure_eq_ok.1 h
    obtain ⟨rfl, rfl⟩ := adopt_eq_ok.1 hn
    exact ⟨.adopt m, rfl⟩
  | plain c hc =>
    obtain ⟨n, hn, rfl⟩ := Action.bind_pure_eq_ok.1 h
    obtain ⟨rfl, rfl⟩ := push_eq_ok.1 hn
    exact ⟨.plain hc, rfl⟩
  | clone i =>
    -- these look an entry up before they add one
    obtain ⟨n, hn, rfl⟩ := Action.bind_pure_eq_ok.1 h
    obtain ⟨c, hi, rfl, rfl⟩ := clone_eq_ok.1 hn
    exact ⟨.clone hi, rfl⟩
  | take i =>
    obtain ⟨n, hn, rfl⟩ := Action.bind_pure_eq_ok.1 h
    obtain ⟨c, hi, rfl, rfl⟩ := take_eq_ok.1 hn
    exact ⟨.take hi, rfl⟩
  | assign i j =>
    -- these let go of the old contents of an entry, which the step names
    obtain ⟨_, hn, rfl⟩ := Action.bind_pure_eq_ok.1 h
    obtain ⟨new, hj, old, hi, rfl⟩ := assign_eq_ok.1 hn
    exact ⟨.assign hj hi, rfl⟩
  | unset i =>
    obtain ⟨_, hn, rfl⟩ := Action.bind_pure_eq_ok.1 h
    obtain ⟨old, hi, rfl⟩ := unset_eq_ok.1 hn
    exact ⟨.unset hi, rfl⟩
  | drop i =>
    obtain ⟨_, hn, rfl⟩ := Action.bind_pure_eq_ok.1 h
    obtain ⟨old, hi, rfl⟩ := drop_eq_ok.1 hn
    exact ⟨.drop hi, rfl⟩
  | equal i j =>
    -- two entries are looked at, and none is changed
    obtain ⟨r, hr, rfl⟩ := Action.bind_pure_eq_ok.1 h
    obtain ⟨a, hi, b, hj, rfl, rfl⟩ := equal_eq_ok.1 hr
    exact ⟨.equal hi hj, rfl⟩
  | prune =>
    obtain ⟨n, hn, rfl⟩ := Action.bind_pure_eq_ok.1 h
    obtain ⟨rfl, rfl⟩ := prune_eq_ok.1 hn
    exact ⟨.prune, rfl⟩

/-- Each step is done by its operation. -/
theorem Step.perform (h : Step t op reply t') (es : Array Event) :
    CellTable.perform op ⟨t, es⟩ = .ok reply ⟨t', es⟩ := by
  cases h with
  | intern name => exact Action.bind_pure_eq_ok.2 ⟨_, intern_eq_ok.2 ⟨rfl, rfl⟩, rfl⟩
  | adopt m => exact Action.bind_pure_eq_ok.2 ⟨_, adopt_eq_ok.2 ⟨rfl, rfl⟩, rfl⟩
  | plain hc => exact Action.bind_pure_eq_ok.2 ⟨_, push_eq_ok.2 ⟨rfl, rfl⟩, rfl⟩
  | clone hi => exact Action.bind_pure_eq_ok.2 ⟨_, clone_eq_ok.2 ⟨_, hi, rfl, rfl⟩, rfl⟩
  | take hi => exact Action.bind_pure_eq_ok.2 ⟨_, take_eq_ok.2 ⟨_, hi, rfl, rfl⟩, rfl⟩
  | assign hj hi => exact Action.bind_pure_eq_ok.2 ⟨_, assign_eq_ok.2 ⟨_, hj, _, hi, rfl⟩, rfl⟩
  | unset hi => exact Action.bind_pure_eq_ok.2 ⟨_, unset_eq_ok.2 ⟨_, hi, rfl⟩, rfl⟩
  | drop hi => exact Action.bind_pure_eq_ok.2 ⟨_, drop_eq_ok.2 ⟨_, hi, rfl⟩, rfl⟩
  | equal hi hj => exact Action.bind_pure_eq_ok.2 ⟨_, equal_eq_ok.2 ⟨_, hi, _, hj, rfl, rfl⟩, rfl⟩
  | prune => exact Action.bind_pure_eq_ok.2 ⟨_, prune_eq_ok.2 ⟨rfl, rfl⟩, rfl⟩

/-! ### What steps keep -/

namespace Step

/-- Each entry owns one reference after a step if it did before. -/
theorem counts (h : Step t op reply t') (hc : t.objects.Counts t.contents) :
    t'.objects.Counts t'.contents := by
  unfold contents
  cases h with
  | intern name =>
    rw [contents_push]
    exact hc.intern t.symbols name
  | adopt m =>
    rw [contents_push]
    exact hc.alloc m
  | plain hcell =>
    rw [contents_push]
    exact hc.plain hcell
  | clone hi =>
    rw [contents_push]
    exact hc.acquire (mem_contents_of hi)
  | take hi =>
    -- the entry that is left behind is nil, and the reference has moved to the new one
    rw [contents_push, contents_set hi, Multiset.cons_swap, ← contents_eq hi]
    exact hc.plain rfl
  | assign hj hi =>
    -- the old cell may be the only other one of the object of the new cell
    rw [contents_set hi]
    refine Objects.Counts.discard ?_
    rw [Multiset.cons_swap, ← contents_eq hi]
    exact hc.acquire (mem_contents_of hj)
  | unset hi =>
    -- the entry stays, but what it holds now owns nothing
    rw [contents_set hi]
    rw [contents_eq hi] at hc
    exact hc.discard.plain rfl
  | drop hi =>
    rw [contents_eq hi] at hc
    rw [Array.toList_eraseIdxIfInBounds]
    exact hc.discard
  | equal => exact hc
  | prune => exact hc

/-- No object comes back from the dead: what is copied is the cell of an entry. -/
theorem ages (h : Step t op reply t') (hc : t.objects.Counts t.contents) :
    t.objects.Ages t'.objects := by
  have hacquire : ∀ {i c}, t.cells[i]? = some c → t.objects.Ages (t.objects.acquire c) :=
    fun hi => .acquire fun a ha => hc.strong_pos (mem_contents_of hi) ha
  cases h with
  | intern name => exact SymbolTable.ages_intern name
  | adopt m => exact .alloc m
  | clone hi => exact hacquire hi
  | assign hj hi => exact (hacquire hj).trans (Objects.Releases.discard _ _).ages
  | unset hi => exact (Objects.Releases.discard _ _).ages
  | drop hi => exact (Objects.Releases.discard _ _).ages
  | plain | take | equal | prune => exact .refl _

end Step

end CellTable

end ConsHeap
