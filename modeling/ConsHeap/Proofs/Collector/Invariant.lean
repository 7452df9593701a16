import ConsHeap.Collector.Op
import ConsHeap.Proofs.Graph
import ConsHeap.Proofs.Store.Repaint

/-!
# The invariant of the collector

`Collector.Sound` collects what holds of a collector between two operations, and also between two
steps inside one:

* the store is in order, every slot in its place, and laid out as the options say;
* a slot has a root color exactly when its root count is positive (`rooted`);
* a live pair holds live pairs only (`closed`);
* a scanned pair holds no pair of the `from` generation (`tricolor`).

`Collector.graph` is what is left of a collector when colors and places are forgotten. Most changes
of a collector are recolorings, `Collector.Repaints`.
-/

namespace ConsHeap

/-! ### Colors in their roles -/

namespace Generation

variable {g : Generation} {c : Color}

/-- The color of a pair that was greyed. -/
def greyed (g : Generation) (c : Color) : Color :=
  if c = g.fromColor then .grey else if c = g.fromRoot then .greyRoot else c

theorem isLive_greyed : (g.greyed c).isLive = c.isLive := by
  cases g <;> cases c <;> rfl

theorem isRoot_greyed : (g.greyed c).isRoot = c.isRoot := by
  cases g <;> cases c <;> rfl

theorem isTo_greyed : g.isTo (g.greyed c) = g.isTo c := by
  cases g <;> cases c <;> rfl

theorem greyed_greyed : g.greyed (g.greyed c) = g.greyed c := by
  cases g <;> cases c <;> rfl

/-- Nothing that was greyed belongs to the `from` generation. -/
theorem isFrom_greyed : g.isFrom (g.greyed c) = false := by
  cases g <;> cases c <;> rfl

/-- Greying takes no pair out of use or into it, so the colors of the others stay. -/
theorem greyed_eq_iff {d : Color} (hd : d.isLive = false) : g.greyed c = d ↔ c = d := by
  revert hd
  cases g <;> cases c <;> cases d <;> decide

/-- What belongs to a generation is live. -/
theorem isLive_of_isTo (h : g.isTo c = true) : c.isLive = true := by
  revert h
  cases g <;> cases c <;> decide

theorem isLive_of_isFrom (h : g.isFrom c = true) : c.isLive = true := by
  revert h
  cases g <;> cases c <;> decide

theorem isFrom_eq_false_of_isTo (h : g.isTo c = true) : g.isFrom c = false := by
  revert h
  cases g <;> cases c <;> decide

theorem fromColor_ne_void : g.fromColor ≠ .void := by
  cases g <;> decide

theorem fromRoot_ne_void : g.fromRoot ≠ .void := by
  cases g <;> decide

theorem fromColor_ne_free : g.fromColor ≠ .free := by
  cases g <;> decide

theorem isFrom_fromColor : g.isFrom g.fromColor = true := by
  cases g <;> rfl

theorem isRoot_fromColor : g.fromColor.isRoot = false := by
  cases g <;> rfl

theorem isRoot_fromRoot : g.fromRoot.isRoot = true := by
  cases g <;> rfl

/-- An unrooted pair of the `to` generation has the `from` color once the generations are
swapped. -/
theorem eq_fromColor_flip (h : g.isTo c = true) (hr : c.isRoot = false) : c = g.flip.fromColor := by
  revert h hr
  cases g <;> cases c <;> decide

end Generation

theorem Color.not_isRoot_of_not_isLive {c : Color} (h : c.isLive = false) : c.isRoot = false := by
  revert h
  cases c <;> decide

theorem Color.isLive_of_isRoot {c : Color} (h : c.isRoot = true) : c.isLive = true := by
  revert h
  cases c <;> decide

theorem Color.isLive_of_isBulk {c : Color} (h : c.isBulk = true) : c.isLive = true := by
  revert h
  cases c <;> decide

theorem Color.not_isRoot_of_isBulk {c : Color} (h : c.isBulk = true) : c.isRoot = false := by
  revert h
  cases c <;> decide

/-- A live color is a bulk color or a root color, and not both. -/
theorem Color.isBulk_eq_of_isLive {c : Color} (h : c.isLive = true) : c.isBulk = !c.isRoot := by
  revert h
  cases c <;> decide

/-- A live color that is no root color is a bulk color. -/
theorem Color.isBulk_of_isLive {c : Color} (h : c.isLive = true) (hr : c.isRoot = false) :
    c.isBulk = true := by
  rw [isBulk_eq_of_isLive h, hr]
  rfl

theorem Color.ne_void_of_isLive {c : Color} (h : c.isLive = true) : c ≠ .void :=
  (Color.isLive_iff.1 h).1

/-- What a program sees of a slot. -/
def Slot.node (x : Slot) : Node :=
  ⟨x.car, x.cdr, x.rootCount⟩

namespace Collector

variable {c c' c'' : Collector} {id j child : PairId} {x y : Slot} {n : Node}
  {f g : PairId → Color → Color}

/-! ### Views -/

/-- What the slot of an id says, apart from its position in a class. -/
def look (c : Collector) (id : PairId) : Option Slot :=
  c.store.look id

/-- Whether a pair is in use. -/
def IsLive (c : Collector) (id : PairId) : Prop :=
  ∃ x, c.look id = some x ∧ x.color.isLive = true

/-- The pairs in use, without colors and places. -/
def graph (c : Collector) : Graph :=
  fun id => ((c.look id).filter fun x => x.color.isLive).map Slot.node

theorem graph_eq_some : c.graph id = some n ↔
    ∃ x, c.look id = some x ∧ x.color.isLive = true ∧ x.node = n := by
  rw [graph, Option.map_eq_some_iff]
  simp only [Option.filter_eq_some_iff, and_assoc]

theorem graph_of_look (hx : c.look id = some x) (hl : x.color.isLive = true) :
    c.graph id = some x.node :=
  graph_eq_some.2 ⟨x, hx, hl, rfl⟩

theorem graph_eq_none : c.graph id = none ↔ ¬c.IsLive id := by
  rw [Option.eq_none_iff_forall_ne_some]
  constructor
  · rintro h ⟨x, hx, hl⟩
    exact h _ (graph_of_look hx hl)
  · rintro h n hn
    obtain ⟨x, hx, hl, -⟩ := graph_eq_some.1 hn
    exact h ⟨x, hx, hl⟩

theorem isLive_iff : c.IsLive id ↔ ∃ n, c.graph id = some n := by
  constructor
  · rintro ⟨x, hx, hl⟩
    exact ⟨_, graph_of_look hx hl⟩
  · rintro ⟨n, hn⟩
    obtain ⟨x, hx, hl, -⟩ := graph_eq_some.1 hn
    exact ⟨x, hx, hl⟩

/-- What a slot says of its color decides whether its pair is in use. -/
theorem isLive_iff_of_look (hx : c.look id = some x) : c.IsLive id ↔ x.color.isLive = true := by
  refine ⟨fun hlive => ?_, fun hl => ⟨x, hx, hl⟩⟩
  obtain ⟨y, hy, hl⟩ := hlive
  obtain rfl := Option.some.inj (hx.symm.trans hy)
  exact hl

/-- Reading a slot is reading its view. -/
theorem slot_of_look (hx : c.look id = some x) :
    ∃ s, c.slot id = .ok s ∧ { s with index := 0 } = x := by
  obtain ⟨s, hs, he⟩ := Store.look_eq_some.1 hx
  -- the view forgets the position only, so it exists when the slot does
  exact ⟨s, Arena.slot_eq_ok.2 hs, he⟩

theorem slot?_of_slot {s : Slot} (hs : c.slot id = .ok s) :
    c.store.arena.slot? id = some s :=
  Arena.slot_eq_ok.1 hs

theorem look_of_slot {s : Slot} (hs : c.slot id = .ok s) :
    c.look id = some { s with index := 0 } :=
  Store.look_of_slot? (slot?_of_slot hs)

/-! ### The invariant -/

/-- What holds of a collector between two operations. -/
structure Sound (c : Collector) : Prop where
  store : c.store.Sound []
  pageSize_eq : c.store.arena.pageSize = c.options.pageSize
  maxPages_eq : c.store.arena.maxPages = c.options.maxPages
  /-- A root color stands for a positive root count. -/
  rooted : ∀ {id x}, c.look id = some x → (x.color.isRoot = true ↔ 0 < x.rootCount)
  /-- Live pairs hold live pairs. -/
  closed : ∀ {id x child}, c.look id = some x → x.color.isLive = true → child ∈ x.children →
    c.IsLive child
  /-- Scanned pairs hold no pair of the `from` generation. -/
  tricolor : ∀ {id x child y}, c.look id = some x → c.generation.isTo x.color = true →
    child ∈ x.children → c.look child = some y → c.generation.isFrom y.color = false

theorem Sound.empty {o : Options} (h : o.Valid) : (Collector.empty o h).Sound where
  store := .empty h.pageSize_pos
  pageSize_eq := rfl
  maxPages_eq := rfl
  rooted := fun hx => absurd hx (by simp [look, Store.look, Collector.empty, Arena.slot?_empty])
  closed := fun hx => absurd hx (by simp [look, Store.look, Collector.empty, Arena.slot?_empty])
  tricolor := fun hx => absurd hx (by simp [look, Store.look, Collector.empty, Arena.slot?_empty])

/-- Objects play no part in the invariant. -/
theorem Sound.withObjects (h : c.Sound) (os : Objects) :
    ({ c with objects := os } : Collector).Sound :=
  ⟨h.store, h.pageSize_eq, h.maxPages_eq, h.rooted, h.closed, h.tricolor⟩

theorem Sound.graph_closed (h : c.Sound) : c.graph.Closed := by
  intro id n child hn hchild
  obtain ⟨x, hx, hl, rfl⟩ := graph_eq_some.1 hn
  exact isLive_iff.1 (h.closed hx hl hchild)

/-- Only live pairs are reachable. -/
theorem Sound.isLive_of_reachable (h : c.Sound) (hid : c.graph.Reachable id) : c.IsLive id :=
  isLive_iff.2 (hid.exists_node h.graph_closed)

theorem Sound.isLive_of_look (h : c.Sound) (hx : c.look id = some x)
    (hid : c.graph.Reachable id) : x.color.isLive = true :=
  (isLive_iff_of_look hx).1 (h.isLive_of_reachable hid)

/-- A rooted pair is reachable. -/
theorem Sound.reachable_of_isRoot (h : c.Sound) (hx : c.look id = some x)
    (hr : x.color.isRoot = true) : c.graph.Reachable id :=
  .root (graph_of_look hx (Color.isLive_of_isRoot hr)) ((h.rooted hx).1 hr)

/-! ### Recoloring -/

/-- `c'` is `c` with every slot recolored by `f`, and nothing else changed. -/
structure Repaints (c : Collector) (f : PairId → Color → Color) (c' : Collector) : Prop where
  store : c.store.Repaints f c'.store
  frame : c' = { c with store := c'.store }

theorem Repaints.refl (h : c.store.Sound []) : c.Repaints (fun _ d => d) c :=
  ⟨.refl h, rfl⟩

theorem Repaints.trans (h : c.Repaints f c') (h' : c'.Repaints g c'') :
    c.Repaints (fun j d => g j (f j d)) c'' := by
  refine ⟨h.store.trans h'.store, ?_⟩
  rw [h'.frame, h.frame]

theorem Repaints.congr (h : c.Repaints f c')
    (hfg : ∀ j x, c.look j = some x → f j x.color = g j x.color) : c.Repaints g c' :=
  ⟨h.store.congr hfg, h.frame⟩

theorem Repaints.generation_eq (h : c.Repaints f c') : c'.generation = c.generation := by
  rw [h.frame]

end Collector

end ConsHeap
