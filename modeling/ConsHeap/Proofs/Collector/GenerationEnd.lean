import ConsHeap.Proofs.Collector.Exactness
import ConsHeap.Proofs.Store.Order

/-!
# What the end of a generation does

A generation that is finished scans until nothing is left to scan, and disposes of the pairs that
still carry the `from` color. Which ones these will be is known in every state before: a pair is
*due* if it is rooted and not scanned yet, or was greyed, and a pair of the `from` color is *doomed*
if no pair that is due leads to it (`Collector.IsDoomed`).

The loop takes pairs from three classes and puts pairs into two of them, in an order that depends on
where the members stand. What it does not change is the set of pairs that are scanned or to which a
pair due leads (`Collector.Scanned.spared_iff`). A scanned pair only holds pairs of that set, by the
invariant of the colors, so a way from a pair due may run through scanned pairs and adds nothing
there. When no pair is due any more, the pairs of the set are those of the `to` generation.

* `Collector.Sound.finish_outcome` — what becomes of every slot, and of the class of free pairs;
* `Collector.Outcome.look_eq` — the order of the members has no part in it;
* `Collector.Run.finish_exact` — both, for every state of a run.
-/

namespace ConsHeap

/-! ### Ways from a set of pairs -/

/-- The pairs of a set, and all that they lead to. -/
inductive Graph.Leads (G : Graph) (S : PairId → Prop) : PairId → Prop where
  | start {id : PairId} (mem : S id) : Leads G S id
  | edge {id child : PairId} {n : Node} (leads : Leads G S id) (node : G id = some n)
    (mem : child ∈ n.children) : Leads G S child

/-- Ways from a set do not leave a larger set that is closed under edges. -/
theorem Graph.Leads.within {G : Graph} {S T : PairId → Prop} {id : PairId} (h : G.Leads S id)
    (hS : ∀ j, S j → T j) (hT : ∀ j n child, T j → G j = some n → child ∈ n.children → T child) :
    T id := by
  induction h with
  | start mem => exact hS _ mem
  | edge _ node mem ih => exact hT _ _ _ ih node mem

/-! ### Colors -/

namespace Generation

variable {g : Generation} {d : Color}

/-- The colors of the pairs that are scanned whatever else is found. -/
def isDue (g : Generation) (d : Color) : Bool :=
  d == g.fromRoot || d == .greyRoot || d == .grey

/-- A live pair is due, it was scanned, or it is of the `from` color. -/
theorem isDue_cases (hl : d.isLive = true) :
    g.isDue d = true ∨ g.isTo d = true ∨ d = g.fromColor := by
  revert hl
  cases g <;> cases d <;> decide

/-- What is due stays due when it is greyed. -/
theorem isDue_greyed (h : g.isDue d = true) : g.isDue (g.greyed d) = true := by
  revert h
  cases g <;> cases d <;> decide

/-- The live colors that are not of the `from` generation. -/
theorem isFrom_of_mem (h : d ∈ [.grey, .greyRoot, g.toColor, g.toRoot]) :
    d.isLive = true ∧ g.isFrom d = false := by
  revert h
  cases g <;> cases d <;> decide

theorem isTo_fromColor : g.isTo g.fromColor = false := by
  cases g <;> rfl

end Generation

namespace Collector

variable {c c' c₀ d u v : Collector} {id j child : PairId} {x y : Slot} {es : Array Event}
  {m n : Nat} {target : Color} {past : List Collector} {o : Options}

/-! ### Pairs that are doomed -/

/-- A pair that the current generation scans, whatever else it finds. -/
def IsDue (c : Collector) (id : PairId) : Prop :=
  ∃ x, c.look id = some x ∧ c.generation.isDue x.color = true

/-- A bulk pair of the `from` color that no pair due leads to. -/
def IsDoomed (c : Collector) (id : PairId) : Prop :=
  (∃ x, c.look id = some x ∧ x.color = c.generation.fromColor) ∧ ¬c.graph.Leads c.IsDue id

/-- A pair that the current generation has scanned or is going to scan. -/
def Spared (c : Collector) (id : PairId) : Prop :=
  (∃ x, c.look id = some x ∧ c.generation.isTo x.color = true) ∨ c.graph.Leads c.IsDue id

/-- A pair that is spared holds pairs that are spared. -/
theorem Sound.spared_child (h : c.Sound) {n : Node} (hj : c.Spared j) (hn : c.graph j = some n)
    (hchild : child ∈ n.children) : c.Spared child := by
  rcases hj with ⟨x, hx, hto⟩ | hleads
  · -- a scanned pair holds no pair of the `from` generation
    have hl := Generation.isLive_of_isTo hto
    rw [graph_of_look hx hl] at hn
    obtain rfl := Option.some.inj hn
    obtain ⟨y, hy, hyl⟩ := h.closed hx hl hchild
    have hfrom := h.tricolor hx hto hchild hy
    rcases Generation.isDue_cases (g := c.generation) hyl with hdue | hyto | hcolor
    · exact .inr (.start ⟨y, hy, hdue⟩)
    · exact .inl ⟨y, hy, hyto⟩
    · rw [hcolor, Generation.isFrom_fromColor] at hfrom
      exact absurd hfrom.symm Bool.false_ne_true
  · exact .inr (hleads.edge hn hchild)

/-- The pairs in use are those that are doomed and those that are spared. -/
theorem isDoomed_iff : c.IsDoomed j ↔ c.IsLive j ∧ ¬c.Spared j := by
  constructor
  · rintro ⟨⟨x, hx, hcolor⟩, hleads⟩
    refine ⟨⟨x, hx, ?_⟩, ?_⟩
    · rw [hcolor]
      exact Generation.isLive_of_isFrom Generation.isFrom_fromColor
    · rintro (⟨y, hy, hto⟩ | hleads')
      · obtain rfl := Option.some.inj (hx.symm.trans hy)
        rw [hcolor, Generation.isTo_fromColor] at hto
        exact absurd hto Bool.false_ne_true
      · exact hleads hleads'
  · rintro ⟨⟨x, hx, hl⟩, hspared⟩
    obtain ⟨hto, hleads⟩ := not_or.1 hspared
    refine ⟨⟨x, hx, ?_⟩, hleads⟩
    -- what is in use and neither due nor scanned has the color of what is doomed
    rcases Generation.isDue_cases (g := c.generation) hl with hdue | hxto | hcolor
    · exact absurd (.start ⟨x, hx, hdue⟩) hleads
    · exact absurd ⟨x, hx, hxto⟩ hto
    · exact hcolor

/-! ### Scans -/

/-- A scan takes a pair that is due. -/
theorem isDue_of_mem_scanOrder {g : Generation} {source : Color}
    (h : (source, target) ∈ scanOrder g) :
    g.isDue source = true := by
  revert h
  simp only [scanOrder, List.mem_cons, Prod.mk.injEq, List.not_mem_nil, or_false]
  rintro (⟨rfl, rfl⟩ | ⟨rfl, rfl⟩ | ⟨rfl, rfl⟩) <;> cases g <;> decide

namespace Scanned

variable (hs : c.Scanned id x target c')

include hs

/-- The scanned pair was due. -/
theorem isDue : c.IsDue id :=
  ⟨x, hs.look_eq, isDue_of_mem_scanOrder hs.order⟩

/-- A pair that is spared after the scan was spared before. -/
theorem spared_of_spared (h : c.Sound) (hj : c'.Spared j) : c.Spared j := by
  have htarget := (of_mem_scanOrder hs.order).2.2.1
  have hid : c.graph id = some x.node :=
    graph_of_look hs.look_eq (of_mem_scanOrder hs.order).1
  rcases hj with ⟨y, hy, hto⟩ | hleads
  · obtain ⟨z, hz, rfl⟩ := hs.look_inv hy
    rw [hs.generation_eq] at hto
    rcases (Generation.isTo_afterScan htarget).1 hto with rfl | hzto
    · exact .inr (.start hs.isDue)
    · exact .inl ⟨z, hz, hzto⟩
  · refine hleads.within (fun k hk => ?_) fun k n child hk hn hchild =>
      h.spared_child hk (hs.graph_eq ▸ hn) hchild
    obtain ⟨y, hy, hdue⟩ := hk
    obtain ⟨z, hz, rfl⟩ := hs.look_inv hy
    -- what was greyed is held by a pair that was due
    by_cases hchild : k ∈ x.children
    · exact .inr ((Graph.Leads.start hs.isDue).edge hid hchild)
    · by_cases hk : k = id
      · exact .inr (.start (hk ▸ hs.isDue))
      · change c'.generation.isDue (c.generation.afterScan target id x.children k z.color) = true
          at hdue
        rw [hs.generation_eq, Generation.afterScan, if_neg hchild, if_neg hk] at hdue
        exact .inr (.start ⟨z, hz, hdue⟩)

/-- A pair that is spared before the scan is spared after it. -/
theorem spared (h : c.Sound) (hj : c.Spared j) : c'.Spared j := by
  have htarget := (of_mem_scanOrder hs.order).2.2.1
  have hto : ∀ {k z}, c.look k = some z → k = id ∨ c.generation.isTo z.color = true →
      c'.Spared k := by
    intro k z hz hk
    refine .inl ⟨_, hs.store.look_of hz, ?_⟩
    rw [hs.generation_eq]
    exact (Generation.isTo_afterScan htarget).2 hk
  rcases hj with ⟨z, hz, hzto⟩ | hleads
  · exact hto hz (.inr hzto)
  · refine hleads.within (fun k hk => ?_) fun k n child hk hn hchild =>
      (hs.sound h).spared_child hk (hs.graph_eq.symm ▸ hn) hchild
    obtain ⟨z, hz, hdue⟩ := hk
    by_cases hk : k = id
    · exact hto hz (.inl hk)
    · -- the other pairs that are due stay so, greyed or not
      refine .inr (.start ⟨_, hs.store.look_of hz, ?_⟩)
      rw [hs.generation_eq]
      change c.generation.isDue (c.generation.afterScan target id x.children k z.color) = true
      rw [Generation.afterScan, if_neg hk]
      split
      · exact Generation.isDue_greyed hdue
      · exact hdue

/-- **A scan changes nothing in which pairs are spared.** -/
theorem spared_iff (h : c.Sound) : c'.Spared j ↔ c.Spared j :=
  ⟨hs.spared_of_spared h, hs.spared h⟩

/-- A scan recolors live pairs only, and no rooted pair becomes a bulk pair or the other way
round. -/
theorem look_recolored (h : c.Sound) (hy : c.look j = some y) : ∃ e,
    c'.look j = some { y with color := e } ∧ e.isRoot = y.color.isRoot ∧
      e.isLive = y.color.isLive ∧ (y.color.isLive = false → e = y.color) := by
  obtain ⟨hroot, hlive⟩ := hs.afterScan_spec hy
  refine ⟨_, hs.store.look_of hy, hroot, hlive, fun hdead => ?_⟩
  have hsource := (of_mem_scanOrder hs.order).1
  -- the scanned pair and what it holds are live
  have hnot : ∀ {k}, c.IsLive k → j ≠ k := by
    rintro k hl rfl
    rw [isLive_iff_of_look hy, hdead] at hl
    exact Bool.false_ne_true hl
  have hchild : j ∉ x.children := fun hj => hnot (h.closed hs.look_eq hsource hj) rfl
  rw [Generation.afterScan, if_neg hchild, if_neg (hnot ⟨x, hs.look_eq, hsource⟩)]

theorem look_eq_none (hj : c.look j = none) : c'.look j = none := by
  change c'.store.look j = none
  rw [hs.store.look]
  exact congrArg _ hj

end Scanned

namespace Scanning

variable (hw : c.Scanning c')

include hw

theorem generation_eq : c'.generation = c.generation := by
  induction hw with
  | refl => rfl
  | tail _ hs ih =>
    obtain ⟨_, _, _, hs⟩ := hs
    exact hs.generation_eq.trans ih

/-- **Scans decide nothing**: which pairs are doomed does not change while pairs are scanned. -/
theorem isDoomed_iff (h : c.Sound) : c'.IsDoomed j ↔ c.IsDoomed j := by
  rw [Collector.isDoomed_iff, Collector.isDoomed_iff]
  induction hw with
  | refl => exact Iff.rfl
  | tail hw hs ih =>
    obtain ⟨_, _, _, hs⟩ := hs
    rw [hs.isLive_iff, hs.spared_iff (Scanning.upkeep hw |>.sound h)]
    exact ih

theorem look_recolored (h : c.Sound) (hy : c.look j = some y) : ∃ e,
    c'.look j = some { y with color := e } ∧ e.isRoot = y.color.isRoot ∧
      e.isLive = y.color.isLive ∧ (y.color.isLive = false → e = y.color) := by
  induction hw with
  | refl => exact ⟨_, hy, rfl, rfl, fun _ => rfl⟩
  | tail hw hs ih =>
    obtain ⟨_, _, _, hs⟩ := hs
    obtain ⟨e, he, hroot, hlive, hdead⟩ := ih
    obtain ⟨e', he', hroot', hlive', hdead'⟩ :=
      hs.look_recolored (Scanning.upkeep hw |>.sound h) he
    refine ⟨e', he', hroot'.trans hroot, hlive'.trans hlive, fun hl => ?_⟩
    have hsame := hdead hl
    exact (hdead' (hsame ▸ hl)).trans hsame

theorem look_eq_none (hj : c.look j = none) : c'.look j = none := by
  induction hw with
  | refl => exact hj
  | tail _ hs ih =>
    obtain ⟨_, _, _, hs⟩ := hs
    exact hs.look_eq_none ih

end Scanning

/-! ### The class of free pairs -/

/-- Greying takes a live pair from one class of live pairs to another. -/
theorem greyChild_keeps_free : (greyChild child).Leaves ⟨c, es⟩ fun _ u =>
    u.state.conses .free = c.conses .free := by
  -- a child is live, so it leaves another class and goes to another one
  have hmove : ∀ {slot e}, c.slot child = .ok slot → slot.color.isLive = true → e ≠ .free →
      (onStore (Store.move child e)).Leaves ⟨c, es⟩ fun _ u =>
        u.state.conses .free = c.conses .free := by
    intro slot e hslot hl he
    have hfree : Color.free ≠ slot.color := (Color.isLive_iff.1 hl).2.symm
    exact Action.leaves_focus.2 ((Store.move_keeps hslot hfree he.symm).mono fun _ m hm =>
      congrArg Array.toList hm)
  unfold greyChild
  rw [Action.leaves_bind, Action.leaves_query]
  intro slot hslot
  rw [Action.leaves_bind, Action.leaves_require]
  intro hl
  refine Action.Yields.bind_leaves (Action.yields_ask.2 ?_)
  split
  · exact hmove hslot hl (by decide)
  · split
    · exact hmove hslot hl (by decide)
    · exact Action.leaves_pure.2 rfl

theorem greyAll_keeps_free (ids : List PairId) : (greyAll ids).Leaves ⟨c, es⟩ fun _ u =>
    u.state.conses .free = c.conses .free := by
  induction ids generalizing c es with
  | nil => exact Action.leaves_pure.2 rfl
  | cons id ids ih =>
    unfold greyAll
    rw [Action.leaves_bind]
    exact greyChild_keeps_free.mono fun _ m hm => ih.mono fun _ u hu => hu.trans hm

/-- What is scanned is not free and does not become so. -/
theorem scanFrom_keeps_free {source : Color} (hsource : source ≠ .free) (htarget : target ≠ .free) :
    (scanFrom source target).Leaves ⟨c, es⟩ fun _ u =>
      u.state.conses .free = c.conses .free := by
  unfold scanFrom
  rw [Action.leaves_bind]
  refine Action.leaves_focus.2
    ((Store.popInto_keeps hsource.symm htarget.symm).mono fun r m hm => ?_)
  have hpop : conses { c with store := m.state } .free = c.conses .free := congrArg Array.toList hm
  cases r with
  | none => exact Action.leaves_pure.2 hpop
  | some id =>
    unfold greyChildren
    rw [Action.leaves_bind, Action.leaves_bind, Action.leaves_query]
    intro slot _
    refine (greyAll_keeps_free slot.children).mono fun _ v hv => ?_
    refine Action.Yields.bind_leaves (Action.yields_report.2 ?_)
    exact Action.leaves_pure.2 (hv.trans hpop)

theorem scanFirst_keeps_free (order : List (Color × Color))
    (horder : ∀ p ∈ order, p.1 ≠ .free ∧ p.2 ≠ .free) :
    (scanFirst order).Leaves ⟨c, es⟩ fun _ u => u.state.conses .free = c.conses .free := by
  induction order generalizing c es with
  | nil => exact Action.leaves_pure.2 rfl
  | cons p order ih =>
    obtain ⟨hsource, htarget⟩ := horder p List.mem_cons_self
    unfold scanFirst
    rw [Action.leaves_bind]
    refine (scanFrom_keeps_free hsource htarget).mono fun r m hm => ?_
    cases r with
    | some id => exact Action.leaves_pure.2 hm
    | none =>
      exact (ih fun q hq => horder q (List.mem_cons_of_mem _ hq)).mono fun _ u hu => hu.trans hm

theorem ne_free_of_mem_scanOrder {g : Generation} (p : Color × Color) (hp : p ∈ scanOrder g) :
    p.1 ≠ .free ∧ p.2 ≠ .free := by
  obtain ⟨hsource, -, -, htarget, -⟩ := of_mem_scanOrder hp
  exact ⟨(Color.isLive_iff.1 hsource).2, (Color.isLive_iff.1 htarget).2⟩

/-- The pairs disposed of are put behind those that wait to be recycled. -/
theorem swapGenerations_appends : swapGenerations.Leaves ⟨c, es⟩ fun _ u =>
    u.state.conses .free = c.conses .free ++ c.conses c.generation.fromColor := by
  unfold swapGenerations
  refine Action.Yields.bind_leaves (Action.yields_ask.2 ?_)
  rw [Action.leaves_bind]
  refine Action.leaves_focus.2 (Store.moveAll_appends.mono fun n m hm => ?_)
  refine Action.Yields.bind_leaves (yields_flip.2 ?_)
  refine Action.Yields.bind_leaves (yields_tally.2 ?_)
  refine Action.Yields.bind_leaves (Action.yields_report.2 ?_)
  rw [Action.leaves_pure, conses_of_ne_void Generation.fromColor_ne_void]
  exact (congrArg Array.toList hm).trans Array.toList_append

/-- A step leaves the free pairs as they are, unless it is a swap. -/
theorem Sound.step_free (h : c.Sound) : Collector.step.Yields ⟨c, es⟩ fun r u =>
    match r with
    | .scanned _ => u.state.conses .free = c.conses .free
    | .swapped _ => u.state.conses .free = c.conses .free ++ c.conses c.generation.fromColor := by
  unfold Collector.step
  rw [Action.yields_bind, yields_tally, Action.yields_bind, Action.yields_ask, Action.yields_bind]
  -- counting the step does not touch what the invariant is about
  have h' : ({ c with stats := { c.stats with steps := c.stats.steps + 1 } } : Collector).Sound :=
    ⟨h.store, h.pageSize_eq, h.maxPages_eq, h.rooted, h.closed, h.tricolor⟩
  refine ((scanFirst_yields h' (scanOrder c.generation) fun p hp => hp).and
    (scanFirst_keeps_free _ ne_free_of_mem_scanOrder)).mono fun r m hm => ?_
  obtain ⟨hm, hfree⟩ := hm
  cases r with
  | some id => exact Action.yields_pure.2 hfree
  | none =>
    obtain ⟨rfl, -⟩ := hm
    rw [Action.yields_bind]
    exact ((swapGenerations_yields h'.store).and swapGenerations_appends).mono fun n u hu =>
      Action.yields_pure.2 hu.2

/-- A generation is finished by scans and a swap, and it is the swap that puts pairs behind the free
ones. -/
theorem Sound.finish_free (h : c.Sound) : Collector.finish.Yields ⟨c, es⟩ fun n u => ∃ c₁,
    c.Scanning c₁ ∧ c₁.Swapped n u.state ∧
      u.state.conses .free = c.conses .free ++ c₁.conses c₁.generation.fromColor := by
  -- the free pairs are those of before as long as there are scans only
  refine finish_yields
    (I := fun t => c.Scanning t.state ∧ t.state.conses .free = c.conses .free)
    (fun t ht hI => ?_) h ⟨.refl, rfl⟩
  obtain ⟨hscans, hkept⟩ := hI
  refine (ht.step.and ht.step_free.leaves).mono fun r m hm => ?_
  obtain ⟨hm, hfree⟩ := hm
  cases r with
  | scanned id =>
    obtain ⟨x, target, hs, -⟩ := hm
    exact ⟨hs.sound ht, .tail hscans ⟨id, x, target, hs⟩, hfree.trans hkept⟩
  | swapped n => exact ⟨t.state, hscans, hm.1, hkept ▸ hfree⟩

/-! ### The outcome -/

/-- The color of a pair that is spared, once the generation is finished. -/
def sparedColor (g : Generation) (d : Color) : Color :=
  if d.isRoot = true then g.flip.fromRoot else g.flip.fromColor

/-- `u` is what is left of `c` when its generation is finished: the doomed pairs, `n` of them, are
free, and the other live pairs are in the new `from` generation. -/
structure Outcome (c : Collector) (n : Nat) (u : Collector) : Prop where
  generation_eq : u.generation = c.generation.flip
  count : n = {j | c.IsDoomed j}.ncard
  disposed : ∃ ids, u.conses .free = c.conses .free ++ ids ∧ ids.Nodup ∧
    ∀ j, j ∈ ids ↔ c.IsDoomed j
  absent : ∀ {j}, c.look j = none → u.look j = none
  dead : ∀ {j x}, c.look j = some x → x.color.isLive = false → u.look j = some x
  doomed : ∀ {j x}, c.look j = some x → c.IsDoomed j → u.look j = some { x with color := .free }
  spared : ∀ {j x}, c.look j = some x → x.color.isLive = true → ¬c.IsDoomed j →
    u.look j = some { x with color := sparedColor c.generation x.color }

/-- When nothing is due any more, the doomed pairs are those of the `from` color. -/
theorem Swapped.isDoomed_iff (hs : c.Swapped n c') : c.IsDoomed j ↔
    ∃ x, c.look j = some x ∧ x.color = c.generation.fromColor := by
  constructor
  · exact And.left
  · refine fun hj => ⟨hj, fun hleads => ?_⟩
    refine hleads.within (T := fun _ => False) (fun k hk => ?_) fun _ _ _ hk _ _ => hk
    obtain ⟨x, hx, hdue⟩ := hk
    obtain ⟨hfromRoot, hgreyRoot, hgrey⟩ := hs.scanned hx
    simp [Generation.isDue, hfromRoot, hgreyRoot, hgrey] at hdue

/-- A scanned pair has the color that a spared pair gets. -/
theorem eq_sparedColor {g : Generation} {d e : Color} (hto : g.isTo e = true)
    (hroot : e.isRoot = d.isRoot) : e = sparedColor g d := by
  unfold sparedColor
  rw [← hroot]
  revert hto
  cases g <;> cases e <;> decide

/-- A spared pair stays rooted, or a bulk pair. -/
theorem sparedColor_spec {g : Generation} {d : Color} (hl : d.isLive = true) :
    (sparedColor g d).isRoot = d.isRoot ∧ (sparedColor g d).isBulk = d.isBulk ∧
      (sparedColor g d).isLive = true := by
  revert hl
  cases g <;> cases d <;> decide

/-- **The outcome of a generation that is finished.** -/
theorem Sound.finish_outcome (h : c.Sound) : Collector.finish.Yields ⟨c, es⟩ fun n u =>
    c.Outcome n u.state := by
  refine h.finish_free.mono fun n u hu => ?_
  obtain ⟨c₁, hscans, hswap, hfree⟩ := hu
  have h₁ : c₁.Sound := hscans.upkeep.sound h
  -- the pairs that are disposed of were doomed from the start
  have hdoomed : ∀ j, (∃ x, c₁.look j = some x ∧ x.color = c₁.generation.fromColor) ↔
      c.IsDoomed j := fun j => hswap.isDoomed_iff.symm.trans (hscans.isDoomed_iff h)
  have hswapped : ∀ {j x}, c₁.look j = some x → u.state.look j =
      some { x with color := c₁.generation.afterSwap x.color } := fun hx => hswap.store.look_of hx
  constructor
  case generation_eq => rw [hswap.generation_eq, hscans.generation_eq]
  case count =>
    -- the swap counts what carries the `from` color, which are the doomed pairs
    rw [hswap.count, ← count_of_ne_void Generation.fromColor_ne_void, h₁.count_eq_ncard]
    simp only [hdoomed]
  case disposed =>
    refine ⟨_, hfree, h₁.nodup_conses, fun j => ?_⟩
    rw [h₁.mem_conses, hdoomed]
  case absent =>
    intro j hj
    change u.state.store.look j = none
    rw [hswap.store.look]
    exact congrArg _ (hscans.look_eq_none hj)
  case dead =>
    intro j x hx hdead
    -- a dead slot is recolored neither by a scan nor by the swap
    obtain ⟨e, he, -, hlive, hsame⟩ := hscans.look_recolored h hx
    obtain rfl := hsame hdead
    rw [hswapped he, Generation.afterSwap, if_neg]
    rintro hcolor
    have hfromLive : x.color.isLive = true := by
      rw [show x.color = _ from hcolor]
      exact Generation.isLive_of_isFrom Generation.isFrom_fromColor
    exact absurd (hdead.symm.trans hfromLive) Bool.false_ne_true
  case doomed =>
    intro j x hx hj
    obtain ⟨e, he, -, -, -⟩ := hscans.look_recolored h hx
    obtain ⟨z, hz, hcolor⟩ := (hdoomed j).2 hj
    obtain rfl := Option.some.inj (he.symm.trans hz)
    rw [hswapped he, Generation.afterSwap, if_pos hcolor]
  case spared =>
    intro j x hx hl hj
    obtain ⟨e, he, hroot, hlive, -⟩ := hscans.look_recolored h hx
    -- not doomed, so it does not have the `from` color, and all other live pairs are in `to`
    have hto : c₁.generation.isTo e = true := hswap.isTo_of_isLive he (hlive.trans hl)
      fun hcolor => hj ((hdoomed j).1 ⟨_, he, hcolor⟩)
    rw [hswapped he, Generation.afterSwap_of_isTo hto, eq_sparedColor hto hroot,
      hscans.generation_eq]

namespace Outcome

/-- A slot of before that is live at the end was spared. -/
theorem live_cases (ho : c.Outcome n u) (hy : u.look j = some y) (hl : y.color.isLive = true) :
    ∃ x : Slot, y = { x with color := sparedColor c.generation x.color } := by
  cases hx : c.look j with
  | none =>
    rw [ho.absent hx] at hy
    exact absurd hy (by simp)
  | some x =>
    by_cases hxl : x.color.isLive = true
    · by_cases hj : c.IsDoomed j
      · rw [ho.doomed hx hj] at hy
        obtain rfl := Option.some.inj hy
        exact absurd hl Bool.false_ne_true
      · rw [ho.spared hx hxl hj] at hy
        exact ⟨x, (Option.some.inj hy).symm⟩
    · rw [ho.dead hx (Bool.not_eq_true _ ▸ hxl)] at hy
      obtain rfl := Option.some.inj hy
      exact absurd hl hxl

/-- Every pair in use is in the new `from` generation. -/
theorem color_eq (ho : c.Outcome n u) (hy : u.look j = some y) (hl : y.color.isLive = true) :
    y.color = u.generation.fromColor ∨ y.color = u.generation.fromRoot := by
  obtain ⟨x, rfl⟩ := ho.live_cases hy hl
  rw [ho.generation_eq]
  unfold sparedColor
  dsimp only
  split
  · exact .inr rfl
  · exact .inl rfl

/-- So the classes of all other live colors are empty. -/
theorem count_eq_zero (ho : c.Outcome n u) (h : u.Sound) {color : Color}
    (hl : color.isLive = true) (hfrom : u.generation.isFrom color = false) :
    u.count color = 0 := by
  refine h.count_eq_zero_iff.2 fun j y hy hcolor => ?_
  obtain rfl := hcolor
  have hcases := ho.color_eq hy hl
  revert hfrom hcases
  cases u.generation <;> cases y.color <;> decide

/-- **The outcome is a matter of the slots alone**: collectors whose slots differ in their positions
only have the same outcome, up to positions. -/
theorem look_eq (ho : c.Outcome n u) (ho' : d.Outcome m v) (hgen : d.generation = c.generation)
    (hlook : ∀ j, d.look j = c.look j) : m = n ∧ ∀ j, v.look j = u.look j := by
  -- who is doomed is said in terms of slots and the generation
  have hdoomed : ∀ j, d.IsDoomed j ↔ c.IsDoomed j := by
    intro j
    unfold IsDoomed IsDue graph
    simp only [hlook, hgen]
  refine ⟨?_, fun j => ?_⟩
  · rw [ho.count, ho'.count]
    simp only [hdoomed]
  · have hj := hlook j
    -- slot by slot: absent, doomed, spared or dead before
    cases hx : c.look j with
    | none => rw [ho.absent hx, ho'.absent (hj.trans hx)]
    | some x =>
      by_cases hl : x.color.isLive = true
      · by_cases hdoom : c.IsDoomed j
        · rw [ho.doomed hx hdoom, ho'.doomed (hj.trans hx) ((hdoomed j).2 hdoom)]
        · rw [ho.spared hx hl hdoom, ho'.spared (hj.trans hx) hl fun hd => hdoom ((hdoomed j).1 hd),
            hgen]
      · have hdead : x.color.isLive = false := Bool.not_eq_true _ ▸ hl
        rw [ho.dead hx hdead, ho'.dead (hj.trans hx) hdead]

/-- What is spared keeps its cells and its roots. -/
theorem agrees (ho : c.Outcome n u) (hx : c.slot j = .ok x) (hl : x.color.isLive = true)
    (hj : ¬c.IsDoomed j) : ∃ y, u.slot j = .ok y ∧ x.Agrees y ∧ y.color.isLive = true := by
  obtain ⟨hroot, hbulk, hlive⟩ := sparedColor_spec (g := c.generation) hl
  obtain ⟨y, hy, hyx⟩ := slot_of_look (ho.spared (look_of_slot hx) hl hj)
  obtain ⟨hcar, hcdr, hcolor, hcount, -⟩ := Slot.mk.inj hyx
  refine ⟨y, hy, ⟨hcar, hcdr, hcount, ?_, ?_⟩, ?_⟩
  · rw [hcolor, hroot]
  · rw [hcolor, hbulk]
  · rw [hcolor, hlive]

end Outcome

/-- **The effect of finishing a generation.** In every state reached by operations on live
arguments, it disposes of the doomed pairs and of no others: it answers their number and puts each
of them once behind the free pairs. Every other live pair keeps its cells, its root count and
whether it is rooted. White and black have then changed their roles, every live pair is of the new
`from` generation, and the other classes of live pairs are empty. All this is the same for any order
of the members of the classes. -/
theorem Run.finish_exact (created : Collector.create o = .ok c₀)
    (run : Run Op.LiveArgs c₀ past c) (es : Array Event) :
    Collector.finish.Yields ⟨c, es⟩ fun n u =>
      n = {id | c.IsDoomed id}.ncard ∧
      (∃ disposed, u.state.conses .free = c.conses .free ++ disposed ∧ disposed.Nodup ∧
        ∀ id, id ∈ disposed ↔ c.IsDoomed id) ∧
      (∀ id x, c.slot id = .ok x → x.color.isLive = true → ¬c.IsDoomed id →
        ∃ y, u.state.slot id = .ok y ∧ x.Agrees y ∧ y.color.isLive = true) ∧
      u.state.generation = c.generation.flip ∧
      (∀ id y, u.state.slot id = .ok y → y.color.isLive = true →
        y.color = u.state.generation.fromColor ∨ y.color = u.state.generation.fromRoot) ∧
      (∀ color ∈ [.grey, .greyRoot, u.state.generation.toColor, u.state.generation.toRoot],
        u.state.count color = 0) ∧
      ∀ (d : Collector) (es' : Array Event), d.Sound → d.generation = c.generation →
        (∀ id, d.look id = c.look id) → Collector.finish.Yields ⟨d, es'⟩ fun m v =>
          m = n ∧ ∀ id, v.state.look id = u.state.look id := by
  have h : c.Sound := run.sound (.create created) fun _ _ hargs => hargs
  refine (h.finish_outcome.and h.finish_upkeep.leaves).mono fun n u hu => ?_
  obtain ⟨ho, hupkeep⟩ := hu
  have hu : u.state.Sound := hupkeep.sound h
  refine ⟨ho.count, ho.disposed, fun id x => ho.agrees, ho.generation_eq,
    fun id y hy hl => ?_, fun color hcolor => ?_,
    fun d es' hd hgen hlook => hd.finish_outcome.mono fun m v ho' => ho.look_eq ho' hgen hlook⟩
  · have hcases := ho.color_eq (look_of_slot hy) hl
    exact hcases
  · obtain ⟨hlive, hfrom⟩ := Generation.isFrom_of_mem hcolor
    exact ho.count_eq_zero hu hlive hfrom

/-- In the second generation, a rooted pair is scanned and the pair that it holds is grey. Of the
two that are not scanned yet, the grey pair holds the one; the other is given up. -/
theorem finish_exact_greyed : ∃ past c, Run Op.LiveArgs manualTwo past c ∧
    c.conses .whiteRoot = [⟨2⟩] ∧ c.conses .grey = [⟨1⟩] ∧ c.conses .black = [⟨3⟩, ⟨0⟩] ∧
    Collector.finish.Yields ⟨c, #[]⟩ fun n u =>
      n = 1 ∧ (∀ id, c.IsDoomed id ↔ id = ⟨3⟩) ∧ u.state.conses .free = [⟨3⟩] ∧
      u.state.generation = .white ∧ u.state.count .grey = 0 := by
  have first := Run.start.live (.make .nil (.integer 7)) (by decide +kernel)
  have second := first.live (.make (.pair ⟨0⟩) .nil) (by decide +kernel)
  have third := second.live (.make (.pair ⟨1⟩) .nil) (by decide +kernel)
  have unrooted := third.live (.unroot ⟨0⟩) (by decide +kernel)
  have unrooted' := unrooted.live (.unroot ⟨1⟩) (by decide +kernel)
  have finished := unrooted'.live .finish trivial
  have fourth := finished.live (.make .nil .nil) (by decide +kernel)
  have unrooted'' := fourth.live (.unroot ⟨3⟩) (by decide +kernel)
  have scanned := unrooted''.live .step trivial
  refine ⟨_, _, scanned, by decide +kernel, by decide +kernel, by decide +kernel, ?_⟩
  obtain ⟨n, u, hdone, hn, ⟨ids, hids, -, hmem⟩, -, hgen, -, hempty, -⟩ :=
    Run.finish_exact create_manualTwo scanned #[]
  -- which pairs are doomed is read off the free pairs of the state that the call leaves
  have hfree : u.state.conses .free = [⟨3⟩] :=
    (congrArg (fun result => match result with
      | .ok _ u | .error _ u => u.state.conses .free) hdone).symm.trans (by decide +kernel)
  have hnone : ∀ before, before = [] → [⟨3⟩] = before ++ ids → ids = [⟨3⟩] := by
    rintro _ rfl h
    exact h.symm
  obtain rfl := hnone _ (by decide +kernel) (hfree.symm.trans hids)
  have hdoomed := fun id => (hmem id).symm.trans List.mem_singleton
  simp only [hdoomed] at hn
  rw [Set.ofPred_eq_eq_singleton, Set.ncard_singleton] at hn
  exact ⟨n, u, hdone, hn, hdoomed, hfree, hgen.trans (by decide +kernel),
    hempty _ List.mem_cons_self⟩

end Collector

end ConsHeap
