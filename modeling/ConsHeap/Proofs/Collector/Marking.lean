import ConsHeap.Proofs.Collector.Invariant

/-!
# What a marking step does

A step either scans one pair or swaps the generations, and both are recolorings of the store:

* `Scanned c id x target c'` — the unscanned pair `id` with slot `x` got the color `target` of the
  `to` generation, and the pairs that it holds were greyed;
* `Swapped c n c'` — nothing was left to scan, the `n` pairs of the `from` color were disposed of,
  and the generations changed roles.

`Collector.Sound.step` says that a step of a sound collector is one of the two. The two structures
say all that a step does, so everything else about marking is derived from them: both keep the
invariant, a scan keeps the graph, and a swap takes pairs out of it that are not reachable.
-/

namespace ConsHeap

namespace Generation

variable {g : Generation} {c : Color}

/-- The color of a pair after `id` was recolored to `target` and its children were greyed. -/
def afterScan (g : Generation) (target : Color) (id : PairId) (children : List PairId)
    (j : PairId) (c : Color) : Color :=
  if j ∈ children then g.greyed (if j = id then target else c)
  else if j = id then target else c

/-- After a scan the scanned pair is in the `to` generation, and the others that were. -/
theorem isTo_afterScan {target d : Color} {id j : PairId} {kids : List PairId}
    (htarget : g.isTo target = true) :
    g.isTo (g.afterScan target id kids j d) = true ↔ j = id ∨ g.isTo d = true := by
  have hinner : g.isTo (if j = id then target else d) = true ↔ j = id ∨ g.isTo d = true := by
    by_cases hj : j = id
    · rw [if_pos hj]
      exact iff_of_true htarget (.inl hj)
    · rw [if_neg hj]
      exact ⟨.inr, fun hd => hd.resolve_left hj⟩
  unfold afterScan
  split
  · rw [isTo_greyed]
    exact hinner
  · exact hinner

/-- The color of a pair after the pairs of the `from` color were disposed of. -/
def afterSwap (g : Generation) (c : Color) : Color :=
  if c = g.fromColor then .free else c

theorem afterSwap_of_isTo (h : g.isTo c = true) : g.afterSwap c = c := by
  revert h
  unfold afterSwap
  cases g <;> cases c <;> decide

end Generation

namespace Collector

variable {c c' : Collector} {id j child : PairId} {x y : Slot} {es : Array Event} {n : Nat}
  {source target : Color}

section Yields

variable {α : Type} {Q : α → Traced Collector → Prop}

theorem yields_onStore {a : Action Store α} : (onStore a).Yields ⟨c, es⟩ Q ↔
    a.Yields ⟨c.store, es⟩ fun r m => Q r ⟨{ c with store := m.state }, m.events⟩ :=
  Action.yields_focus

theorem yields_tally {f : Stats → Stats} {Q : Unit → Traced Collector → Prop} :
    (tally f).Yields ⟨c, es⟩ Q ↔ Q () ⟨{ c with stats := f c.stats }, es⟩ :=
  Action.yields_update

theorem yields_flip {Q : Unit → Traced Collector → Prop} :
    flip.Yields ⟨c, es⟩ Q ↔ Q () ⟨{ c with generation := c.generation.flip }, es⟩ :=
  Action.yields_update

end Yields

/-! ### Greying -/

/-- A live pair can be greyed. -/
theorem greyChild_yields (h : c.store.Sound []) (hl : c.IsLive child) :
    (greyChild child).Yields ⟨c, es⟩ fun _ u =>
      c.Repaints (fun j d => if j = child then c.generation.greyed d else d) u.state ∧
        u.events = es := by
  obtain ⟨x, hx, hlive⟩ := hl
  obtain ⟨s, hs, rfl⟩ := slot_of_look hx
  have hcol : s.color ≠ .void := Color.ne_void_of_isLive hlive
  -- moving the child to the color it gets when it is greyed is greying it
  have hmove : ∀ {d}, d ≠ .void → c.generation.greyed s.color = d →
      (onStore (Store.move child d)).Yields ⟨c, es⟩ fun _ u =>
        c.Repaints (fun j d => if j = child then c.generation.greyed d else d) u.state ∧
          u.events = es := by
    intro d hd hgrey
    rw [yields_onStore]
    refine (h.move hx hcol hd).mono fun _ m hm => ⟨⟨?_, rfl⟩, hm.2⟩
    refine hm.1.congr fun j y hy => ?_
    by_cases hj : j = child
    · rw [if_pos hj, if_pos hj]
      rw [hj] at hy
      obtain rfl := Option.some.inj (hx.symm.trans hy)
      exact hgrey.symm
    · rw [if_neg hj, if_neg hj]
  unfold greyChild
  simp only [Action.yields_bind, Action.yields_query, Action.yields_require, Action.yields_ask,
    Action.yields_ite]
  refine ⟨s, hs, hlive, fun hf => ?_, fun hnf => ⟨fun hr => ?_, fun hnr => ?_⟩⟩
  · exact hmove (by decide) (if_pos hf)
  · exact hmove (by decide) (by unfold Generation.greyed; rw [if_neg hnf, if_pos hr])
  · -- a child of any other color stays, and so does its color when it is greyed
    rw [Action.yields_pure]
    refine ⟨(Repaints.refl h).congr fun j y hy => ?_, rfl⟩
    split
    · rename_i hj
      rw [hj] at hy
      obtain rfl := Option.some.inj (hx.symm.trans hy)
      unfold Generation.greyed
      rw [if_neg hnf, if_neg hnr]
    · rfl

/-- A live pair is live whatever was greyed. -/
theorem Repaints.isLive {f : PairId → Color → Color} (h : c.Repaints f c')
    (hf : ∀ j x, c.look j = some x → x.color.isLive = true → (f j x.color).isLive = true)
    (hl : c.IsLive id) : c'.IsLive id := by
  obtain ⟨x, hx, hlive⟩ := hl
  exact ⟨_, h.store.look_of hx, hf id x hx hlive⟩

/-- Live pairs can be greyed one after another. -/
theorem greyAll_yields (ids : List PairId) (h : c.store.Sound [])
    (hl : ∀ id ∈ ids, c.IsLive id) :
    (greyAll ids).Yields ⟨c, es⟩ fun _ u =>
      c.Repaints (fun j d => if j ∈ ids then c.generation.greyed d else d) u.state ∧
        u.events = es := by
  induction ids generalizing c with
  | nil =>
    unfold greyAll
    rw [Action.yields_pure]
    exact ⟨(Repaints.refl h).congr fun j y _ => by rw [if_neg List.not_mem_nil], rfl⟩
  | cons id ids ih =>
    unfold greyAll
    rw [Action.yields_bind]
    refine (greyChild_yields h (hl id List.mem_cons_self)).mono fun _ m hm => ?_
    obtain ⟨c', es'⟩ := m
    obtain ⟨hpaint, rfl⟩ := hm
    have hgen : c'.generation = c.generation := hpaint.generation_eq
    refine (ih hpaint.store.sound fun j hj => ?_).mono fun _ u hu => ⟨?_, hu.2⟩
    · -- the first greying left the other pairs live
      refine hpaint.isLive (fun k y _ hy => ?_) (hl j (List.mem_cons_of_mem _ hj))
      split
      · rw [Generation.isLive_greyed]
        exact hy
      · exact hy
    · -- a pair that occurs twice is greyed twice, which does no more than greying it once
      refine (hpaint.trans hu.1).congr fun j y _ => ?_
      rw [hgen]
      by_cases hj : j = id <;> by_cases hm : j ∈ ids
      · rw [if_pos hj, if_pos hm, if_pos (List.mem_cons_of_mem _ hm), Generation.greyed_greyed]
      · rw [if_pos hj, if_neg hm, if_pos (hj ▸ List.mem_cons_self)]
      · rw [if_neg hj, if_pos hm, if_pos (List.mem_cons_of_mem _ hm)]
      · rw [if_neg hj, if_neg hm, if_neg (by simp [hj, hm])]

/-- The pairs that a pair holds can be greyed if they are live. -/
theorem greyChildren_yields (h : c.store.Sound []) (hx : c.look id = some x)
    (hl : ∀ child ∈ x.children, c.IsLive child) :
    (greyChildren id).Yields ⟨c, es⟩ fun _ u =>
      c.Repaints (fun j d => if j ∈ x.children then c.generation.greyed d else d) u.state ∧
        u.events = es := by
  obtain ⟨s, hs, rfl⟩ := slot_of_look hx
  unfold greyChildren
  simp only [Action.yields_bind, Action.yields_query]
  exact ⟨s, hs, greyAll_yields s.children h hl⟩

/-! ### The two outcomes of a step -/

/-- `c'` is `c` after the unscanned pair `id` was scanned. -/
structure Scanned (c : Collector) (id : PairId) (x : Slot) (target : Color) (c' : Collector) :
    Prop where
  look_eq : c.look id = some x
  order : (x.color, target) ∈ scanOrder c.generation
  store : c.store.Repaints (c.generation.afterScan target id x.children) c'.store
  frame : c' = { c with store := c'.store, stats := { c.stats with steps := c.stats.steps + 1 } }

/-- `c'` is `c` after the generations were swapped, with `n` pairs disposed of. -/
structure Swapped (c : Collector) (n : Nat) (c' : Collector) : Prop where
  scanned : ∀ {j x}, c.look j = some x →
    x.color ≠ c.generation.fromRoot ∧ x.color ≠ .greyRoot ∧ x.color ≠ .grey
  count : n = c.store.size c.generation.fromColor
  store : c.store.Repaints (fun _ => c.generation.afterSwap) c'.store
  frame : c' = { c with
    store := c'.store
    generation := c.generation.flip
    stats := { c.stats with
      steps := c.stats.steps + 1
      generationSwaps := c.stats.generationSwaps + 1
      pairsDisposed := c.stats.pairsDisposed + n } }

/-- The colors between which a scan moves a pair. -/
theorem of_mem_scanOrder {g : Generation} (h : (source, target) ∈ scanOrder g) :
    source.isLive = true ∧ g.isTo source = false ∧ g.isTo target = true ∧
      target.isLive = true ∧ target.isRoot = source.isRoot := by
  revert h
  simp only [scanOrder, List.mem_cons, Prod.mk.injEq, List.not_mem_nil, or_false]
  rintro (⟨rfl, rfl⟩ | ⟨rfl, rfl⟩ | ⟨rfl, rfl⟩) <;> cases g <;> decide

/-- Nobody is left in the classes of a list that was gone through without a scan. -/
theorem scanFrom_yields (h : c.Sound) (hst : (source, target) ∈ scanOrder c.generation) :
    (scanFrom source target).Yields ⟨c, es⟩ fun r u =>
      match r with
      | none => u = ⟨c, es⟩ ∧ ∀ j x, c.look j = some x → x.color ≠ source
      | some id => ∃ x, c.look id = some x ∧ x.color = source ∧
          c.Repaints (c.generation.afterScan target id x.children) u.state ∧
            u.events = es.push (.scanned id source target) := by
  obtain ⟨hsource, -, hto, htarget, -⟩ := of_mem_scanOrder hst
  unfold scanFrom
  rw [Action.yields_bind, yields_onStore]
  refine (h.store.popInto (Color.ne_void_of_isLive hsource)
    (Color.ne_void_of_isLive htarget)).mono fun r m hm => ?_
  obtain ⟨s, es'⟩ := m
  obtain ⟨rfl, hm⟩ := hm
  cases r with
  | none =>
    rw [Action.yields_pure]
    obtain ⟨rfl, hnone⟩ := hm
    exact ⟨rfl, hnone⟩
  | some id =>
    obtain ⟨⟨x, hx, hxc⟩, hpaint⟩ := hm
    have hpaint' : c.Repaints (fun j e => if j = id then target else e) { c with store := s } :=
      ⟨hpaint, rfl⟩
    -- the move left the children live, also where the pair holds itself
    have hlive : ∀ child ∈ x.children, ({ c with store := s } : Collector).IsLive child := by
      intro child hchild
      refine hpaint'.isLive (fun j y _ hy => ?_) (h.closed hx (hxc ▸ hsource) hchild)
      split
      · exact htarget
      · exact hy
    simp only [Action.yields_bind]
    refine (greyChildren_yields (c := { c with store := s }) hpaint.sound (hpaint.look_of hx)
      hlive).mono fun _ u hu => ?_
    obtain ⟨c', es''⟩ := u
    obtain ⟨hgrey, rfl⟩ := hu
    rw [Action.yields_report, Action.yields_pure]
    -- the move to the target class and the greying make up one scan
    refine ⟨x, hx, hxc, (hpaint'.trans hgrey).congr fun j y _ => ?_, rfl⟩
    unfold Generation.afterScan
    rfl

/-- The classes of a list are tried one after another. -/
theorem scanFirst_yields (h : c.Sound) (order : List (Color × Color))
    (horder : ∀ p ∈ order, p ∈ scanOrder c.generation) :
    (scanFirst order).Yields ⟨c, es⟩ fun r u =>
      match r with
      | none => u = ⟨c, es⟩ ∧ ∀ p ∈ order, ∀ j x, c.look j = some x → x.color ≠ p.1
      | some id => ∃ x target, c.look id = some x ∧ (x.color, target) ∈ scanOrder c.generation ∧
          c.Repaints (c.generation.afterScan target id x.children) u.state ∧
            u.events = es.push (.scanned id x.color target) := by
  -- along the classes, in the order in which they are tried
  induction order with
  | nil =>
    unfold scanFirst
    rw [Action.yields_pure]
    exact ⟨rfl, fun p hp => absurd hp List.not_mem_nil⟩
  | cons p order ih =>
    obtain ⟨source, target⟩ := p
    have hp := horder (source, target) List.mem_cons_self
    unfold scanFirst
    rw [Action.yields_bind]
    refine (scanFrom_yields h hp).mono fun r m hm => ?_
    cases r with
    | some id =>
      obtain ⟨x, hx, rfl, hpaint, hevents⟩ := hm
      rw [Action.yields_pure]
      exact ⟨x, target, hx, hp, hpaint, hevents⟩
    | none =>
      -- the class was empty, and the others are tried from the same state
      obtain ⟨rfl, hnone⟩ := hm
      refine (ih fun q hq => horder q (List.mem_cons_of_mem _ hq)).mono fun r u hu => ?_
      cases r with
      | some id => exact hu
      | none =>
        refine ⟨hu.1, fun q hq => ?_⟩
        rcases List.mem_cons.1 hq with rfl | hq
        · exact hnone
        · exact hu.2 q hq

/-- Pairs of the `from` color can be disposed of, whenever that is. -/
theorem swapGenerations_yields (h : c.store.Sound []) :
    swapGenerations.Yields ⟨c, es⟩ fun n u =>
      n = c.store.size c.generation.fromColor ∧
        c.store.Repaints (fun _ => c.generation.afterSwap) u.state.store ∧
        u = ⟨{ c with
          store := u.state.store
          generation := c.generation.flip
          stats := { c.stats with
            generationSwaps := c.stats.generationSwaps + 1
            pairsDisposed := c.stats.pairsDisposed + n } },
          es.push (.swapped n c.generation.flip.fromColor)⟩ := by
  unfold swapGenerations
  rw [Action.yields_bind, Action.yields_ask, Action.yields_bind, yields_onStore]
  refine (h.moveAll Generation.fromColor_ne_free Generation.fromColor_ne_void
    (by decide)).mono fun n m hm => ?_
  obtain ⟨s, es'⟩ := m
  obtain ⟨hn, rfl, hpaint⟩ := hm
  rw [Action.yields_bind, yields_flip, Action.yields_bind, yields_tally, Action.yields_bind,
    Action.yields_report, Action.yields_pure]
  exact ⟨hn, hpaint, rfl⟩

/-- **A step scans one pair or swaps the generations.** -/
theorem Sound.step (h : c.Sound) :
    Collector.step.Yields ⟨c, es⟩ fun r u =>
      match r with
      | .scanned id => ∃ x target, c.Scanned id x target u.state ∧
          u.events = es.push (.scanned id x.color target)
      | .swapped n => c.Swapped n u.state ∧
          u.events = es.push (.swapped n c.generation.flip.fromColor) := by
  unfold Collector.step
  rw [Action.yields_bind, yields_tally, Action.yields_bind, Action.yields_ask, Action.yields_bind]
  -- counting the step does not touch what the invariant is about
  have h' : ({ c with stats := { c.stats with steps := c.stats.steps + 1 } } : Collector).Sound :=
    ⟨h.store, h.pageSize_eq, h.maxPages_eq, h.rooted, h.closed, h.tricolor⟩
  refine (scanFirst_yields h' (scanOrder c.generation) fun p hp => hp).mono fun r m hm => ?_
  cases r with
  | some id =>
    obtain ⟨x, target, hx, horder, hpaint, hevents⟩ := hm
    rw [Action.yields_pure]
    exact ⟨x, target, ⟨hx, horder, hpaint.store, hpaint.frame⟩, hevents⟩
  | none =>
    -- the three classes of unscanned pairs are empty
    obtain ⟨rfl, hnone⟩ := hm
    rw [Action.yields_bind]
    refine (swapGenerations_yields h'.store).mono fun n u hu => ?_
    obtain ⟨hn, hpaint, hu⟩ := hu
    rw [Action.yields_pure]
    refine ⟨?_, congrArg Traced.events hu⟩
    constructor
    case scanned =>
      intro j x hx
      have hfromRoot := hnone (c.generation.fromRoot, c.generation.toRoot) (by simp [scanOrder])
      have hgreyRoot := hnone (.greyRoot, c.generation.toRoot) (by simp [scanOrder])
      have hgrey := hnone (.grey, c.generation.toColor) (by simp [scanOrder])
      exact ⟨hfromRoot j x hx, hgreyRoot j x hx, hgrey j x hx⟩
    case count => exact hn
    case store => exact hpaint
    case frame => exact congrArg Traced.state hu

/-! ### Scans -/

namespace Scanned

variable (hs : c.Scanned id x target c')

include hs

/-- A scan recolors the scanned pair into the `to` generation and greys what it holds. Rooted pairs
stay rooted and live pairs stay live. -/
theorem afterScan_spec (hy : c.look j = some y) :
    (c.generation.afterScan target id x.children j y.color).isRoot = y.color.isRoot ∧
      (c.generation.afterScan target id x.children j y.color).isLive = y.color.isLive := by
  obtain ⟨hsl, -, -, htl, hroot⟩ := of_mem_scanOrder hs.order
  -- only at the scanned pair is the color not that of before or the greyed one
  have hinner : (if j = id then target else y.color).isRoot = y.color.isRoot ∧
      (if j = id then target else y.color).isLive = y.color.isLive := by
    split
    · rename_i hj
      rw [hj, hs.look_eq] at hy
      obtain rfl := Option.some.inj hy
      exact ⟨hroot, htl.trans hsl.symm⟩
    · exact ⟨rfl, rfl⟩
  unfold Generation.afterScan
  split
  · rw [Generation.isRoot_greyed, Generation.isLive_greyed]
    exact hinner
  · exact hinner

/-- A scan leaves the slots alone that are free or void, and makes none. -/
theorem afterScan_eq_iff (hy : c.look j = some y) {d : Color} (hd : d.isLive = false) :
    c.generation.afterScan target id x.children j y.color = d ↔ y.color = d := by
  obtain ⟨hsl, -, -, htl, -⟩ := of_mem_scanOrder hs.order
  have hdead : ∀ {e : Color}, e.isLive = true → e ≠ d := by
    rintro e he rfl
    exact Bool.false_ne_true (hd.symm.trans he)
  -- the scanned pair is live before and after
  have hinner : (if j = id then target else y.color) = d ↔ y.color = d := by
    split
    · rename_i hj
      rw [hj, hs.look_eq] at hy
      obtain rfl := Option.some.inj hy
      exact iff_of_false (hdead htl) (hdead hsl)
    · exact Iff.rfl
  unfold Generation.afterScan
  split
  · exact (Generation.greyed_eq_iff hd).trans hinner
  · exact hinner

theorem generation_eq : c'.generation = c.generation := by
  rw [hs.frame]

/-- A slot after the scan is a slot of before in another color. -/
theorem look_inv (hy : c'.look j = some y) : ∃ z, c.look j = some z ∧ y =
    { z with color := c.generation.afterScan target id x.children j z.color } :=
  hs.store.look_inv hy

theorem isLive_iff : c'.IsLive j ↔ c.IsLive j := by
  refine (hs.store.exists_color (·.isLive = true)).trans ?_
  refine exists_congr fun z => and_congr_right fun hz => ?_
  rw [(hs.afterScan_spec hz).2]

theorem graph_eq : c'.graph = c.graph := by
  -- a node says nothing of colors, except that it is live
  funext j
  unfold graph
  rw [show c'.look j = _ from hs.store.look j]
  change _ = ((c.store.look j).filter _).map _
  cases hj : c.store.look j with
  | none => rfl
  | some z =>
    have hl := (hs.afterScan_spec hj).2
    simp only [Option.map_some, Option.filter_some, hl]
    split <;> rfl

/-- **A scan keeps the invariant.** The scanned pair holds only what was greyed just now, and no
other pair joins the `to` generation. -/
theorem sound (h : c.Sound) : c'.Sound where
  store := hs.store.sound
  pageSize_eq := by
    rw [hs.store.layout.pageSize_eq, h.pageSize_eq, hs.frame]
  maxPages_eq := by
    rw [hs.store.layout.maxPages_eq, h.maxPages_eq, hs.frame]
  rooted := by
    intro j y hy
    -- no color changes between rooted and bulk, or between live and dead
    obtain ⟨z, hz, rfl⟩ := hs.look_inv hy
    rw [← h.rooted hz, ← (hs.afterScan_spec hz).1]
  closed := by
    intro j y child hy hl hchild
    obtain ⟨z, hz, rfl⟩ := hs.look_inv hy
    rw [hs.isLive_iff]
    exact h.closed hz ((hs.afterScan_spec hz).2.symm.trans hl) hchild
  tricolor := by
    intro j y child w hy hto hchild hw
    obtain ⟨z, hz, rfl⟩ := hs.look_inv hy
    obtain ⟨v, hv, rfl⟩ := hs.look_inv hw
    obtain ⟨-, -, htarget, -, -⟩ := of_mem_scanOrder hs.order
    rw [hs.generation_eq] at hto ⊢
    change c.generation.isFrom
      (c.generation.afterScan target id x.children child v.color) = false
    change c.generation.isTo (c.generation.afterScan target id x.children j z.color) = true at hto
    unfold Generation.afterScan at hto ⊢
    split
    · -- the child was greyed
      exact Generation.isFrom_greyed
    · rename_i hnot
      split
      · -- the child is the scanned pair
        exact Generation.isFrom_eq_false_of_isTo htarget
      · -- the child is as before, so its parent is not the scanned pair
        have hne : j ≠ id := by
          rintro rfl
          rw [hs.look_eq] at hz
          obtain rfl := Option.some.inj hz
          exact hnot hchild
        rw [if_neg hne] at hto
        have hto' : c.generation.isTo z.color = true := by
          split at hto
          · rwa [Generation.isTo_greyed] at hto
          · exact hto
        exact h.tricolor hz hto' hchild hv

end Scanned

/-! ### Swaps -/

namespace Swapped

variable (hs : c.Swapped n c')

include hs

theorem generation_eq : c'.generation = c.generation.flip := by
  rw [hs.frame]

theorem look_inv (hy : c'.look j = some y) : ∃ z, c.look j = some z ∧ y =
    { z with color := c.generation.afterSwap z.color } :=
  hs.store.look_inv hy

/-- When nothing is left to scan, a live pair was scanned or has the `from` color. -/
theorem isTo_of_isLive (hy : c.look j = some y) (hl : y.color.isLive = true)
    (hne : y.color ≠ c.generation.fromColor) : c.generation.isTo y.color = true := by
  -- three of the six live colors have no members, and `hne` excludes a fourth
  obtain ⟨h₁, h₂, h₃⟩ := hs.scanned hy
  revert hl hne h₁ h₂ h₃
  generalize y.color = d
  cases c.generation <;> cases d <;> decide

/-- The children of scanned pairs were scanned, since nothing is left to scan. -/
theorem isTo_child (h : c.Sound) (hy : c.look j = some y) (hto : c.generation.isTo y.color = true)
    (hl : y.color.isLive = true) (hchild : child ∈ y.children) :
    ∃ z, c.look child = some z ∧ z.color.isLive = true ∧ c.generation.isTo z.color = true := by
  obtain ⟨z, hz, hzl⟩ := h.closed hy hl hchild
  refine ⟨z, hz, hzl, hs.isTo_of_isLive hz hzl fun he => ?_⟩
  have hfrom := h.tricolor hy hto hchild hz
  rw [he, Generation.isFrom_fromColor] at hfrom
  exact absurd hfrom (by decide)

/-- All that is reachable was scanned. A root color is not the `from` color, and so the rooted pairs
were scanned; the others follow along the way from a root. -/
theorem isTo_of_reachable (h : c.Sound) (hid : c.graph.Reachable id) :
    ∃ x, c.look id = some x ∧ x.color.isLive = true ∧ c.generation.isTo x.color = true := by
  induction hid with
  | root node rooted =>
    obtain ⟨x, hx, hl, rfl⟩ := graph_eq_some.1 node
    refine ⟨x, hx, hl, hs.isTo_of_isLive hx hl fun he => ?_⟩
    have hroot := (h.rooted hx).2 rooted
    rw [he, Generation.isRoot_fromColor] at hroot
    exact absurd hroot (by decide)
  | edge _ node mem ih =>
    obtain ⟨x, hx, hl, hto⟩ := ih
    rw [graph_of_look hx hl] at node
    obtain rfl := Option.some.inj node
    exact hs.isTo_child h hx hto hl mem

/-- A slot that is live after the swap was live before, and had been scanned. -/
theorem look_of_isLive (hy : c'.look j = some y) (hl : y.color.isLive = true) :
    c.look j = some y ∧ c.generation.isTo y.color = true := by
  obtain ⟨z, hz, rfl⟩ := hs.look_inv hy
  have hne : z.color ≠ c.generation.fromColor := by
    intro he
    change (c.generation.afterSwap z.color).isLive = true at hl
    unfold Generation.afterSwap at hl
    rw [if_pos he] at hl
    exact absurd hl (by decide)
  have hsame : c.generation.afterSwap z.color = z.color := if_neg hne
  simp only [hsame] at hl ⊢
  exact ⟨hz, hs.isTo_of_isLive hz hl hne⟩

/-- **A swap only takes away pairs that are not reachable.** -/
theorem trims (h : c.Sound) : c.graph.Trims c'.graph where
  old := by
    intro j m hm
    obtain ⟨y, hy, hl, rfl⟩ := graph_eq_some.1 hm
    exact graph_of_look (hs.look_of_isLive hy hl).1 hl
  kept := by
    -- a reachable pair was scanned, so it keeps its color
    intro j hj
    obtain ⟨x, hx, hl, hto⟩ := hs.isTo_of_reachable h hj
    have hx' := hs.store.look_of hx
    rw [Generation.afterSwap_of_isTo hto] at hx'
    rw [graph_of_look hx hl]
    exact graph_of_look hx' hl

/-- **A swap keeps the invariant.** Only scanned pairs are left, they hold scanned pairs, and the
new `to` generation has no members yet. -/
theorem sound (h : c.Sound) : c'.Sound where
  store := hs.store.sound
  pageSize_eq := by
    rw [hs.store.layout.pageSize_eq, h.pageSize_eq, hs.frame]
  maxPages_eq := by
    rw [hs.store.layout.maxPages_eq, h.maxPages_eq, hs.frame]
  rooted := by
    intro j y hy
    obtain ⟨z, hz, rfl⟩ := hs.look_inv hy
    rw [← h.rooted hz]
    change (c.generation.afterSwap z.color).isRoot = true ↔ _
    unfold Generation.afterSwap
    split
    · -- disposing of a pair does not change that it has no root color
      rename_i he
      rw [he, Generation.isRoot_fromColor]
      decide
    · exact Iff.rfl
  closed := by
    intro j y child hy hl hchild
    obtain ⟨hy', hto⟩ := hs.look_of_isLive hy hl
    obtain ⟨z, hz, hzl, hzto⟩ := hs.isTo_child h hy' hto hl hchild
    refine ⟨_, hs.store.look_of hz, ?_⟩
    rw [Generation.afterSwap_of_isTo hzto]
    exact hzl
  tricolor := by
    intro j y child w hy hto _ _
    -- no pair carries a color of the new `to` generation
    rw [hs.generation_eq, Generation.isTo_flip] at hto
    have hto' := (hs.look_of_isLive hy (Generation.isLive_of_isFrom hto)).2
    rw [Generation.isFrom_eq_false_of_isTo hto'] at hto
    exact absurd hto (by decide)

end Swapped

end Collector

end ConsHeap
