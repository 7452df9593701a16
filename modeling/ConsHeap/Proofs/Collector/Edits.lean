import ConsHeap.Proofs.Collector.Upkeep
import ConsHeap.Proofs.Store.Overwrite

/-!
# What a mutator does to the pairs

Apart from the upkeep that it pays for, a mutator overwrites one slot and greys some pairs.
`Collector.Edited c id y kids c'` says that `c'` is `c` with the slot of `id` being `y` and the
pairs `kids` greyed, and that the change is a legitimate one. Its clauses are what the checks and
the write barrier of the mutators are for:

* the new slot is live, and rooted if its color says so;
* what it holds, apart from itself, was live (`children`), and was greyed just now unless the pair
  held it before (`barrier`);
* a live pair does not go back to the `from` generation (`demotes`).

These clauses are enough to keep the invariant (`Edited.sound`), and the graph after the edit is the
one before with one pair inserted or replaced (`Edited.graph_eq`).
-/

namespace ConsHeap

/-- The color of a pair after some pairs were greyed. -/
def Generation.shade (g : Generation) (kids : List PairId) (j : PairId) (c : Color) : Color :=
  if j ∈ kids then g.greyed c else c

namespace Generation

variable {g : Generation} {kids : List PairId} {j : PairId} {c : Color}

theorem isLive_shade : (g.shade kids j c).isLive = c.isLive := by
  unfold shade
  split
  · exact isLive_greyed
  · rfl

theorem isRoot_shade : (g.shade kids j c).isRoot = c.isRoot := by
  unfold shade
  split
  · exact isRoot_greyed
  · rfl

theorem isTo_shade : g.isTo (g.shade kids j c) = g.isTo c := by
  unfold shade
  split
  · exact isTo_greyed
  · rfl

/-- Greyed pairs do not belong to the `from` generation, and the others do as before. -/
theorem isFrom_shade : g.isFrom (g.shade kids j c) = true ↔ j ∉ kids ∧ g.isFrom c = true := by
  unfold shade
  split
  · rename_i hj
    rw [isFrom_greyed]
    simp [hj]
  · rename_i hj
    simp [hj]

theorem shade_eq_iff {d : Color} (hd : d.isLive = false) : g.shade kids j c = d ↔ c = d := by
  unfold shade
  split
  · exact greyed_eq_iff hd
  · exact Iff.rfl

theorem shade_of_not_mem (h : j ∉ kids) : g.shade kids j c = c :=
  if_neg h

end Generation

namespace Collector

variable {c c' : Collector} {id j child : PairId} {x y z : Slot} {kids : List PairId}
  {es : Array Event} {cells : Multiset Cell} {o : ObjectId}

/-- `c'` is `c` with the slot of `id` overwritten by `y` and the pairs `kids` greyed. -/
structure Edited (c : Collector) (id : PairId) (y : Slot) (kids : List PairId) (c' : Collector) :
    Prop where
  slots : ∃ s, c.store.Overwrites id y s ∧ s.Repaints (c.generation.shade kids) c'.store
  live : y.color.isLive = true
  rooted : y.color.isRoot = true ↔ 0 < y.rootCount
  children : ∀ child ∈ y.children, child ≠ id → c.IsLive child
  barrier : ∀ child ∈ y.children, child ∈ kids ∨
    ∃ x, c.look id = some x ∧ x.color.isLive = true ∧ child ∈ x.children ∧
      (c.generation.isTo y.color = true → c.generation.isTo x.color = true)
  demotes : ∀ {x}, c.look id = some x → x.color.isLive = true →
    c.generation.isFrom y.color = true → c.generation.isFrom x.color = true
  frame : c' = { c with
    store := c'.store
    objects := c'.objects
    stats := { c.stats with
      pagesAllocated := c'.stats.pagesAllocated
      pairsAllocated := c'.stats.pairsAllocated } }

namespace Edited

variable (he : c.Edited id y kids c')

include he

/-! ### The slots after an edit -/

theorem generation_eq : c'.generation = c.generation := by
  rw [he.frame]

theorem options_eq : c'.options = c.options := by
  rw [he.frame]

theorem look_self : c'.look id = some { y with color := c.generation.shade kids id y.color } := by
  obtain ⟨s, hs, hp⟩ := he.slots
  exact hp.look_of hs.self

theorem look_other (hj : j ≠ id) (hx : c.look j = some x) :
    c'.look j = some { x with color := c.generation.shade kids j x.color } := by
  obtain ⟨s, hs, hp⟩ := he.slots
  exact hp.look_of (hs.other hj hx)

/-- A slot after the edit is the one overwritten, a slot of before that may have been greyed, or a
blank one. -/
theorem look_inv (hz : c'.look j = some z) :
    (j = id ∧ z = { y with color := c.generation.shade kids id y.color }) ∨
      (j ≠ id ∧ ∃ x, c.look j = some x ∧
        z = { x with color := c.generation.shade kids j x.color }) ∨
      (c.look j = none ∧ z.color.isLive = false ∧ z.rootCount = 0) := by
  by_cases hj : j = id
  · rw [hj, he.look_self] at hz
    exact .inl ⟨hj, (Option.some.inj hz).symm⟩
  · cases hx : c.look j with
    | some x =>
      rw [he.look_other hj hx] at hz
      exact .inr (.inl ⟨hj, x, rfl, (Option.some.inj hz).symm⟩)
    | none =>
      -- a slot that came into being is one of a new page
      obtain ⟨s, hs, hp⟩ := he.slots
      obtain ⟨w, hw, rfl⟩ := hp.look_inv hz
      rcases hs.fresh hj hx with hnone | hblank
      · rw [hnone] at hw
        exact absurd hw (by simp)
      · rw [hblank] at hw
        obtain rfl := Option.some.inj hw
        exact .inr (.inr ⟨rfl, Generation.isLive_shade, rfl⟩)

/-- A live slot after the edit is the one overwritten or was live before. -/
theorem look_of_isLive (hz : c'.look j = some z) (hl : z.color.isLive = true) :
    (j = id ∧ z = { y with color := c.generation.shade kids id y.color }) ∨
      (j ≠ id ∧ ∃ x, c.look j = some x ∧ x.color.isLive = true ∧
        z = { x with color := c.generation.shade kids j x.color }) := by
  rcases he.look_inv hz with hself | ⟨hj, x, hx, rfl⟩ | ⟨-, hdead, -⟩
  · exact .inl hself
  · exact .inr ⟨hj, x, hx, Generation.isLive_shade.symm.trans hl, rfl⟩
  · rw [hl] at hdead
    exact absurd hdead (by decide)

theorem isLive_self : c'.IsLive id :=
  ⟨_, he.look_self, Generation.isLive_shade.trans he.live⟩

theorem isLive_of_isLive (hl : c.IsLive j) : c'.IsLive j := by
  obtain ⟨x, hx, hlive⟩ := hl
  by_cases hj : j = id
  · rw [hj]
    exact he.isLive_self
  · exact ⟨_, he.look_other hj hx, Generation.isLive_shade.trans hlive⟩

/-- **The graph after an edit** has one pair inserted or replaced. -/
theorem graph_eq : c'.graph = c.graph.insert id y.node := by
  funext j
  refine Option.ext fun m => ?_
  rw [graph_eq_some]
  by_cases hj : j = id
  · rw [hj, Graph.insert_self, he.look_self]
    constructor
    · rintro ⟨z, hz, -, rfl⟩
      rw [← Option.some.inj hz]
      rfl
    · intro hm
      exact ⟨_, rfl, Generation.isLive_shade.trans he.live, Option.some.inj hm⟩
  · -- any other pair was greyed at most
    rw [Graph.insert_ne hj, graph_eq_some]
    constructor
    · rintro ⟨z, hz, hl, rfl⟩
      rcases he.look_of_isLive hz hl with ⟨hid, -⟩ | ⟨-, x, hx, hxl, rfl⟩
      · exact absurd hid hj
      · exact ⟨x, hx, hxl, rfl⟩
    · rintro ⟨x, hx, hl, rfl⟩
      exact ⟨_, he.look_other hj hx, Generation.isLive_shade.trans hl, rfl⟩

/-! ### The invariant -/

/-- What may be in the `from` generation after the edit was so before, or was not live. -/
theorem isFrom_of_isFrom (hz : c'.look j = some z) (hx : c.look j = some x)
    (hl : x.color.isLive = true) (hfrom : c.generation.isFrom z.color = true) :
    j ∉ kids ∧ c.generation.isFrom x.color = true := by
  rcases he.look_inv hz with ⟨rfl, rfl⟩ | ⟨-, w, hw, rfl⟩ | ⟨hnone, -, -⟩
  · obtain ⟨hj, hy⟩ := Generation.isFrom_shade.1 hfrom
    exact ⟨hj, he.demotes hx hl hy⟩
  · obtain rfl := Option.some.inj (hx.symm.trans hw)
    exact Generation.isFrom_shade.1 hfrom
  · rw [hx] at hnone
    exact absurd hnone (by simp)

/-- **An edit keeps the invariant.** What the overwritten pair holds was greyed, or the pair held it
before and was in no other generation then. -/
theorem sound (h : c.Sound) : c'.Sound where
  store := by
    obtain ⟨s, -, hp⟩ := he.slots
    exact hp.sound
  pageSize_eq := by
    obtain ⟨s, hs, hp⟩ := he.slots
    rw [hp.layout.pageSize_eq, hs.pageSize_eq, h.pageSize_eq, he.options_eq]
  maxPages_eq := by
    obtain ⟨s, hs, hp⟩ := he.slots
    rw [hp.layout.maxPages_eq, hs.maxPages_eq, h.maxPages_eq, he.options_eq]
  rooted := by
    intro j z hz
    rcases he.look_inv hz with ⟨-, rfl⟩ | ⟨-, x, hx, rfl⟩ | ⟨-, hdead, hzero⟩
    · -- the overwritten pair has the color that its root count asks for
      rw [← he.rooted]
      exact Bool.eq_iff_iff.1 Generation.isRoot_shade
    · rw [← h.rooted hx]
      exact Bool.eq_iff_iff.1 Generation.isRoot_shade
    · -- a slot of a new page is neither live nor rooted
      rw [Color.not_isRoot_of_not_isLive hdead, hzero]
      decide
  closed := by
    intro j z child hz hl hchild
    -- all that was live still is, and the overwritten pair is, too
    by_cases hself : child = id
    · rw [hself]
      exact he.isLive_self
    · apply he.isLive_of_isLive
      rcases he.look_of_isLive hz hl with ⟨-, rfl⟩ | ⟨-, x, hx, hxl, rfl⟩
      · exact he.children child hchild hself
      · exact h.closed hx hxl hchild
  tricolor := by
    intro j z child w hz hto hchild hw
    rw [he.generation_eq] at hto ⊢
    have hl : z.color.isLive = true := Generation.isLive_of_isTo hto
    rw [← Bool.not_eq_true]
    intro hfrom
    -- the child was live before, so it was in the `from` generation already and was not greyed
    have hnot : ∀ {v}, c.look child = some v → v.color.isLive = true →
        child ∉ kids ∧ c.generation.isFrom v.color = true :=
      fun hv hvl => he.isFrom_of_isFrom hw hv hvl hfrom
    rcases he.look_of_isLive hz hl with ⟨rfl, rfl⟩ | ⟨-, x, hx, hxl, rfl⟩
    · -- the pair overwritten is not in both generations, and so it may hold itself
      have hself : child ≠ j := by
        rintro rfl
        obtain rfl := Option.some.inj (hz.symm.trans hw)
        have hnotFrom := Generation.isFrom_eq_false_of_isTo hto
        exact Bool.false_ne_true (hnotFrom.symm.trans hfrom)
      -- the barrier has greyed what else it did not hold before
      obtain ⟨v, hv, hvl⟩ := he.children child hchild hself
      rcases he.barrier child hchild with hkid | ⟨x, hx, -, hold, hgen⟩
      · exact (hnot hv hvl).1 hkid
      · have hxto := hgen (Generation.isTo_shade.symm.trans hto)
        have htri := h.tricolor hx hxto hold hv
        rw [(hnot hv hvl).2] at htri
        exact absurd htri (by decide)
    · -- any other pair holds what it held
      obtain ⟨v, hv, hvl⟩ := h.closed hx hxl hchild
      have htri := h.tricolor hx (Generation.isTo_shade.symm.trans hto) hchild hv
      rw [(hnot hv hvl).2] at htri
      exact absurd htri (by decide)

/-- The references of the old slot are exchanged for those of the new one. -/
theorem held_eq (o : ObjectId) :
    c'.store.held o + (c.look id).elim 0 (fun x => x.holds o) = c.store.held o + y.holds o := by
  obtain ⟨s, hs, hp⟩ := he.slots
  rw [hp.held_eq]
  exact hs.held o

end Edited

end Collector

end ConsHeap
