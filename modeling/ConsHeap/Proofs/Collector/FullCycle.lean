import ConsHeap.Proofs.Collector.Census
import ConsHeap.Proofs.Collector.Recycling
import ConsHeap.Proofs.Store.Traversal

/-!
# What a full cycle does

A full cycle empties every class and puts each pair back or gives it to the arena. In between, all
pairs are loose: `Collector.Sifting c keep ids loose s c'` is the effect of going through the loose
pairs `ids`, with what was counted on the way, and it is proved by induction on them. The traversal
decides which pairs are kept, and on a sound collector it finds exactly what is reachable in its
graph (`Collector.Sound.keepers_spec`).

`Cycled c n c'` says all that a full cycle does. It keeps the invariant without any help from the
colors of before, since reachability is computed anew.
-/

namespace ConsHeap

namespace Collector

variable {c c' c'' : Collector} {id j child : PairId} {x y : Slot} {es : Array Event} {n : Nat}
  {ids loose : List PairId} {cells : Multiset Cell} {keep : PairId → Bool}

/-! ### Which pairs are kept -/

/-- The traversal goes from the pairs of the root classes, and these are the rooted ones. -/
theorem Sound.reaches_iff (h : c.Sound) : c.store.Reaches id ↔ c.graph.Reachable id := by
  constructor
  · -- who is in a root class carries its color, and has a root
    intro hid
    induction hid with
    | @root id color hroot hmem =>
      have hv : color ≠ .void := Color.ne_void_of_isLive (Color.isLive_of_isRoot hroot)
      obtain ⟨x, hx, rfl⟩ := (h.store.mem_members hv).1 hmem
      exact h.reachable_of_isRoot hx hroot
    | @edge id child slot _ hslot hchild ih =>
      obtain ⟨x, hx, hl⟩ := h.isLive_of_reachable ih
      have hx' : c.look id = some { slot with index := 0 } := Store.look_of_slot? hslot
      rw [hx'] at hx
      obtain rfl := Option.some.inj hx
      exact .edge ih (graph_of_look hx' hl) hchild
  · -- who has a root carries a root color, and is in the class of it
    intro hid
    induction hid with
    | root node rooted =>
      obtain ⟨x, hx, hl, rfl⟩ := graph_eq_some.1 node
      have hroot : x.color.isRoot = true := (h.rooted hx).2 rooted
      have hmem : _ ∈ c.store.classes.members x.color :=
        (h.store.mem_members (Color.ne_void_of_isLive hl)).2 ⟨x, hx, rfl⟩
      exact .root hroot hmem
    | edge _ node mem ih =>
      obtain ⟨x, hx, -, rfl⟩ := graph_eq_some.1 node
      obtain ⟨slot, hslot, rfl⟩ := Store.look_eq_some.1 hx
      exact .edge ih hslot mem

/-- **The traversal of a sound collector finds exactly the reachable pairs.** -/
theorem Sound.traversal (h : c.Sound) :
    ∃ w, c.store.reachable = .ok w ∧ w.Listed ∧
      ∀ id, w.has id = true ↔ c.graph.Reachable id := by
  -- the traversal meets no edge that leads outside all pages
  have hslots : ∀ id, c.store.Reaches id → ∃ x, c.store.arena.slot? id = some x := by
    intro id hid
    obtain ⟨x, hx, -⟩ := h.isLive_of_reachable (h.reaches_iff.1 hid)
    obtain ⟨slot, hslot, -⟩ := Store.look_eq_some.1 hx
    exact ⟨slot, hslot⟩
  obtain ⟨w, hw, hlisted, hhas⟩ := Store.reachable_spec hslots
  exact ⟨w, hw, hlisted, fun id => (hhas id).trans h.reaches_iff⟩

/-- What a full cycle keeps is what is reachable. -/
theorem Sound.keepers_spec (h : c.Sound) :
    ∃ keep found, c.keepers = .ok (keep, found) ∧
      ∀ id, keep id = true ↔ c.graph.Reachable id := by
  obtain ⟨w, hw, -, hhas⟩ := h.traversal
  refine ⟨w.has, w.found.size, ?_, hhas⟩
  unfold keepers
  rw [hw]

/-- What can be asked for as the reachable pairs is what is reachable. -/
theorem Sound.reachable_spec (h : c.Sound) :
    ∃ found, c.reachable = .ok found ∧ ∀ id, id ∈ found ↔ c.graph.Reachable id := by
  obtain ⟨w, hw, hlisted, hhas⟩ := h.traversal
  refine ⟨w.found.toList, ?_, fun id => ?_⟩
  · unfold Collector.reachable
    rw [hw]
  · rw [Array.mem_toList_iff, ← hlisted id]
    exact hhas id

/-! ### All classes emptied -/

/-- All members of a class become loose. -/
theorem classTake_yields {color : Color} {Q : Array PairId → Traced Collector → Prop} :
    (onStore (Store.classTake color)).Yields ⟨c, es⟩ Q ↔
      Q (c.store.classes.members color) ⟨{ c with store :=
        ⟨c.store.arena, c.store.classes.modify color fun _ => #[]⟩ }, es⟩ := by
  rw [yields_onStore]
  exact Action.yields_updateGet

/-- The members of some classes become loose, and these classes are empty then. -/
theorem gather_yields (order : List Color) (h : c.store.Sound loose) :
    (gather order).Yields ⟨c, es⟩ fun ids u =>
      ∃ cs : Classes, u = ⟨{ c with store := ⟨c.store.arena, cs⟩ }, es⟩ ∧
        (⟨c.store.arena, cs⟩ : Store).Sound (ids ++ loose) ∧
        ∀ d, cs.members d = if d ∈ order then #[] else c.store.classes.members d := by
  induction order generalizing c loose with
  | nil =>
    unfold gather
    rw [Action.yields_pure]
    exact ⟨c.store.classes, rfl, h, fun d => by rw [if_neg List.not_mem_nil]⟩
  | cons color order ih =>
    unfold gather
    rw [Action.yields_bind, classTake_yields, Action.yields_bind]
    refine (ih (c := { c with store :=
      ⟨c.store.arena, c.store.classes.modify color fun _ => #[]⟩ }) h.take).mono fun ids u hu => ?_
    obtain ⟨cs, hu, hsound, hmembers⟩ := hu
    rw [Action.yields_pure]
    refine ⟨cs, hu, hsound.perm ?_, fun d => ?_⟩
    · -- the members taken first stand in front
      rw [← List.append_assoc]
      exact List.perm_append_comm.append_right loose
    · rw [hmembers]
      change (if d ∈ order then #[] else (c.store.classes.modify color _).members d) = _
      rw [Classes.members_modify]
      -- a class is empty when it was taken now or is one of the others in the order
      by_cases hd : d = color
      · rw [if_pos hd, ite_self, if_pos (by rw [hd]; exact List.mem_cons_self)]
      · by_cases hm : d ∈ order
        · rw [if_pos hm, if_pos (List.mem_cons_of_mem _ hm)]
        · rw [if_neg hm, if_neg hd, if_neg (by simp [hd, hm])]

/-- With all classes empty, the loose pairs are those that are not vacant. -/
theorem mem_gathered (h : c.store.Sound []) {cs : Classes}
    (hids : (⟨c.store.arena, cs⟩ : Store).Sound ids) (hcs : ∀ d, cs.members d = #[])
    (hx : c.look j = some x) : j ∈ ids ↔ x.color ≠ .void := by
  obtain ⟨slot, hslot, rfl⟩ := Store.look_eq_some.1 hx
  constructor
  · intro hj hv
    exact (hids.loose_slot j hj).1 (h.vacant hslot List.not_mem_nil hv)
  · -- otherwise it would be listed in a class, and all classes are empty
    intro hcol
    by_contra hj
    have hlisted := hids.listed hslot hj hcol
    rw [hcs] at hlisted
    exact absurd hlisted (by simp)

/-! ### Loose pairs put back or given up -/

/-- The slot of a loose pair after it was gone through: one to be kept joins the `to` generation,
and the others are blanked. -/
def siftedSlot (g : Generation) (keep : Bool) (x : Slot) : Slot :=
  if keep then { x with color := survivorColor g x.color } else {}

/-- Whether a loose pair is given up, as one of a color that satisfies `p`. -/
def givesUp (c : Collector) (keep : PairId → Bool) (p : Color → Bool) (j : PairId) : Bool :=
  !keep j && (c.look j).any fun x => p x.color

/-- `c'` is `c` after the loose pairs `ids` were gone through, while those in `loose` still wait.
The counts are of the pairs given up: those that were live, and those together with the free ones.
-/
structure Sifting (c : Collector) (keep : PairId → Bool) (ids loose : List PairId) (s : Sifted)
    (c' : Collector) : Prop where
  disposed : s.disposed = ids.countP (c.givesUp keep (· ≠ .free))
  recycled : s.recycled = s.disposed + ids.countP (c.givesUp keep (· = .free))
  store : c'.store.Sound loose
  pageSize_eq : c'.store.arena.pageSize = c.store.arena.pageSize
  maxPages_eq : c'.store.arena.maxPages = c.store.arena.maxPages
  look : ∀ j, c'.look j = (c.look j).map fun x =>
    if j ∈ ids then siftedSlot c.generation (keep j) x else x
  balanced : ∀ cells, c.Balanced cells → c'.Balanced cells
  releases : c.objects.Releases c'.objects
  frame : c' = { c with store := c'.store, objects := c'.objects }

theorem Sifting.nil (h : c.store.Sound loose) : c.Sifting keep [] loose {} c where
  disposed := rfl
  recycled := rfl
  store := h
  pageSize_eq := rfl
  maxPages_eq := rfl
  look := fun j => by
    simp only [if_neg List.not_mem_nil]
    exact Option.map_id'.symm
  balanced := fun _ hc => hc
  releases := .refl _
  frame := rfl

/-- What is given up later was not changed by the first pair. -/
theorem Sifting.countP_givesUp {one : Sifted} {p : Color → Bool} (hid : id ∉ ids)
    (h : c.Sifting keep [id] loose one c') :
    ids.countP (c'.givesUp keep p) = ids.countP (c.givesUp keep p) := by
  refine List.countP_congr fun j hj => ?_
  have hne : j ∉ [id] := by
    rw [List.mem_singleton]
    exact fun he => hid (he ▸ hj)
  have hsame : c'.look j = c.look j := by
    rw [h.look]
    simp only [if_neg hne]
    exact Option.map_id'
  unfold givesUp
  rw [hsame]

/-- The first pair, and then the others. -/
theorem Sifting.cons {one more : Sifted} (hid : id ∉ ids)
    (h : c.Sifting keep [id] (ids ++ loose) one c') (h' : c'.Sifting keep ids loose more c'') :
    c.Sifting keep (id :: ids) loose
      ⟨one.disposed + more.disposed, one.recycled + more.recycled⟩ c'' where
  disposed := by
    change one.disposed + more.disposed = _
    rw [h.disposed, h'.disposed, h.countP_givesUp hid, ← List.countP_append]
    rfl
  recycled := by
    change one.recycled + more.recycled = one.disposed + more.disposed + _
    rw [h.recycled, h'.recycled, h.countP_givesUp hid,
      show id :: ids = [id] ++ ids from rfl, List.countP_append]
    omega
  store := h'.store
  pageSize_eq := h'.pageSize_eq.trans h.pageSize_eq
  maxPages_eq := h'.maxPages_eq.trans h.maxPages_eq
  look := fun j => by
    have hgen : c'.generation = c.generation := by rw [h.frame]
    rw [h'.look, h.look, Option.map_map, hgen]
    congr 1
    funext x
    -- the first pair is not gone through again
    by_cases hj : j = id
    · simp [hj, hid]
    · simp [hj]
  balanced := fun cells hc => h'.balanced cells (h.balanced cells hc)
  releases := h.releases.trans h'.releases
  frame := by rw [h'.frame, h.frame]

/-- What goes through one loose pair changes no other. -/
theorem look_siftOne {g : Generation} {z : Option Slot} (hx : c.look id = some x)
    (hz : z = if j = id then some (siftedSlot g (keep id) x) else c.look j) :
    z = (c.look j).map fun x => if j ∈ [id] then siftedSlot g (keep j) x else x := by
  simp only [List.mem_singleton]
  by_cases hj : j = id
  · rw [hz, if_pos hj, hj, hx, Option.map_some, if_pos rfl]
  · rw [hz, if_neg hj]
    simp only [if_neg hj]
    exact Option.map_id'.symm

/-- One loose pair put into a class. -/
theorem Balanced.enlist {color : Color} (h : c.Balanced cells) :
    ({ c with store := c.store.enlist color id } : Collector).Balanced cells :=
  h.congr rfl fun o => Store.held_enlist c.store id o

theorem isLive_survivorColor {g : Generation} {d : Color} :
    (survivorColor g d).isLive = true := by
  cases g <;> cases d <;> rfl

/-- A pair that is kept joins the class of its new color. -/
theorem siftOne_kept (hx : c.slot id = .ok x) (hkeep : keep id = true) :
    (siftOne keep id).Yields ⟨c, es⟩ fun one u => one = {} ∧
      u = ⟨{ c with store := c.store.enlist (survivorColor c.generation x.color) id }, es⟩ := by
  have hcolor : survivorColor c.generation x.color ≠ .void :=
    Color.ne_void_of_isLive isLive_survivorColor
  unfold siftOne
  rw [Action.yields_bind, Action.yields_query]
  refine ⟨x, hx, ?_⟩
  rw [if_pos hkeep, Action.yields_bind, Action.yields_ask, Action.yields_bind, yields_onStore]
  refine (Store.add_yields hx hcolor).mono fun _ m hm => ?_
  rw [Action.yields_pure, hm]
  exact ⟨rfl, rfl⟩

/-- A loose pair can always be put back or given up. -/
theorem siftOne_yields (h : c.store.Sound (id :: loose)) :
    (siftOne keep id).Yields ⟨c, es⟩ fun s u =>
      c.Sifting keep [id] loose s u.state ∧ u.events = es := by
  obtain ⟨slot, hslot⟩ := Option.isSome_iff_exists.1 (h.loose_slot id List.mem_cons_self).2
  have hx : c.look id = some { slot with index := 0 } := Store.look_of_slot? hslot
  have hs : c.slot id = .ok slot := Arena.slot_eq_ok.2 hslot
  -- what is counted for the pair, by whether it is kept and what color it carries
  have hcounts : ∀ p : Color → Bool, [id].countP (c.givesUp keep p) =
      if keep id = false ∧ p slot.color = true then 1 else 0 := by
    intro p
    rw [List.countP_singleton]
    unfold givesUp
    rw [hx]
    simp
  by_cases hkeep : keep id = true
  · -- the pair is put back, with the color of a survivor
    refine (siftOne_kept hs hkeep).mono fun _ u hu => ?_
    obtain ⟨rfl, rfl⟩ := hu
    refine ⟨⟨by simp [hcounts, hkeep], by simp [hcounts, hkeep],
      h.enlist (Color.ne_void_of_isLive isLive_survivorColor), rfl, rfl,
      fun j => look_siftOne hx ?_, fun _ hc => hc.enlist, .refl _, rfl⟩, rfl⟩
    have hsifted : siftedSlot c.generation (keep id) { slot with index := 0 } =
        { slot with index := 0, color := survivorColor c.generation slot.color } := if_pos hkeep
    rw [hsifted]
    refine Store.look_enlist.trans ?_
    split
    · exact congrArg (Option.map _) hx
    · rfl
  · -- the pair is given up
    unfold siftOne
    rw [Action.yields_bind, Action.yields_query]
    refine ⟨slot, hs, ?_⟩
    rw [if_neg hkeep, Action.yields_bind]
    refine (recycleSlot_yields hx).mono fun _ u hu => ?_
    rw [hu, Action.yields_pure]
    have hreleases : c.objects.Releases ((c.objects.discard slot.car).discard slot.cdr) :=
      (Objects.Releases.discard _ _).trans (.discard _ _)
    refine ⟨⟨?_, ?_, h.retire, rfl, rfl, fun j => look_siftOne hx ?_,
      fun _ hc => hc.returned h hx, hreleases, rfl⟩, rfl⟩
    · -- a free pair was counted as disposed of before
      by_cases hfree : slot.color = .free <;> simp [hcounts, hkeep, hfree]
    · by_cases hfree : slot.color = .free <;> simp [hcounts, hkeep, hfree]
    have hsifted : siftedSlot c.generation (keep id) { slot with index := 0 } = {} :=
      if_neg hkeep
    rw [hsifted, look_returned]
    split
    · exact congrArg (Option.map _) hx
    · rfl

/-- Loose pairs are gone through one after another. -/
theorem sift_yields (ids : List PairId) (total : Sifted) (h : c.store.Sound ids) :
    (sift keep ids total).Yields ⟨c, es⟩ fun r u => u.events = es ∧
      ∃ s, r = ⟨total.disposed + s.disposed, total.recycled + s.recycled⟩ ∧
        c.Sifting keep ids [] s u.state := by
  induction ids generalizing c total with
  | nil =>
    unfold sift
    rw [Action.yields_pure]
    exact ⟨rfl, {}, rfl, .nil h⟩
  | cons id ids ih =>
    have hid : id ∉ ids := (List.nodup_cons.1 h.loose_nodup).1
    unfold sift
    rw [Action.yields_bind]
    -- the others wait while the first one is gone through
    refine (siftOne_yields h).mono fun one m hm => ?_
    obtain ⟨c₁, es₁⟩ := m
    obtain ⟨hone, rfl⟩ := hm
    refine (ih _ hone.store).mono fun r u hu => ?_
    obtain ⟨hevents, more, rfl, hmore⟩ := hu
    have hfirst : c.Sifting keep [id] (ids ++ []) one c₁ := by
      rw [List.append_nil]
      exact hone
    exact ⟨hevents, _, by simp only [Nat.add_assoc], .cons hid hfirst hmore⟩

/-! ### What is given up, as a set

The loose pairs of a full cycle are all pairs but the void ones, and those to be kept are the
reachable ones. -/

section GivenUp

variable (h : c.Sound) (hkeep : ∀ id, keep id = true ↔ c.graph.Reachable id)
  (hloose : ∀ {j x}, c.look j = some x → (j ∈ ids ↔ x.color ≠ .void)) (hids : ids.Nodup)

include hkeep hloose in
theorem mem_givesUp {p : Color → Bool} : j ∈ ids ∧ c.givesUp keep p j = true ↔
    ∃ x, c.look j = some x ∧ x.color ≠ .void ∧ p x.color = true ∧ ¬c.graph.Reachable j := by
  rw [givesUp, Bool.and_eq_true, Bool.not_eq_true', ← Bool.not_eq_true, hkeep, Option.any_eq_true]
  constructor
  · rintro ⟨hj, hdead, x, hx, hp⟩
    exact ⟨x, hx, (hloose hx).1 hj, hp, hdead⟩
  · rintro ⟨x, hx, hv, hp, hdead⟩
    exact ⟨(hloose hx).2 hv, hdead, x, hx, hp⟩

include hkeep hloose hids

/-- The live pairs given up are those that are not reachable. -/
theorem countP_disposed : ids.countP (c.givesUp keep (· ≠ .free)) =
    {j | c.IsLive j ∧ ¬c.graph.Reachable j}.ncard := by
  rw [countP_eq_ncard hids]
  congr 1
  ext j
  refine (mem_givesUp hkeep hloose).trans ⟨?_, ?_⟩
  · rintro ⟨x, hx, hv, hf, hdead⟩
    exact ⟨⟨x, hx, Color.isLive_iff.2 ⟨hv, of_decide_eq_true hf⟩⟩, hdead⟩
  · rintro ⟨⟨x, hx, hl⟩, hdead⟩
    exact ⟨x, hx, (Color.isLive_iff.1 hl).1, decide_eq_true (Color.isLive_iff.1 hl).2, hdead⟩

include h in
/-- All free pairs are given up: they are not live, so nothing leads to them. -/
theorem Sound.countP_freed : ids.countP (c.givesUp keep (· = .free)) = c.count .free := by
  rw [countP_eq_ncard hids, h.count_eq_ncard]
  congr 1
  ext j
  refine (mem_givesUp hkeep hloose).trans ⟨?_, ?_⟩
  · rintro ⟨x, hx, -, hf, -⟩
    exact ⟨x, hx, of_decide_eq_true hf⟩
  · rintro ⟨x, hx, hf⟩
    refine ⟨x, hx, by rw [hf]; decide, decide_eq_true hf, fun hj => ?_⟩
    exact (Color.isLive_iff.1 (h.isLive_of_look hx hj)).2 hf

end GivenUp

/-! ### The whole cycle -/

theorem isRoot_survivorColor {g : Generation} {d : Color} :
    (survivorColor g d).isRoot = d.isRoot := by
  cases g <;> cases d <;> rfl

/-- What survives a full cycle belongs to the `to` generation. -/
theorem isTo_survivorColor {g : Generation} {d : Color} : g.isTo (survivorColor g d) = true := by
  cases g <;> cases d <;> rfl

/-- `c'` is `c` after a full cycle that disposed of `n` pairs: reachable pairs belong to the `to`
generation, all other slots are blank. -/
structure Cycled (c : Collector) (n : Nat) (c' : Collector) : Prop where
  count : n = {j | c.IsLive j ∧ ¬c.graph.Reachable j}.ncard
  store : c'.store.Sound []
  pageSize_eq : c'.store.arena.pageSize = c.store.arena.pageSize
  maxPages_eq : c'.store.arena.maxPages = c.store.arena.maxPages
  kept : ∀ {j x}, c.look j = some x → c.graph.Reachable j →
    c'.look j = some { x with color := survivorColor .white x.color }
  dropped : ∀ {j x}, c.look j = some x → ¬c.graph.Reachable j → c'.look j = some {}
  absent : ∀ {j}, c.look j = none → c'.look j = none
  balanced : ∀ cells, c.Balanced cells → c'.Balanced cells
  releases : c.objects.Releases c'.objects
  frame : c' = { c with
    store := c'.store
    objects := c'.objects
    generation := .white
    stats := { c.stats with
      fullCycles := c.stats.fullCycles + 1
      pairsDisposed := c.stats.pairsDisposed + n
      pairsRecycled := c.stats.pairsRecycled + (n + c.count .free) } }

/-- Going through all pairs, of which the reachable ones are to be kept, makes a full cycle. -/
theorem Sifting.cycled {cs : Classes} {total : Sifted} (h : c.Sound)
    (hkeep : ∀ id, keep id = true ↔ c.graph.Reachable id)
    (hloose : ∀ {j x}, c.look j = some x → (j ∈ ids ↔ x.color ≠ .void)) (hids : ids.Nodup)
    (hsift : ({ c with store := ⟨c.store.arena, cs⟩, generation := .white } : Collector).Sifting
      keep ids [] total c') :
    c.Cycled total.disposed { c' with stats := { c'.stats with
      fullCycles := c'.stats.fullCycles + 1
      pairsDisposed := c'.stats.pairsDisposed + total.disposed
      pairsRecycled := c'.stats.pairsRecycled + total.recycled } } := by
  have hlook : ∀ j, c'.look j = (c.look j).map fun x =>
      if j ∈ ids then siftedSlot .white (keep j) x else x := hsift.look
  constructor
  case count => exact hsift.disposed.trans (countP_disposed hkeep hloose hids)
  case store => exact hsift.store
  case pageSize_eq => exact hsift.pageSize_eq
  case maxPages_eq => exact hsift.maxPages_eq
  case kept =>
    intro j x hx hj
    -- a reachable pair is live, so it was gone through
    have hmem : j ∈ ids := (hloose hx).2 (Color.ne_void_of_isLive (h.isLive_of_look hx hj))
    change c'.look j = _
    rw [hlook, hx, Option.map_some, if_pos hmem, siftedSlot, if_pos ((hkeep j).2 hj)]
  case dropped =>
    intro j x hx hj
    change c'.look j = _
    rw [hlook, hx, Option.map_some]
    split
    · rw [siftedSlot, if_neg fun hk => hj ((hkeep j).1 hk)]
    · -- a slot that was not loose was void, and so it is blank as it is
      rename_i hmem
      rw [h.store.eq_blank hx (by_contra fun hc => hmem ((hloose hx).2 hc))]
  case absent =>
    intro j hj
    change c'.look j = _
    rw [hlook, hj, Option.map_none]
  case balanced =>
    intro cells hc
    exact hsift.balanced cells (hc.congr rfl fun _ => rfl)
  case releases => exact hsift.releases
  case frame =>
    -- those given up are the ones that died now and the ones that were free
    have hrecycled : total.recycled = total.disposed + c.count .free :=
      hsift.recycled.trans (congrArg _ (h.countP_freed hkeep hloose hids))
    rw [hsift.frame, hrecycled]

/-- A full cycle reports itself, and nothing of what it does to single pairs. -/
theorem Sound.cycle_reports (h : c.Sound) :
    Collector.cycle.Yields ⟨c, es⟩ fun n u => c.Cycled n u.state ∧
      ∃ kept returned, u.events = es.push (.fullCycle kept n returned) := by
  -- the traversal does not fault, and marks the reachable pairs
  obtain ⟨keep, found, hkeepers, hkeep⟩ := h.keepers_spec
  unfold Collector.cycle
  rw [Action.yields_bind, Action.yields_query]
  refine ⟨(keep, found), hkeepers, ?_⟩
  change Action.Yields (gather cycleOrder >>= _) _ _
  rw [Action.yields_bind]
  refine (gather_yields cycleOrder h.store).mono fun ids m hm => ?_
  obtain ⟨cs, rfl, hsound, hmembers⟩ := hm
  rw [List.append_nil] at hsound
  -- all classes but that of `void` are gone through, and that one is always empty
  have hcs : ∀ d, cs.members d = #[] := by
    intro d
    rw [hmembers]
    by_cases hd : d = .void
    · rw [hd, h.store.void_class, ite_self]
    · rw [if_pos]
      revert hd
      cases d <;> decide
  rw [Action.yields_bind]
  unfold resetGeneration
  rw [Action.yields_update, Action.yields_bind]
  refine (sift_yields (c := { c with store := ⟨c.store.arena, cs⟩, generation := .white }) ids {}
    hsound).mono fun sifted u hu => ?_
  obtain ⟨c₁, es₁⟩ := u
  obtain ⟨rfl, total, rfl, hsift⟩ := hu
  rw [Action.yields_bind, yields_tally, Action.yields_bind, Action.yields_report,
    Action.yields_pure]
  simp only [Nat.zero_add]
  exact ⟨hsift.cycled h hkeep (fun hx => mem_gathered h.store hsound hcs hx) hsound.loose_nodup,
    found, total.recycled, rfl⟩

/-- **A full cycle does not fault on a sound collector.** -/
theorem Sound.cycle (h : c.Sound) :
    Collector.cycle.Yields ⟨c, es⟩ fun n u => c.Cycled n u.state :=
  h.cycle_reports.mono fun _ _ hu => hu.1

namespace Cycled

variable (hs : c.Cycled n c')

include hs

theorem generation_eq : c'.generation = .white := by
  rw [hs.frame]

/-- A slot after the cycle was kept, as a live one, or it is blank. -/
theorem look_cases (hy : c'.look j = some y) :
    (y.color.isLive = true ∧ ∃ x, c.look j = some x ∧ c.graph.Reachable j ∧
      y = { x with color := survivorColor .white x.color }) ∨ y = {} := by
  cases hx : c.look j with
  | none =>
    rw [hs.absent hx] at hy
    exact absurd hy (by simp)
  | some x =>
    by_cases hj : c.graph.Reachable j
    · rw [hs.kept hx hj] at hy
      obtain rfl := Option.some.inj hy
      exact .inl ⟨isLive_survivorColor, x, rfl, hj, rfl⟩
    · rw [hs.dropped hx hj] at hy
      exact .inr (Option.some.inj hy).symm

/-- A slot that is live after the cycle was reachable before. -/
theorem look_of_isLive (hy : c'.look j = some y) (hl : y.color.isLive = true) :
    ∃ x, c.look j = some x ∧ c.graph.Reachable j ∧
      y = { x with color := survivorColor .white x.color } := by
  rcases hs.look_cases hy with ⟨-, hkept⟩ | rfl
  · exact hkept
  · exact absurd hl (by decide)

/-- **A full cycle takes away exactly the pairs that are not reachable.** -/
theorem graph_eq_some_iff (h : c.Sound) {m : Node} :
    c'.graph j = some m ↔ c.graph.Reachable j ∧ c.graph j = some m := by
  constructor
  · intro hm
    obtain ⟨y, hy, hl, rfl⟩ := graph_eq_some.1 hm
    obtain ⟨x, hx, hj, rfl⟩ := hs.look_of_isLive hy hl
    have hnode := graph_of_look hx (h.isLive_of_look hx hj)
    exact ⟨hj, hnode⟩
  · rintro ⟨hj, hm⟩
    obtain ⟨x, hx, -, rfl⟩ := graph_eq_some.1 hm
    have hnode := graph_of_look (hs.kept hx hj) isLive_survivorColor
    exact hnode

theorem trims (h : c.Sound) : c.graph.Trims c'.graph where
  old := fun hm => ((hs.graph_eq_some_iff h).1 hm).2
  kept := by
    intro j hj
    obtain ⟨m, hm⟩ := hj.exists_node h.graph_closed
    rw [hm]
    exact (hs.graph_eq_some_iff h).2 ⟨hj, hm⟩

/-- **A full cycle keeps the invariant.** The pairs that are left are reachable, so what they hold
is left too, and no pair is in the `from` generation. -/
theorem sound (h : c.Sound) : c'.Sound where
  store := hs.store
  pageSize_eq := by
    rw [hs.pageSize_eq, h.pageSize_eq, hs.frame]
  maxPages_eq := by
    rw [hs.maxPages_eq, h.maxPages_eq, hs.frame]
  rooted := by
    intro j y hy
    rcases hs.look_cases hy with ⟨-, x, hx, -, rfl⟩ | rfl
    · rw [← h.rooted hx]
      exact Bool.eq_iff_iff.1 isRoot_survivorColor
    · decide
  closed := by
    intro j y child hy hl hchild
    obtain ⟨x, hx, hj, rfl⟩ := hs.look_of_isLive hy hl
    -- what a reachable pair holds is reachable, so it was kept, too
    have hnode := graph_of_look hx (h.isLive_of_look hx hj)
    have hreach : c.graph.Reachable child := .edge hj hnode hchild
    obtain ⟨m, hm⟩ := hreach.exists_node h.graph_closed
    exact isLive_iff.2 ⟨m, (hs.graph_eq_some_iff h).2 ⟨hreach, hm⟩⟩
  tricolor := by
    -- whoever holds it, a live pair is in the `to` generation now
    intro j y child z _ _ _ hz
    rw [hs.generation_eq]
    rw [← Bool.not_eq_true]
    intro hfrom
    obtain ⟨w, -, -, rfl⟩ := hs.look_of_isLive hz (Generation.isLive_of_isFrom hfrom)
    rw [Generation.isFrom_eq_false_of_isTo isTo_survivorColor] at hfrom
    exact absurd hfrom (by decide)

end Cycled

end Collector

end ConsHeap
