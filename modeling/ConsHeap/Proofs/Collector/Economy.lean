import ConsHeap.Proofs.Collector.Checks
import ConsHeap.Proofs.Collector.Exactness

/-!
# The work that events pay for is enough

However long a program runs, its heap stays small as long as few pairs are reachable at a time, even
if every event pays for one step of marking and one of recycling only
(`Collector.Sparse.totalSlots_lt`).

Look at one generation, from a swap to the next one. What the first swap leaves is garbage `D`,
which waits for the second, and `k` pairs that are reachable. After that `m` pairs are made. Each of
them pays for a scan when it is made and for another one when its last root goes, so `2 * m` is at
most the number of scanned pairs and of rooted ones (`Ledger.paid`). But no pair is scanned twice,
and `D` is not scanned at all, so that `m` cannot be much larger than `k`. Hence the second swap
leaves few pairs, which bounds the garbage of the next generation (`Ledger.dead`), and with it all
pairs in use (`Ledger.live_le`).

An allocation recycles before it takes a slot, so that a page is only added when all slots are in
use (`Sound.totalSlots_le_live`).
-/

namespace ConsHeap

theorem Graph.ncard_rooted_le (G : Graph) :
    {j | 0 < G.roots j}.ncard ≤ {j | G.Reachable j}.ncard :=
  Set.ncard_le_ncard fun _ hj => reachable_of_roots hj

/-- Taking away unreachable pairs does not change how many are reachable. -/
theorem Graph.Trims.ncard_eq {G G' : Graph} (h : G.Trims G') :
    {j | G'.Reachable j}.ncard = {j | G.Reachable j}.ncard := by
  simp only [h.reachable_iff]

theorem Generation.isTo_fromRoot {g : Generation} : g.isTo g.fromRoot = false := by
  cases g <;> rfl

namespace Collector

variable {c c' c₀ c₁ c₂ : Collector} {id j : PairId} {x y : Slot} {op : Op} {reply : Reply}
  {kids : List PairId} {o : Options} {L d k m n : Nat} {D : PairId → Prop} {es es' : Array Event}

/-! ### The number of slots -/

theorem Beat.totalSlots_eq (hb : Beat c c') (h : c.Sound) : c'.totalSlots = c.totalSlots := by
  cases hb with
  | scan hs => exact hs.store.layout.totalSlots_eq
  | swap hs => exact hs.store.layout.totalSlots_eq
  | recycle hs =>
    unfold totalSlots
    rw [hs.arena]
    exact Arena.totalSlots_modify
  | cycle hs =>
    -- of a full cycle it is known which slots exist, so these are counted
    rw [(hs.sound h).totalSlots_eq_ncard, h.totalSlots_eq_ncard]
    simp only [hs.index_lt_iff]

/-- The collector's own work adds no page. -/
theorem Upkeep.totalSlots_eq (hu : c.Upkeep c') (h : c.Sound) : c'.totalSlots = c.totalSlots := by
  induction hu with
  | refl => rfl
  | tail hu hb ih => exact (hb.totalSlots_eq (Upkeep.sound hu h)).trans ih

/-- An edit adds a page only for a slot that did not exist. -/
theorem Edited.totalSlots_cases (he : c.Edited id y kids c') :
    c'.totalSlots = c.totalSlots ∨ (c.look id = none ∧ c.store.arena.voidSlots = [] ∧
      c'.totalSlots = c.totalSlots + c.store.arena.pageSize) := by
  obtain ⟨s, hs, hp⟩ := he.slots
  have htotal : c'.totalSlots = s.arena.totalSlots := hp.layout.totalSlots_eq
  rw [htotal]
  exact hs.pages

/-- **Only an allocation adds a page**, and only when no slot is vacant. -/
theorem Edit.totalSlots_cases (he : Edit c op reply c') :
    c'.totalSlots = c.totalSlots ∨ ((∃ car cdr, op = .make car cdr) ∧
      c.store.arena.voidSlots = [] ∧ c'.totalSlots = c.totalSlots + c.store.arena.pageSize) := by
  have hpresent : ∀ {id x y kids}, c.look id = some x → c.Edited id y kids c' →
      c'.totalSlots = c.totalSlots := by
    intro id x y kids hx hs
    rcases hs.totalSlots_cases with hsame | ⟨hnone, -⟩
    · exact hsame
    · exact absurd (hx.symm.trans hnone) nofun
  cases he with
  | work => exact .inl rfl
  | refused => exact .inl rfl
  | made _ _ hs =>
    -- the one edit whose slot may be new
    rcases hs.totalSlots_cases with hsame | ⟨-, hvoid, hgrown⟩
    · exact .inl hsame
    · exact .inr ⟨⟨_, _, rfl⟩, hvoid, hgrown⟩
  | rooted _ hx _ hs => exact .inl (hpresent hx hs)
  | retained _ hx _ hs => exact .inl (hpresent hx hs)
  | unrooted hx _ hs => exact .inl (hpresent hx hs)
  | written hx _ hs => exact .inl (hpresent hx hs)

/-- When no slot is vacant and no pair waits to be recycled, all slots are in use. -/
theorem Sound.totalSlots_le_live (h : c.Sound) (hvoid : c.store.arena.voidSlots = [])
    (hstocked : c.Stocked) : c.totalSlots ≤ {j | c.IsLive j}.ncard := by
  have hfree : ∀ j x, c.look j = some x → x.color ≠ .free :=
    hstocked.resolve_left fun hne => hne hvoid
  rw [h.totalSlots_eq_ncard]
  -- no slot is free, and a void one would be vacant
  refine Set.ncard_le_ncard fun j hj => ?_
  obtain ⟨s, hs⟩ := Option.isSome_iff_exists.1 (Arena.slot?_isSome.2 hj)
  have hx := Store.look_of_slot? hs
  refine ⟨_, hx, Color.isLive_iff.2 ⟨fun hcolor => ?_, hfree j _ hx⟩⟩
  have hvacant := h.store.mem_voidSlots.2 ⟨_, hx, hcolor⟩
  rw [hvoid] at hvacant
  exact List.not_mem_nil hvacant

/-! ### Accounts -/

/-- Whether a pair was scanned in the current generation. -/
def IsScanned (c : Collector) (j : PairId) : Prop :=
  ∃ x, c.look j = some x ∧ c.generation.isTo x.color = true

theorem isScanned_iff_of_look (hx : c.look j = some x) :
    c.IsScanned j ↔ c.generation.isTo x.color = true := by
  refine ⟨fun hscanned => ?_, fun hto => ⟨x, hx, hto⟩⟩
  obtain ⟨y, hy, hto⟩ := hscanned
  obtain rfl := Option.some.inj (hx.symm.trans hy)
  exact hto

/-- The accounts of a generation: the garbage `D` waits for the next swap, `k` pairs were reachable
when the generation began, and `m` pairs have been made since. At most `L` pairs are reachable at a
time, and `d` units of marking are still due. -/
structure Ledger (c : Collector) (L d : Nat) (D : PairId → Prop) (k m : Nat) : Prop where
  shuns : c.graph.Shuns D
  inFrom : c.InFrom D
  others : {j | c.IsLive j ∧ ¬D j}.ncard ≤ k + m
  first : k ≤ L
  dead : {j | D j}.ncard + k ≤ 3 * L + 1
  /-- A pair that was made has paid for two scans, or it is still rooted and has paid for one. -/
  paid : 2 * m ≤ {j | c.IsScanned j}.ncard + {j | 0 < c.graph.roots j}.ncard + d

/-- The accounts are in order, up to `d` units of marking. -/
def Solvent (c : Collector) (L d : Nat) : Prop :=
  ∃ D k m, c.Ledger L d D k m

namespace Ledger

/-- What was scanned is live and does not have the `from` color. -/
theorem scanned_le (hl : c.Ledger L d D k m) : {j | c.IsScanned j}.ncard ≤ k + m := by
  refine le_trans (Set.ncard_le_ncard fun j hj => ?_) hl.others
  obtain ⟨x, hx, hto⟩ := hj
  refine ⟨⟨x, hx, Generation.isLive_of_isTo hto⟩, fun hD => ?_⟩
  -- the garbage that waits has kept the color it had before the scans
  have hfrom := Generation.isFrom_eq_false_of_isTo hto
  rw [hl.inFrom j x hD hx, Generation.isFrom_fromColor] at hfrom
  exact absurd hfrom (by decide)

theorem mono (hl : c.Ledger L d D k m) (hd : d ≤ n) : c.Ledger L n D k m :=
  ⟨hl.shuns, hl.inFrom, hl.others, hl.first, hl.dead, hl.paid.trans (Nat.add_le_add_left hd _)⟩

/-- **Few pairs can have been made** since the generation began: they have paid for scans, and all
that was scanned is among them and the `k` pairs of the beginning. -/
theorem made_le (hl : c.Ledger L d D k m) (hfew : {j | c.graph.Reachable j}.ncard ≤ L) :
    m ≤ k + L + d := by
  have hrooted : {j | 0 < c.graph.roots j}.ncard ≤ L := c.graph.ncard_rooted_le.trans hfew
  have htwice : 2 * m ≤ k + m + L + d := by
    calc 2 * m ≤ {j | c.IsScanned j}.ncard + {j | 0 < c.graph.roots j}.ncard + d := hl.paid
      _ ≤ k + m + L + d := Nat.add_le_add_right (Nat.add_le_add hl.scanned_le hrooted) d
  omega

/-- What the next swap may leave. -/
theorem others_le (hl : c.Ledger L d D k m) (hfew : {j | c.graph.Reachable j}.ncard ≤ L) :
    k + m ≤ 3 * L + d := by
  have hfirst := hl.first
  have hmade := hl.made_le hfew
  omega

/-- **Few pairs are in use**: those that wait for the next swap, and those that do not. -/
theorem live_le (hl : c.Ledger L d D k m) (hfew : {j | c.graph.Reachable j}.ncard ≤ L) :
    {j | c.IsLive j}.ncard ≤ 5 * L + d + 1 := by
  have hsplit : {j | c.IsLive j}.ncard ≤ {j | D j}.ncard + {j | c.IsLive j ∧ ¬D j}.ncard := by
    refine le_trans (Set.ncard_le_ncard fun j hj => ?_) (Set.ncard_union_le _ _)
    by_cases hD : D j
    · exact .inl hD
    · exact .inr ⟨hj, hD⟩
  have hfirst := hl.first
  have hmade := hl.made_le hfew
  calc {j | c.IsLive j}.ncard ≤ {j | D j}.ncard + {j | c.IsLive j ∧ ¬D j}.ncard := hsplit
    _ ≤ {j | D j}.ncard + (k + m) := Nat.add_le_add_left hl.others _
    _ = ({j | D j}.ncard + k) + m := (Nat.add_assoc _ _ _).symm
    _ ≤ (3 * L + 1) + m := Nat.add_le_add_right hl.dead m
    _ ≤ 5 * L + d + 1 := by omega

end Ledger

/-! ### Beats -/

theorem Scanned.isScanned_iff {target : Color} (hs : c.Scanned id x target c') :
    c'.IsScanned j ↔ j = id ∨ c.IsScanned j := by
  obtain ⟨-, -, htarget, -, -⟩ := of_mem_scanOrder hs.order
  unfold IsScanned
  rw [hs.generation_eq]
  refine (hs.store.exists_color (c.generation.isTo · = true)).trans ?_
  simp only [Generation.isTo_afterScan htarget, and_or_left, exists_or]
  -- the scanned pair is there
  refine or_congr_left ⟨fun ⟨_, _, hj⟩ => hj, ?_⟩
  rintro rfl
  exact ⟨x, hs.look_eq, rfl⟩

/-- What is scanned was not scanned before. -/
theorem Scanned.not_isScanned {target : Color} (hs : c.Scanned id x target c') :
    ¬c.IsScanned id := by
  obtain ⟨-, hsource, -⟩ := of_mem_scanOrder hs.order
  rw [isScanned_iff_of_look hs.look_eq, hsource]
  exact Bool.false_ne_true

/-- **A scan pays.** -/
theorem Scanned.ledger {target : Color} (hs : c.Scanned id x target c')
    (hl : c.Ledger L (d + 1) D k m) : c'.Ledger L d D k m where
  shuns := hs.graph_eq ▸ hl.shuns
  inFrom := hs.inFrom hl.shuns hl.inFrom
  others := by
    simp only [hs.isLive_iff]
    exact hl.others
  first := hl.first
  dead := hl.dead
  paid := by
    -- there is one more scanned pair
    have hnot : id ∉ {j | c.IsScanned j} := hs.not_isScanned
    have hscanned : {j | c'.IsScanned j} = insert id {j | c.IsScanned j} := by
      ext j
      exact hs.isScanned_iff
    have hpaid := hl.paid
    rw [hscanned, Set.ncard_insert_of_notMem hnot, hs.graph_eq]
    omega

theorem Recycled.ledger (hs : c.Recycled id x c') (hl : c.Ledger L d D k m) :
    c'.Ledger L d D k m where
  shuns := hs.graph_eq ▸ hl.shuns
  inFrom := hs.inFrom hl.shuns hl.inFrom
  others := by
    simp only [hs.isLive_iff]
    exact hl.others
  first := hl.first
  dead := hl.dead
  paid := by
    -- the slot that is blanked was free, and free slots do not count as scanned
    have hsame : ∀ j, c.IsScanned j → c'.IsScanned j := by
      rintro j ⟨y, hy, hto⟩
      have hgen : c'.generation = c.generation := by rw [hs.frame]
      exact ⟨y, hs.look_of_isLive hy (Generation.isLive_of_isTo hto), hgen ▸ hto⟩
    have hscanned : {j | c.IsScanned j}.ncard ≤ {j | c'.IsScanned j}.ncard :=
      Set.ncard_le_ncard hsame
    have hpaid := hl.paid
    rw [hs.graph_eq]
    omega

/-- The accounts of a new generation. -/
theorem Solvent.fresh (hfew : {j | c.graph.Reachable j}.ncard ≤ L)
    (hlive : {j | c.IsLive j}.ncard ≤ 3 * L + 1)
    (hin : c.InFrom fun j => (∃ n, c.graph j = some n) ∧ ¬c.graph.Reachable j) (h : c.Sound) :
    c.Solvent L 0 := by
  refine ⟨_, {j | c.graph.Reachable j}.ncard, 0, c.graph.shuns_unreachable, hin, ?_, hfew, ?_,
    Nat.zero_le _⟩
  · -- what is in use and no garbage is reachable
    refine Set.ncard_le_ncard fun j hj => ?_
    by_contra hdead
    exact hj.2 ⟨isLive_iff.1 hj.1, hdead⟩
  · -- garbage and reachable pairs together are in use
    rw [← Set.ncard_union_eq (Set.disjoint_left.2 fun j hj hreach => hj.2 hreach)]
    refine le_trans (Set.ncard_le_ncard fun j hj => ?_) hlive
    rcases hj with hj | hj
    · exact isLive_iff.2 hj.1
    · exact h.isLive_of_reachable hj

/-- **A swap closes the accounts of a generation.** -/
theorem Swapped.solvent (hs : c.Swapped n c') (h : c.Sound)
    (hfew : {j | c.graph.Reachable j}.ncard ≤ L) (hl : c.Solvent L d) (hd : d ≤ 1) :
    c'.Solvent L 0 := by
  obtain ⟨D, k, m, hl⟩ := hl
  refine .fresh ((hs.trims h).ncard_eq.trans_le hfew) ?_ (hs.inFrom h) (hs.sound h)
  -- the garbage that has waited is gone, and what is left was counted with the other pairs
  have hold : ∀ j, c'.IsLive j → c.IsLive j ∧ ¬D j := by
    intro j hj
    obtain ⟨node, hnode⟩ := isLive_iff.1 hj
    exact ⟨isLive_iff.2 ⟨node, (hs.trims h).old hnode⟩,
      fun hD => hs.not_isLive hl.shuns hl.inFrom hD hj⟩
  calc {j | c'.IsLive j}.ncard ≤ {j | c.IsLive j ∧ ¬D j}.ncard := Set.ncard_le_ncard hold
    _ ≤ k + m := hl.others
    _ ≤ 3 * L + d := hl.others_le hfew
    _ ≤ 3 * L + 1 := Nat.add_le_add_left hd _

theorem Cycled.solvent (hs : c.Cycled n c') (h : c.Sound)
    (hfew : {j | c.graph.Reachable j}.ncard ≤ L) : c'.Solvent L 0 := by
  have hreach : ∀ j, c'.IsLive j ↔ c'.graph.Reachable j := by
    intro j
    rw [hs.isLive_iff h, (hs.trims h).reachable_iff]
  have hfew' : {j | c'.graph.Reachable j}.ncard ≤ L := (hs.trims h).ncard_eq.trans_le hfew
  -- no garbage is left that could wait
  refine .fresh hfew' ?_ (fun j y hj => ?_) (hs.sound h)
  · simp only [hreach]
    omega
  · exact absurd ((hreach j).1 (Collector.isLive_iff.2 hj.1)) hj.2

/-- One unit of marking pays for what was not paid for yet. -/
theorem Mark.solvent (hm : Mark c c') (h : c.Sound) (hfew : {j | c.graph.Reachable j}.ncard ≤ L)
    (hl : c.Solvent L 1) : c'.Solvent L 0 := by
  cases hm with
  | scan hs =>
    obtain ⟨D, k, m, hl⟩ := hl
    exact ⟨D, k, m, hs.ledger hl⟩
  | swap hs => exact hs.solvent h hfew hl (Nat.le_refl 1)

theorem Beat.solvent (hb : Beat c c') (h : c.Sound)
    (hfew : {j | c.graph.Reachable j}.ncard ≤ L) (hl : c.Solvent L 0) : c'.Solvent L 0 := by
  have hone : c.Solvent L 1 := by
    obtain ⟨D, k, m, hl⟩ := hl
    exact ⟨D, k, m, hl.mono (Nat.zero_le 1)⟩
  cases hb with
  | scan hs => exact (Mark.scan hs).solvent h hfew hone
  | swap hs => exact (Mark.swap hs).solvent h hfew hone
  | recycle hs =>
    obtain ⟨D, k, m, hl⟩ := hl
    exact ⟨D, k, m, hs.ledger hl⟩
  | cycle hs => exact hs.solvent h hfew

theorem Recycling.solvent (hr : c.Recycling c') (hl : c.Solvent L d) : c'.Solvent L d := by
  induction hr with
  | refl => exact hl
  | tail _ hs ih =>
    -- a recycled slot is neither in use nor scanned, so the accounts are as they were
    obtain ⟨_, _, hs⟩ := hs
    obtain ⟨D, k, m, hl⟩ := ih
    exact ⟨D, k, m, hs.ledger hl⟩

theorem Upkeep.solvent (hu : c.Upkeep c') (h : c.Sound)
    (hfew : {j | c.graph.Reachable j}.ncard ≤ L) (hl : c.Solvent L 0) : c'.Solvent L 0 := by
  induction hu with
  | refl => exact hl
  | tail hu hb ih =>
    exact hb.solvent (Upkeep.sound hu h) ((Upkeep.trims hu h).ncard_eq.trans_le hfew) ih

/-! ### Edits -/

theorem Edited.isLive_iff (he : c.Edited id y kids c') : c'.IsLive j ↔ j = id ∨ c.IsLive j := by
  rw [Collector.isLive_iff, Collector.isLive_iff, he.graph_eq]
  by_cases hj : j = id
  · rw [hj, Graph.insert_self]
    exact iff_of_true ⟨_, rfl⟩ (.inl rfl)
  · rw [Graph.insert_ne hj]
    exact ⟨.inr, fun hlive => hlive.resolve_left hj⟩

theorem Edited.roots_eq (he : c.Edited id y kids c') (j : PairId) :
    c'.graph.roots j = if j = id then y.rootCount else c.graph.roots j := by
  rw [he.graph_eq, Graph.roots_insert]
  rfl

/-- An edit that leaves a pair in its generation scans nothing, whatever it greys. -/
theorem Edited.isScanned_iff (he : c.Edited id y kids c')
    (hto : c.generation.isTo y.color = true ↔ c.IsScanned id) :
    c'.IsScanned j ↔ c.IsScanned j := by
  constructor
  · rintro ⟨z, hz, hzto⟩
    rw [he.generation_eq] at hzto
    -- what was greyed was not scanned, and is not
    rcases he.look_of_isLive hz (Generation.isLive_of_isTo hzto) with
      ⟨rfl, rfl⟩ | ⟨-, x, hx, -, rfl⟩
    · exact hto.1 (Generation.isTo_shade.symm.trans hzto)
    · exact ⟨x, hx, Generation.isTo_shade.symm.trans hzto⟩
  · rintro ⟨x, hx, hxto⟩
    unfold IsScanned
    rw [he.generation_eq]
    by_cases hj : j = id
    · subst hj
      exact ⟨_, he.look_self, Generation.isTo_shade.trans (hto.2 ⟨x, hx, hxto⟩)⟩
    · exact ⟨_, he.look_other hj hx, Generation.isTo_shade.trans hxto⟩

/-- How the pairs in use and the rooted ones change, and how much marking is due for it. -/
inductive Turnover (c c' : Collector) : Nat → Prop where
  | steady (live : ∀ j, c'.IsLive j ↔ c.IsLive j)
    (rooted : ∀ j, 0 < c.graph.roots j → 0 < c'.graph.roots j) : Turnover c c' 0
  | released {id : PairId} (live : ∀ j, c'.IsLive j ↔ c.IsLive j)
    (rooted : ∀ j, 0 < c.graph.roots j → j = id ∨ 0 < c'.graph.roots j) : Turnover c c' 1
  | gained {id : PairId} (vacant : ¬c.IsLive id) (live : ∀ j, c'.IsLive j ↔ j = id ∨ c.IsLive j)
    (rooted : ∀ j, j = id ∨ 0 < c.graph.roots j → 0 < c'.graph.roots j) : Turnover c c' 1

/-- A pair in use that is edited stays in use, and nothing else comes or goes. -/
theorem Edited.live_iff (he : c.Edited id y kids c') (hx : c.look id = some x)
    (hl : x.color.isLive = true) (j : PairId) : c'.IsLive j ↔ c.IsLive j := by
  rw [he.isLive_iff]
  constructor
  · rintro (rfl | hj)
    · exact ⟨x, hx, hl⟩
    · exact hj
  · exact .inr

/-- A pair in use that does not lose its last root. -/
theorem Turnover.of_edited (he : c.Edited id y kids c') (hx : c.look id = some x)
    (hl : x.color.isLive = true) (hroots : 0 < x.rootCount → 0 < y.rootCount) :
    Turnover c c' 0 := by
  refine .steady (he.live_iff hx hl) fun j hj => ?_
  rw [he.roots_eq]
  split
  · rename_i hid
    rw [hid, Graph.roots_of_node (graph_of_look hx hl)] at hj
    exact hroots hj
  · exact hj

/-- **Only an allocation and a release of a root must be paid for**, and these are operations that
pay. -/
theorem Edit.turnover (he : Edit c op reply c') : Turnover c c' 0 ∨
    op.pays = true ∧ (∀ e, reply ≠ .failed e) ∧ Turnover c c' 1 := by
  cases he with
  | work => exact .inl (.steady (fun _ => Iff.rfl) fun _ hj => hj)
  | refused => exact .inl (.steady (fun _ => Iff.rfl) fun _ hj => hj)
  | made vacant _ hs =>
    -- a pair comes into use, with a root
    refine .inr ⟨rfl, nofun, .gained vacant (fun _ => hs.isLive_iff) fun j hj => ?_⟩
    rw [hs.roots_eq]
    split
    · exact Nat.one_pos
    · rename_i hid
      exact hj.resolve_left hid
  | rooted _ hx hb hs =>
    -- roots that are gained only help
    exact .inl (.of_edited hs hx (Color.isLive_of_isBulk hb) fun _ => Nat.one_pos)
  | retained _ hx hr hs =>
    exact .inl (.of_edited hs hx (Color.isLive_of_isRoot hr) fun _ => Nat.succ_pos _)
  | @unrooted id x _ hx hr hs =>
    -- the pair may have lost its last root
    have hrooted : ∀ j, 0 < c.graph.roots j → j = id ∨ 0 < c'.graph.roots j := by
      intro j hj
      rw [hs.roots_eq]
      by_cases hid : j = id
      · exact .inl hid
      · rw [if_neg hid]
        exact .inr hj
    exact .inr ⟨rfl, nofun, .released (hs.live_iff hx (Color.isLive_of_isRoot hr)) hrooted⟩
  | @written id side value x _ hx hl hs =>
    refine .inl (.of_edited hs hx hl fun hroots => ?_)
    cases side <;> exact hroots

/-- The change of an operation scans nothing. -/
theorem Edit.isScanned_iff (he : Edit c op reply c') (h : c.Sound) :
    c'.IsScanned j ↔ c.IsScanned j := by
  have hof : ∀ {id x y kids}, c.look id = some x → c.Edited id y kids c' →
      c.generation.isTo y.color = c.generation.isTo x.color →
        (c'.IsScanned j ↔ c.IsScanned j) := by
    intro id x y kids hx hs hto
    refine hs.isScanned_iff ?_
    unfold IsScanned
    rw [hto, hx]
    simp
  cases he with
  | work => exact Iff.rfl
  | refused => exact Iff.rfl
  | @made car cdr id _ vacant _ hs =>
    -- a new pair is in the `from` generation
    refine hs.isScanned_iff (iff_of_false ?_ ?_)
    · change ¬c.generation.isTo c.generation.fromRoot = true
      rw [Generation.isTo_fromRoot]
      decide
    · rintro ⟨x, hx, hto⟩
      exact vacant ⟨x, hx, Generation.isLive_of_isTo hto⟩
  | rooted _ hx hb hs => exact hof hx hs (toRoot_spec hb).2.2.1
  | retained _ hx _ hs => exact hof hx hs rfl
  | unrooted hx hr hs => exact hof hx hs (unrootedColor_spec hr ((h.rooted hx).1 hr)).2.1
  | @written id side value x _ hx _ hs =>
    refine hof hx hs ?_
    cases side <;> rfl

theorem Ledger.turnover (hl : c.Ledger L d D k m) (h : c.Sound) (ht : Turnover c c' n)
    (hshuns : c'.graph.Shuns D) (hin : c'.InFrom D)
    (hscanned : ∀ j, c'.IsScanned j ↔ c.IsScanned j) : c'.Solvent L (d + n) := by
  have hpaid := hl.paid
  have hothers := hl.others
  cases ht with
  | steady live rooted =>
    have hrooted : {j | 0 < c.graph.roots j}.ncard ≤ {j | 0 < c'.graph.roots j}.ncard :=
      Set.ncard_le_ncard rooted
    refine ⟨D, k, m, hshuns, hin, ?_, hl.first, hl.dead, ?_⟩
    · simp only [live]
      exact hothers
    · simp only [hscanned]
      omega
  | @released id live rooted =>
    -- the pair that lost its last root has yet to pay for its second scan
    have hrooted : {j | 0 < c.graph.roots j}.ncard ≤ {j | 0 < c'.graph.roots j}.ncard + 1 :=
      le_trans (Set.ncard_le_ncard rooted) (Set.ncard_insert_le id _)
    refine ⟨D, k, m, hshuns, hin, ?_, hl.first, hl.dead, ?_⟩
    · simp only [live]
      exact hothers
    · simp only [hscanned]
      omega
  | @gained id vacant live rooted =>
    -- two more scans are to be paid: the root stands for one of them, and the other is due
    have hnew : {j | c'.IsLive j ∧ ¬D j}.ncard ≤ {j | c.IsLive j ∧ ¬D j}.ncard + 1 := by
      refine le_trans (Set.ncard_le_ncard fun j hj => ?_) (Set.ncard_insert_le id _)
      exact ((live j).1 hj.1).imp_right fun hold => ⟨hold, hj.2⟩
    have hnot : id ∉ {j | 0 < c.graph.roots j} := by
      intro hroots
      exact vacant (h.isLive_of_reachable (Graph.reachable_of_roots hroots))
    have hrooted : {j | 0 < c.graph.roots j}.ncard + 1 ≤ {j | 0 < c'.graph.roots j}.ncard := by
      rw [← Set.ncard_insert_of_notMem hnot]
      exact Set.ncard_le_ncard rooted
    refine ⟨D, k, m + 1, hshuns, hin, by omega, hl.first, hl.dead, ?_⟩
    simp only [hscanned]
    omega

/-! ### Operations -/

/-- **The accounts are in order after an operation on reachable pairs.** What its change makes due
is paid for by the first unit of marking after it. -/
theorem Performs.solvent (hp : c.Performs op reply c') (h : c.Sound)
    (hsteps : 0 < c.options.garbageSteps) (hids : ∀ id ∈ op.ids, c.graph.Reachable id)
    (hfew : {j | c'.graph.Reachable j}.ncard ≤ L) (hl : c.Solvent L 0) : c'.Solvent L 0 := by
  obtain ⟨c₁, c₂, hrec, hedit, hup, hpaid⟩ := hp
  have h₁ : c₁.Sound := hrec.upkeep.sound h
  have h₂ : c₂.Sound := hedit.sound h₁
  obtain ⟨D, k, m, hl₁⟩ := hrec.solvent hl
  have hids₁ : ∀ id ∈ op.ids, c₁.graph.Reachable id := hrec.graph_eq ▸ hids
  have hwaits : c₂.graph.Shuns D ∧ c₂.InFrom D :=
    hedit.on_reachable (P := fun c => c.graph.Shuns D ∧ c.InFrom D) hids₁
      (fun _ => ⟨hl₁.shuns, hl₁.inFrom⟩) fun hs hid hkids =>
        ⟨hs.shuns hid hkids hl₁.shuns, hs.inFrom hid hkids hl₁.shuns hl₁.inFrom⟩
  have hfew₂ : {j | c₂.graph.Reachable j}.ncard ≤ L := (hup.trims h₂).ncard_eq.symm.trans_le hfew
  rcases hedit.turnover with hturn | ⟨hpays, hmade, hturn⟩
  · -- nothing is due, and upkeep never makes the accounts worse
    have hdue : c₂.Solvent L 0 :=
      hl₁.turnover h₁ hturn hwaits.1 hwaits.2 fun _ => hedit.isScanned_iff h₁
    exact hup.solvent h₂ hfew₂ hdue
  · -- one unit is due, and the event has paid for one at least
    have hdue : c₂.Solvent L 1 :=
      hl₁.turnover h₁ hturn hwaits.1 hwaits.2 fun _ => hedit.isScanned_iff h₁
    have hoptions : c₂.options = c.options := by
      rw [hedit.frame]
      exact hrec.upkeep.options_eq
    obtain ⟨c₃, hmark, hrest⟩ := (hpaid.marking hpays hmade).first (hoptions ▸ hsteps)
    have h₃ : c₃.Sound := hmark.beat.sound h₂
    have hfew₃ : {j | c₃.graph.Reachable j}.ncard ≤ L :=
      ((Upkeep.single hmark.beat).trims h₂).ncard_eq.trans_le hfew₂
    exact hrest.solvent h₃ hfew₃ (hmark.solvent h₂ hfew₂ hdue)

/-- **A page is added only when all slots are in use**, since recycling comes first. -/
theorem Performs.totalSlots_bounded (hp : c.Performs op reply c') (h : c.Sound)
    (hsteps : 0 < c.options.recycleSteps) (hfew : {j | c.graph.Reachable j}.ncard ≤ L)
    (hl : c.Solvent L 0) (hsize : c.totalSlots < 5 * L + c.options.pageSize + 2) :
    c'.totalSlots < 5 * L + c.options.pageSize + 2 := by
  obtain ⟨c₁, c₂, hrec, hedit, hup, hpaid⟩ := hp
  have h₁ : c₁.Sound := hrec.upkeep.sound h
  rw [hup.totalSlots_eq (hedit.sound h₁)]
  rcases hedit.totalSlots_cases with hsame | ⟨⟨car, cdr, hop⟩, hvoid, hgrown⟩
  · rw [hsame, hrec.upkeep.totalSlots_eq h]
    exact hsize
  · -- recycling came first, so all slots are in use, and of these there are few
    obtain ⟨D, k, m, hl₁⟩ := hrec.solvent hl
    have hlive := hl₁.live_le (hrec.graph_eq ▸ hfew)
    have hfull := h₁.totalSlots_le_live hvoid (hpaid.recycling hop hsteps)
    have hpage : c₁.store.arena.pageSize = c.options.pageSize := by
      rw [h₁.pageSize_eq, hrec.upkeep.options_eq]
    omega

/-! ### Runs -/

/-- `c` is reached from `c₀` by operations on reachable pairs, each of which does the work that its
event pays for, and after each of which at most `L` pairs are reachable. -/
inductive Sparse (L : Nat) (c₀ : Collector) : Collector → Prop where
  | start : Sparse L c₀ c₀
  | perform {c c' : Collector} {op : Op} {reply : Reply} {es es' : Array Event}
    (run : Sparse L c₀ c) (done : Collector.perform op ⟨c, es⟩ = .ok reply ⟨c', es'⟩)
    (reachable : ∀ id ∈ op.ids, c.graph.Reachable id)
    (few : {j | c'.graph.Reachable j}.ncard ≤ L) : Sparse L c₀ c'

theorem Sparse.sound (run : Sparse L c₀ c) (h : c₀.Sound) : c.Sound := by
  induction run with
  | start => exact h
  | perform _ done _ _ ih => exact (ih.performs_of_ok done).sound ih

/-- What holds along such a run: the options stay, few pairs are reachable, the accounts are in
order, and the heap is small. -/
structure Modest (c : Collector) (L : Nat) (o : Options) : Prop where
  sound : c.Sound
  options_eq : c.options = o
  few : {j | c.graph.Reachable j}.ncard ≤ L
  solvent : c.Solvent L 0
  size : c.totalSlots < 5 * L + o.pageSize + 2

theorem Modest.create (created : Collector.create o = .ok c) : c.Modest L o := by
  obtain ⟨hsize, hoptions⟩ := totalSlots_of_create created
  have h : c.Sound := .create created
  have hdead := not_isLive_of_create created
  have hfew : {j | c.graph.Reachable j}.ncard ≤ L := by
    have hnone : {j | c.graph.Reachable j} = ∅ :=
      Set.eq_empty_of_forall_notMem fun j hj => hdead j (h.isLive_of_reachable hj)
    rw [hnone, Set.ncard_empty]
    exact Nat.zero_le L
  refine ⟨h, hoptions, hfew, .fresh hfew ?_ (fun j _ hj => ?_) h, by omega⟩
  · have hnone : {j | c.IsLive j} = ∅ := Set.eq_empty_of_forall_notMem hdead
    rw [hnone, Set.ncard_empty]
    exact Nat.zero_le _
  · exact absurd (isLive_iff.2 hj.1) (hdead j)

theorem Modest.perform (h : c.Modest L o) (hgarbage : 0 < o.garbageSteps)
    (hrecycle : 0 < o.recycleSteps)
    (done : Collector.perform op ⟨c, es⟩ = .ok reply ⟨c', es'⟩)
    (hids : ∀ id ∈ op.ids, c.graph.Reachable id) (hfew : {j | c'.graph.Reachable j}.ncard ≤ L) :
    c'.Modest L o := by
  have hp : c.Performs op reply c' := h.sound.performs_of_ok done
  obtain ⟨hsound, rfl, hfew₀, hsolvent, hsize⟩ := h
  exact ⟨hp.sound hsound, hp.options_eq, hfew, hp.solvent hsound hgarbage hids hfew hsolvent,
    hp.totalSlots_bounded hsound hrecycle hfew₀ hsolvent hsize⟩

/-- **The work that events pay for keeps up with the program.** However long it runs, and even if an
event pays for one step of marking and one of recycling only: as long as at most `L` pairs are
reachable after each operation, and a program names reachable pairs only, a bound on the heap is
given by `L` and the size of a page. -/
theorem Sparse.totalSlots_lt (created : Collector.create o = .ok c₀)
    (hgarbage : 0 < o.garbageSteps) (hrecycle : 0 < o.recycleSteps) (run : Sparse L c₀ c) :
    c.totalSlots < 5 * L + o.pageSize + 2 := by
  -- by induction on the run; the bound alone would not carry it, the accounts are needed with it
  have h : c.Modest L o := by
    induction run with
    | start => exact .create created
    | perform _ done reachable few ih => exact ih.perform hgarbage hrecycle done reachable few
  exact h.size

/-! ### Runs that can be computed -/

/-- What an operation leaves, if such a run may go on with it. -/
def next? (L : Nat) (c : Collector) (op : Op) : Option Collector :=
  match c.reachable, Collector.perform op ⟨c, #[]⟩ with
  | .ok found, .ok _ u =>
    match u.state.reachable with
    | .ok found' =>
      if (∀ id ∈ op.ids, id ∈ found) ∧ found'.length ≤ L then some u.state else none
    | .error _ => none
  | _, _ => none

theorem Sparse.next (run : Sparse L c₀ c) (h : c₀.Sound) (hnext : next? L c op = some c') :
    Sparse L c₀ c' := by
  have hc : c.Sound := run.sound h
  obtain ⟨found, hfound, hmem⟩ := hc.reachable_spec
  unfold next? at hnext
  rw [hfound] at hnext
  cases hdone : Collector.perform op ⟨c, #[]⟩ with
  | error f u =>
    rw [hdone] at hnext
    exact absurd hnext nofun
  | ok reply u =>
    have hu : u.state.Sound := (hc.performs_of_ok hdone).sound hc
    obtain ⟨found', hfound', hmem'⟩ := hu.reachable_spec
    simp only [hdone, hfound'] at hnext
    obtain ⟨⟨hids, hfew⟩, hsome⟩ := Option.ite_none_right_eq_some.1 hnext
    obtain rfl := Option.some.inj hsome
    refine run.perform hdone (fun id hid => (hmem id).1 (hids id hid)) ?_
    simp only [← hmem']
    exact (ncard_le_length found').trans hfew

theorem Sparse.of_ops (ops : List Op) (run : Sparse L c₀ c) (h : c₀.Sound)
    (hops : ops.foldlM (next? L) c = some c') : Sparse L c₀ c' := by
  induction ops generalizing c with
  | nil =>
    obtain rfl := Option.some.inj hops
    exact run
  | cons op ops ih =>
    rw [List.foldlM_cons] at hops
    obtain ⟨c₁, hnext, hrest⟩ := Option.bind_eq_some_iff.1 hops
    exact ih (run.next h hnext) hrest

/-- A collector with one pair to a page, where every event pays for one step of each kind. -/
def thrifty : Collector :=
  empty { pageSize := 1, garbageSteps := 1, recycleSteps := 1 } ⟨by decide, by decide, by decide⟩

/-- One pair after another is made and given up, then two are made that hold each other. The heap
grows to more slots than there are reachable pairs at a time. -/
theorem totalSlots_lt_thrifty : ∃ c, Sparse 2 thrifty c ∧ c.totalSlots = 3 ∧
    c.totalSlots < 5 * 2 + 1 + 2 := by
  have created : Collector.create { pageSize := 1, garbageSteps := 1, recycleSteps := 1 } =
    .ok thrifty := rfl
  have hrun : ([.make .nil .nil, .make .nil .nil, .unroot ⟨0⟩, .make (.pair ⟨1⟩) .nil,
      .write ⟨1⟩ .cdr (.pair ⟨2⟩), .unroot ⟨1⟩].foldlM (next? 2) thrifty).map totalSlots =
        some 3 := by
    decide +kernel
  obtain ⟨c, hc, hsize⟩ := Option.map_eq_some_iff.1 hrun
  have run : Sparse 2 thrifty c := .of_ops _ .start (.create created) hc
  exact ⟨c, run, hsize, Sparse.totalSlots_lt created (by decide) (by decide) run⟩

end Collector

end ConsHeap
