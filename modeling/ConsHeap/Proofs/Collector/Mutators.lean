import ConsHeap.Proofs.Collector.Edits

/-!
# What each mutator does

`Collector.Edit c op reply c'` lists, for every operation and answer, the one change that the
operation makes to the pairs. Together with upkeep it is all there is: `Collector.Performs` says
that an operation recycles some pairs, makes its change, and goes on with upkeep, and
`Collector.Sound.perform` that every operation does so on a sound collector if its arguments are
live in the sense of `Op.LiveArgs`. In particular none of the checks fails then.
-/

namespace ConsHeap

namespace Collector

/-! ### Arguments -/

namespace Op

/-- The cells that an operation takes over. -/
def cells : Op → Multiset Cell
  | make car cdr => {car, cdr}
  | write _ _ value => {value}
  | _ => 0

/-- The pairs that an operation names, in cells or directly. -/
def ids : Op → List PairId
  | make car cdr => car.pair?.toList ++ cdr.pair?.toList
  | root id | retain id | acquire id | unroot id => [id]
  | write id _ value => id :: value.pair?.toList
  | step | recycle | finish | cycle => []

/-- Operations without an effect of their own. -/
def isWork : Op → Bool
  | step | recycle | finish | cycle => true
  | _ => false

/-- Operations after which there may be more garbage or less room: they pay for work. -/
def pays : Op → Bool
  | make _ _ | unroot _ => true
  | _ => false

/-- The discipline of callers: a first root is taken on a bulk pair, further ones are taken and
released on a rooted pair, and a pair that is written to or stored is live. A root count stays in
its word. -/
def LiveArgs (c : Collector) : Op → Prop
  | make car cdr => ∀ child ∈ car.pair?.toList ++ cdr.pair?.toList, c.IsLive child
  | root id => ∃ x, c.look id = some x ∧ x.color.isBulk = true
  | retain id => ∃ x, c.look id = some x ∧ x.color.isRoot = true ∧ x.rootCount < maxRoots
  | acquire id => ∃ x, c.look id = some x ∧ x.color.isLive = true ∧
      (x.color.isRoot = true → x.rootCount < maxRoots)
  | unroot id => ∃ x, c.look id = some x ∧ x.color.isRoot = true
  | write id _ value => c.IsLive id ∧ ∀ child ∈ value.pair?.toList, c.IsLive child
  | step | recycle | finish | cycle => True

end Op

variable {c c' : Collector} {id j child : PairId} {x y : Slot} {kids : List PairId}
  {es : Array Event} {cells : Multiset Cell} {car cdr value : Cell} {side : Side} {op : Op}
  {reply : Reply}

/-- Pairs that may be named are live. -/
theorem Op.LiveArgs.isLive (hargs : op.LiveArgs c) (hid : id ∈ op.ids) : c.IsLive id := by
  -- what is asked of the one pair that is named says that it lives, except for new children
  cases op with
  | make car cdr => exact hargs id hid
  | root j =>
    obtain ⟨x, hx, hbulk⟩ := hargs
    obtain rfl := List.mem_singleton.1 hid
    exact ⟨x, hx, Color.isLive_of_isBulk hbulk⟩
  | retain j =>
    obtain ⟨x, hx, hroot, -⟩ := hargs
    obtain rfl := List.mem_singleton.1 hid
    exact ⟨x, hx, Color.isLive_of_isRoot hroot⟩
  | acquire j =>
    obtain ⟨x, hx, hlive, -⟩ := hargs
    obtain rfl := List.mem_singleton.1 hid
    exact ⟨x, hx, hlive⟩
  | unroot j =>
    obtain ⟨x, hx, hroot⟩ := hargs
    obtain rfl := List.mem_singleton.1 hid
    exact ⟨x, hx, Color.isLive_of_isRoot hroot⟩
  | write j side value =>
    rcases List.mem_cons.1 hid with rfl | hchild
    · exact hargs.1
    · exact hargs.2 id hchild
  | step | recycle | finish | cycle => exact absurd hid List.not_mem_nil

/-! ### The change that an operation makes -/

/-- The color of a rooted pair after one of `roots` roots was released. -/
def unrootedColor (d : Color) (roots : Nat) : Color :=
  if roots = 1 then d.toBulk else d

/-- The one change that an operation makes to the pairs, by operation and answer. -/
inductive Edit (c : Collector) : Op → Reply → Collector → Prop where
  | work {op : Op} {reply : Reply} (isWork : op.isWork = true)
    (answer : ∀ id, reply ≠ .made id) : Edit c op reply c
  | refused {car cdr : Cell} {e : HeapError} (full : c.store.arena.voidSlots = [])
    (error : e = .outOfMemory c.store.arena.pageCount c.store.arena.pageSize) :
    Edit c (.make car cdr) (.failed e)
      { c with objects := (c.objects.discard car).discard cdr }
  | made {car cdr : Cell} {id : PairId} {c' : Collector} (vacant : ¬c.IsLive id)
    (empty : ∀ o, (c.look id).elim 0 (fun x => x.holds o) = 0)
    (edited : c.Edited id { car, cdr, color := c.generation.fromRoot, rootCount := 1 }
      (car.pair?.toList ++ cdr.pair?.toList) c')
    (objects : c'.objects = c.objects) : Edit c (.make car cdr) (.made id) c'
  | rooted {op : Op} {id : PairId} {x : Slot} {c' : Collector}
    (isRoot : op = .root id ∨ op = .acquire id) (look : c.look id = some x)
    (bulk : x.color.isBulk = true)
    (edited : c.Edited id { x with color := x.color.toRoot, rootCount := 1 } [] c')
    (objects : c'.objects = c.objects) : Edit c op .done c'
  | retained {op : Op} {id : PairId} {x : Slot} {c' : Collector}
    (isRetain : op = .retain id ∨ op = .acquire id) (look : c.look id = some x)
    (rooted : x.color.isRoot = true)
    (edited : c.Edited id { x with rootCount := x.rootCount + 1 } [] c')
    (objects : c'.objects = c.objects) : Edit c op .done c'
  | unrooted {id : PairId} {x : Slot} {c' : Collector} (look : c.look id = some x)
    (rooted : x.color.isRoot = true)
    (edited : c.Edited id { x with
      color := unrootedColor x.color x.rootCount
      rootCount := x.rootCount - 1 } [] c')
    (objects : c'.objects = c.objects) : Edit c (.unroot id) (.demoted (x.rootCount == 1)) c'
  | written {id : PairId} {side : Side} {value : Cell} {x : Slot} {c' : Collector}
    (look : c.look id = some x) (live : x.color.isLive = true)
    (edited : c.Edited id (side.set value x) value.pair?.toList c')
    (objects : c'.objects = c.objects.discard (side.get x)) : Edit c (.write id side value) .done c'

/-- What the event of an operation pays for: an allocation recycles before it takes a slot, and an
operation that pays and was not refused marks after its change. -/
structure Paid (c : Collector) (op : Op) (reply : Reply) (c₁ c₂ c' : Collector) : Prop where
  recycling : ∀ {car cdr}, op = .make car cdr → 0 < c.options.recycleSteps → c₁.Stocked
  marking : op.pays = true → (∀ e, reply ≠ .failed e) → c₂.Marking c'

/-- `c'` is `c` after an operation: some pairs were recycled, the operation made its change, and
upkeep followed, at least what was paid for. -/
def Performs (c : Collector) (op : Op) (reply : Reply) (c' : Collector) : Prop :=
  ∃ c₁ c₂, c.Recycling c₁ ∧ Edit c₁ op reply c₂ ∧ c₂.Upkeep c' ∧ c.Paid op reply c₁ c₂ c'

theorem Performs.of_edit {c₁ : Collector} (hop : op.pays = false) (he : Edit c op reply c₁)
    (hu : c₁.Upkeep c') : c.Performs op reply c' := by
  refine ⟨c, c₁, .refl, he, hu, fun hmake => ?_, fun hpays => ?_⟩
  · rw [hmake] at hop
    exact absurd hop.symm Bool.false_ne_true
  · exact absurd (hop.symm.trans hpays) Bool.false_ne_true

/-- An operation with no effect of its own is upkeep. -/
theorem Performs.of_upkeep (hop : op.isWork = true) (hreply : ∀ id, reply ≠ .made id)
    (hu : c.Upkeep c') : c.Performs op reply c' := by
  refine .of_edit ?_ (.work hop hreply) hu
  cases op with
  | make | unroot => exact absurd hop Bool.false_ne_true
  | _ => rfl

/-! ### Slots overwritten without greying -/

/-- A pair whose cells and generation stay may be overwritten without greying anything. -/
theorem Sound.edited (h : c.Sound) (hx : c.look id = some x) (hl : x.color.isLive = true)
    {s : Store} (hs : c.store.Overwrites id y s) (hchildren : y.children = x.children)
    (hlive : y.color.isLive = true) (hto : c.generation.isTo y.color = c.generation.isTo x.color)
    (hfrom : c.generation.isFrom y.color = c.generation.isFrom x.color)
    (hrooted : y.color.isRoot = true ↔ 0 < y.rootCount) :
    c.Edited id y [] { c with store := s } where
  slots := ⟨s, hs, (Store.Repaints.refl hs.sound).congr fun j z _ =>
    (Generation.shade_of_not_mem List.not_mem_nil).symm⟩
  live := hlive
  rooted := hrooted
  children := fun child hchild _ => h.closed hx hl (hchildren ▸ hchild)
  barrier := fun child hchild => .inr ⟨x, hx, hl, hchildren ▸ hchild, fun hy => hto.symm.trans hy⟩
  demotes := fun hz _ hy => by
    obtain rfl := Option.some.inj (hx.symm.trans hz)
    exact hfrom.symm.trans hy
  frame := rfl

/-- A write to the root count of a pair. -/
theorem Sound.overwrite_rootCount {s : Store} (h : s.Sound []) (hx : s.look id = some x)
    (hcol : x.color ≠ .void) (count : Nat → Nat) :
    s.Overwrites id { x with rootCount := count x.rootCount }
      ⟨s.arena.modify id fun x => { x with rootCount := count x.rootCount }, s.classes⟩ :=
  h.overwrite (f := fun x => { x with rootCount := count x.rootCount }) hx hcol (fun _ => rfl)
    (fun _ => rfl) fun _ _ => rfl

/-! ### Roots -/

/-- A pair that gets its first root stays in its generation. -/
theorem toRoot_spec {g : Generation} {d : Color} (hb : d.isBulk = true) :
    d.toRoot.isLive = true ∧ d.toRoot.isRoot = true ∧ g.isTo d.toRoot = g.isTo d ∧
      g.isFrom d.toRoot = g.isFrom d := by
  revert hb
  cases g <;> cases d <;> decide

/-- Up to the work that it pays for, a first root is an edit. -/
theorem Sound.root_edits {Q : Unit → Traced Collector → Prop} (h : c.Sound)
    (hx : c.look id = some x) (hb : x.color.isBulk = true)
    (hrest : ∀ s, c.Edited id { x with color := x.color.toRoot, rootCount := 1 } []
        { c with store := s } →
      (do Collector.runGarbage; Collector.runRecycle : Action Collector Unit).Yields
        ⟨{ c with store := s }, es⟩ Q) :
    (Collector.root id).Yields ⟨c, es⟩ Q := by
  have hl := Color.isLive_of_isBulk hb
  obtain ⟨slot, hslot, rfl⟩ := slot_of_look hx
  obtain ⟨hlive, hroot, hto, hfrom⟩ := toRoot_spec (g := c.generation) hb
  have hvoid : slot.color.toRoot ≠ .void := Color.ne_void_of_isLive hlive
  unfold Collector.root
  rw [Action.yields_bind, Action.yields_query]
  refine ⟨slot, hslot, ?_⟩
  rw [Action.yields_bind, Action.yields_require]
  refine ⟨hb, ?_⟩
  rw [Action.yields_bind, yields_onStore]
  refine (h.store.move hx (Color.ne_void_of_isLive hl) hvoid).mono fun _ m hm => ?_
  obtain ⟨s, es'⟩ := m
  obtain ⟨hpaint, rfl⟩ := hm
  rw [Action.yields_bind, yields_modifySlot]
  have hmoved := hpaint.look_of hx
  rw [if_pos rfl] at hmoved
  -- the move to the class of the new color and the write to the count are one overwriting
  have hover := hpaint.overwrites
    (Sound.overwrite_rootCount hpaint.sound hmoved hvoid fun _ => 1)
  exact hrest _ (h.edited hx hl hover rfl hlive hto hfrom (iff_of_true hroot Nat.one_pos))

/-- A first root. -/
theorem Sound.root (h : c.Sound) (hop : op = .root id ∨ op = .acquire id)
    (hx : c.look id = some x) (hb : x.color.isBulk = true) :
    (Collector.root id).Yields ⟨c, es⟩ fun _ u => c.Performs op .done u.state := by
  have hpays : op.pays = false := by
    rcases hop with rfl | rfl <;> rfl
  refine h.root_edits hx hb fun s hedited => ?_
  rw [Action.yields_bind]
  refine (hedited.sound h).runGarbage.mono fun _ m hm => ?_
  exact (hm.upkeep.sound (hedited.sound h)).runRecycle.mono fun _ u hu =>
    .of_edit hpays (.rooted hop hx hb hedited rfl) (hm.upkeep.trans hu.1.upkeep)

/-- A further root is an edit, and an event that moves no pair pays for no work. -/
theorem Sound.retain_edits {Q : Unit → Traced Collector → Prop} (h : c.Sound)
    (hx : c.look id = some x) (hr : x.color.isRoot = true) (hmax : x.rootCount < maxRoots)
    (hrest : ∀ s, c.Edited id { x with rootCount := x.rootCount + 1 } [] { c with store := s } →
      Q () ⟨{ c with store := s }, es⟩) :
    (Collector.retain id).Yields ⟨c, es⟩ Q := by
  have hl := Color.isLive_of_isRoot hr
  have hpos := (h.rooted hx).1 hr
  obtain ⟨slot, hslot, rfl⟩ := slot_of_look hx
  unfold Collector.retain
  simp only [Action.yields_bind, Action.yields_query, Action.yields_require, yields_modifySlot]
  refine ⟨slot, hslot, ⟨hr, hpos⟩, hmax, hrest _ ?_⟩
  exact h.edited hx hl
    (Sound.overwrite_rootCount h.store hx (Color.ne_void_of_isLive hl) fun n => n + 1) rfl hl rfl
    rfl (iff_of_true hr (Nat.succ_pos _))

/-- A further root. -/
theorem Sound.retain (h : c.Sound) (hop : op = .retain id ∨ op = .acquire id)
    (hx : c.look id = some x) (hr : x.color.isRoot = true) (hmax : x.rootCount < maxRoots) :
    (Collector.retain id).Yields ⟨c, es⟩ fun _ u => c.Performs op .done u.state := by
  have hpays : op.pays = false := by
    rcases hop with rfl | rfl <;> rfl
  exact h.retain_edits hx hr hmax fun s hedited =>
    .of_edit hpays (.retained hop hx hr hedited rfl) (.refl _)

/-- A root on a pair is the first or a further one. The color decides, and it tells whether there is
a root already. -/
theorem acquire_cases {Q : Unit → Traced Collector → Prop} (hargs : Op.LiveArgs c (.acquire id))
    (hretain : ∀ x, c.look id = some x → x.color.isRoot = true → x.rootCount < maxRoots →
      (Collector.retain id).Yields ⟨c, es⟩ Q)
    (hroot : ∀ x, c.look id = some x → x.color.isBulk = true →
      (Collector.root id).Yields ⟨c, es⟩ Q) :
    (Collector.acquire id).Yields ⟨c, es⟩ Q := by
  obtain ⟨x, hx, hl, hmax⟩ := hargs
  obtain ⟨slot, hslot, rfl⟩ := slot_of_look hx
  unfold Collector.acquire
  rw [Action.yields_bind, Action.yields_query]
  refine ⟨slot, hslot, ?_⟩
  rw [Action.yields_ite]
  refine ⟨fun hr => ?_, fun hr => ?_⟩
  · exact hretain _ hx hr (hmax hr)
  · exact hroot _ hx (Color.isBulk_of_isLive hl (Bool.not_eq_true _ ▸ hr))

theorem Sound.acquire (h : c.Sound) (hargs : Op.LiveArgs c (.acquire id)) :
    (Collector.acquire id).Yields ⟨c, es⟩ fun _ u => c.Performs (.acquire id) .done u.state :=
  acquire_cases hargs (fun _ hx hr hmax => h.retain (.inr rfl) hx hr hmax)
    fun _ hx hb => h.root (.inr rfl) hx hb

/-- Without a root, or with no room for a further one, nothing is retained. -/
theorem retain_refuses (hargs : ¬Op.LiveArgs c (.retain id)) :
    (Collector.retain id).Refuses ⟨c, es⟩ := by
  unfold Collector.retain
  refine Action.refuses_query_bind fun slot hslot => ?_
  refine Action.refuses_require_bind fun hr => ?_
  refine Action.refuses_require_bind fun hmax => ?_
  exact absurd ⟨_, look_of_slot hslot, hr.1, hmax⟩ hargs

/-- A pair that is not live, or has no room for a further root, is not acquired. -/
theorem acquire_refuses (hargs : ¬Op.LiveArgs c (.acquire id)) :
    (Collector.acquire id).Refuses ⟨c, es⟩ := by
  unfold Collector.acquire
  refine Action.refuses_query_bind fun slot hslot => ?_
  have hx := look_of_slot hslot
  split
  · -- a rooted pair has no room for a further root
    refine retain_refuses fun hretain => hargs ?_
    obtain ⟨x, hx', hr, hmax⟩ := hretain
    exact ⟨x, hx', Color.isLive_of_isRoot hr, fun _ => hmax⟩
  · -- a bulk pair could be rooted
    rename_i hroot
    unfold Collector.root
    refine Action.refuses_query_bind fun slot' hslot' => ?_
    refine Action.refuses_require_bind fun hb => ?_
    have hx' := look_of_slot hslot'
    have hnot := Color.not_isRoot_of_isBulk hb
    refine absurd ⟨_, hx', Color.isLive_of_isBulk hb, fun hr => ?_⟩ hargs
    rw [show _ = false from hnot] at hr
    exact absurd hr (by decide)

/-- A pair that loses a root stays in its generation. -/
theorem unrootedColor_spec {g : Generation} {d : Color} {n : Nat} (hr : d.isRoot = true)
    (hn : 0 < n) : (unrootedColor d n).isLive = true ∧ g.isTo (unrootedColor d n) = g.isTo d ∧
      g.isFrom (unrootedColor d n) = g.isFrom d ∧
      ((unrootedColor d n).isRoot = true ↔ 0 < n - 1) := by
  unfold unrootedColor
  by_cases hone : n = 1
  · rw [if_pos hone, hone]
    revert hr
    cases g <;> cases d <;> decide
  · rw [if_neg hone]
    exact ⟨Color.isLive_of_isRoot hr, rfl, rfl, iff_of_true hr (by omega)⟩

/-- Up to the work that it pays for, the release of a root is an edit. -/
theorem Sound.unroot_edits {Q : Bool → Traced Collector → Prop} (h : c.Sound)
    (hx : c.look id = some x) (hr : x.color.isRoot = true)
    (hrest : ∀ s, c.Edited id { x with
        color := unrootedColor x.color x.rootCount
        rootCount := x.rootCount - 1 } [] { c with store := s } →
      (do Collector.runGarbage; Collector.runRecycle; return x.rootCount == 1 :
        Action Collector Bool).Yields ⟨{ c with store := s }, es⟩ Q) :
    (Collector.unroot id).Yields ⟨c, es⟩ Q := by
  have hl := Color.isLive_of_isRoot hr
  have hpos := (h.rooted hx).1 hr
  obtain ⟨hlive, hto, hfrom, hroot⟩ := unrootedColor_spec (g := c.generation) hr hpos
  obtain ⟨slot, hslot, rfl⟩ := slot_of_look hx
  have hover := Sound.overwrite_rootCount h.store hx (Color.ne_void_of_isLive hl) fun n => n - 1
  -- the pair is overwritten, and moved if its last root is gone
  have hedited : ∀ {s : Store}, c.store.Overwrites id { slot with
        color := unrootedColor slot.color slot.rootCount
        rootCount := slot.rootCount - 1, index := 0 } s →
      (do Collector.runGarbage; Collector.runRecycle; return slot.rootCount == 1 :
        Action Collector Bool).Yields ⟨{ c with store := s }, es⟩ Q :=
    fun hs => hrest _ (h.edited hx hl hs rfl hlive hto hfrom hroot)
  unfold Collector.unroot
  rw [Action.yields_bind, Action.yields_query]
  refine ⟨slot, hslot, ?_⟩
  rw [Action.yields_bind, Action.yields_require]
  refine ⟨⟨hr, hpos⟩, ?_⟩
  rw [Action.yields_bind, yields_modifySlot]
  change Action.Yields (if slot.rootCount = 1 then _ else _) _ _
  split
  · -- the last root: the pair goes to the class of its bulk color
    rename_i hone
    have hcolor : unrootedColor slot.color slot.rootCount = slot.color.toBulk := if_pos hone
    unfold demote
    rw [Action.yields_bind, yields_onStore]
    refine (hover.sound.move hover.self (Color.ne_void_of_isLive hl)
      (hcolor ▸ Color.ne_void_of_isLive hlive)).mono fun _ m hm => ?_
    obtain ⟨s, es'⟩ := m
    obtain ⟨hpaint, rfl⟩ := hm
    refine hedited ?_
    rw [hcolor]
    exact hover.recolor hpaint
  · rename_i hone
    have hcolor : unrootedColor slot.color slot.rootCount = slot.color := if_neg hone
    refine hedited ?_
    rw [hcolor]
    exact hover

/-- One root less. -/
theorem Sound.unroot (h : c.Sound) (hx : c.look id = some x) (hr : x.color.isRoot = true) :
    (Collector.unroot id).Yields ⟨c, es⟩ fun last u =>
      c.Performs (.unroot id) (.demoted last) u.state := by
  refine h.unroot_edits hx hr fun s hedited => ?_
  rw [Action.yields_bind]
  refine (hedited.sound h).runGarbage.mono fun _ m hm => ?_
  rw [Action.yields_bind]
  refine (hm.upkeep.sound (hedited.sound h)).runRecycle.mono fun _ u hu => ?_
  rw [Action.yields_pure]
  have hmarked := hm.trans_upkeep hu.1.upkeep
  exact ⟨c, _, .refl, .unrooted hx hr hedited rfl, hmarked.upkeep, nofun, fun _ _ => hmarked⟩

/-! ### Writes -/

/-- A live pair stays live when a slot is overwritten by a live one. -/
theorem isLive_of_overwrites (hs : c.store.Overwrites id y c'.store) (hy : y.color.isLive = true)
    (hl : c.IsLive j) : c'.IsLive j := by
  obtain ⟨x, hx, hlive⟩ := hl
  by_cases hj : j = id
  · rw [hj]
    exact ⟨y, hs.self, hy⟩
  · exact ⟨x, hs.other hj hx, hlive⟩

/-- What a pair holds after a write is what was written, or it was held before. -/
theorem mem_children_set (h : child ∈ (side.set value x).children) :
    child ∈ value.pair?.toList ∨ child ∈ x.children := by
  unfold Slot.children at h ⊢
  rw [List.mem_append] at h ⊢
  cases side with
  | car =>
    rcases h with h | h
    · exact .inl h
    · exact .inr (.inr h)
  | cdr =>
    rcases h with h | h
    · exact .inr (.inl h)
    · exact .inl h

/-- A write, once the pair that is stored has been greyed. -/
theorem Sound.edited_set (h : c.Sound) (hx : c.look id = some x) (hl : x.color.isLive = true)
    (hvalue : ∀ child ∈ value.pair?.toList, c.IsLive child) {s s' : Store} {os : Objects}
    (hs : c.store.Overwrites id (side.set value x) s)
    (hp : s.Repaints (c.generation.shade value.pair?.toList) s') :
    c.Edited id (side.set value x) value.pair?.toList { c with store := s', objects := os } where
  slots := ⟨s, hs, hp⟩
  live := by
    cases side <;> exact hl
  rooted := by
    have hrooted := h.rooted hx
    cases side <;> exact hrooted
  children := fun child hchild _ => by
    rcases mem_children_set hchild with hnew | hold
    · exact hvalue child hnew
    · exact h.closed hx hl hold
  barrier := fun child hchild => by
    rcases mem_children_set hchild with hnew | hold
    · exact .inl hnew
    · refine .inr ⟨x, hx, hl, hold, fun hto => ?_⟩
      cases side <;> exact hto
  demotes := fun hz _ hfrom => by
    obtain rfl := Option.some.inj (hx.symm.trans hz)
    cases side <;> exact hfrom
  frame := rfl

/-- The write barrier greys the pair that is stored, and pays for marking if there is one. -/
theorem barrier_edits {s : Store} {os : Objects} {Q : Unit → Traced Collector → Prop}
    (h : c.Sound) (hx : c.look id = some x) (hl : x.color.isLive = true)
    (hvalue : ∀ child ∈ value.pair?.toList, c.IsLive child)
    (hs : c.store.Overwrites id (side.set value x) s)
    (hrest : ∀ s', c.Edited id (side.set value x) value.pair?.toList
        { c with store := s', objects := os } →
      (value.pair?.elim (pure ()) fun _ => Collector.runGarbage).Yields
        ⟨{ c with store := s', objects := os }, es⟩ Q) :
    (barrier value.pair?).Yields ⟨{ c with store := s, objects := os }, es⟩ Q := by
  have hedited : ∀ {s' : Store}, s.Repaints (c.generation.shade value.pair?.toList) s' →
      c.Edited id (side.set value x) value.pair?.toList { c with store := s', objects := os } :=
    fun hp => h.edited_set hx hl hvalue hs hp
  cases hv : value.pair? with
  | none =>
    -- nothing is greyed, and nothing is paid for
    rw [hv] at hedited hrest
    have hsame : s.Repaints (c.generation.shade []) s :=
      (Store.Repaints.refl hs.sound).congr fun j z _ =>
        (Generation.shade_of_not_mem List.not_mem_nil).symm
    exact hrest s (hedited hsame)
  | some new =>
    rw [hv] at hvalue hedited hrest
    -- the stored pair is still live when it is greyed, be it the one written to
    have hnew : ({ c with store := s, objects := os } : Collector).IsLive new := by
      refine isLive_of_overwrites hs ?_ (hvalue new (List.mem_singleton.2 rfl))
      cases side <;> exact hl
    unfold barrier
    rw [Action.yields_bind]
    refine (greyChild_yields (c := { c with store := s, objects := os }) hs.sound hnew).mono
      fun _ m hm => ?_
    obtain ⟨c₂, es₂⟩ := m
    obtain ⟨hpaint, rfl⟩ := hm
    have hshade : s.Repaints (c.generation.shade [new]) c₂.store := by
      refine hpaint.store.congr fun j z _ => ?_
      unfold Generation.shade
      simp only [List.mem_singleton]
    have hframe : c₂ = { c with store := c₂.store, objects := os } := hpaint.frame
    rw [hframe]
    exact hrest c₂.store (hedited hshade)

/-- A live pair passes the check for writes. -/
theorem target_yields (hslot : c.slot id = .ok x) (hl : x.color.isLive = true) :
    (target id).Yields ⟨c, es⟩ fun r u => r = x ∧ u = ⟨c, es⟩ := by
  unfold target
  simp only [Action.yields_bind, Action.yields_query, Action.yields_require, Action.yields_pure]
  exact ⟨x, hslot, hl, rfl, trivial⟩

/-- A write to one side of a pair. -/
theorem Sound.overwrite_side (h : c.Sound) (hx : c.look id = some x) (hl : x.color.isLive = true)
    (side : Side) (value : Cell) : c.store.Overwrites id (side.set value x)
      ⟨c.store.arena.modify id (side.set value), c.store.classes⟩ := by
  refine h.store.overwrite hx (Color.ne_void_of_isLive hl) (fun z => ?_) (fun z => ?_) fun z i => ?_
  · cases side <;> rfl
  · cases side <;> rfl
  · cases side <;> rfl

/-- Up to the work that it pays for, a write is an edit, and the cell that stood there is given
up. -/
theorem Sound.write_edits {Q : Unit → Traced Collector → Prop} (h : c.Sound)
    (hx : c.look id = some x) (hl : x.color.isLive = true)
    (hvalue : ∀ child ∈ value.pair?.toList, c.IsLive child)
    (hrest : ∀ s, c.Edited id (side.set value x) value.pair?.toList
        { c with store := s, objects := c.objects.discard (side.get x) } →
      (value.pair?.elim (pure ()) fun _ => Collector.runGarbage).Yields
        ⟨{ c with store := s, objects := c.objects.discard (side.get x) }, es⟩ Q) :
    (Collector.write id side value).Yields ⟨c, es⟩ Q := by
  obtain ⟨slot, hslot, rfl⟩ := slot_of_look hx
  -- what is given up does not depend on the position of the pair in its class
  have hget : side.get { slot with index := 0 } = side.get slot := by
    cases side <;> rfl
  rw [hget] at hrest
  unfold Collector.write
  rw [Action.yields_bind]
  -- the check of the pair does not fail, so the value is not given up
  refine (target_yields hslot hl).onFault.mono fun r m hm => ?_
  obtain ⟨rfl, rfl⟩ := hm
  rw [Action.yields_bind, yields_modifySlot, Action.yields_bind, yields_discard]
  exact barrier_edits (c := c) h hx hl hvalue (h.overwrite_side hx hl side value) hrest

/-- A live pair is written to. -/
theorem Sound.write (h : c.Sound) (hx : c.look id = some x) (hl : x.color.isLive = true)
    (hvalue : ∀ child ∈ value.pair?.toList, c.IsLive child) :
    (Collector.write id side value).Yields ⟨c, es⟩ fun _ u =>
      c.Performs (.write id side value) .done u.state := by
  refine h.write_edits hx hl hvalue fun s hedited => ?_
  have hwritten := Edit.written hx hl hedited rfl
  cases hv : value.pair? with
  | none => exact Action.yields_pure.2 (.of_edit rfl hwritten (.refl _))
  | some new =>
    exact (hedited.sound h).runGarbage.mono fun _ u hu => .of_edit rfl hwritten hu.upkeep

/-! ### Allocation -/

/-- Nobody uses a slot that is about to be handed out. -/
theorem Sound.not_isLive_of_hands (h : c.Sound) {b : Arena} (hb : c.store.arena.Hands id b) :
    ¬c.IsLive id := by
  rintro ⟨x, hx, hl⟩
  rcases hb.origin with hv | hnone
  · exact h.store.not_vacant_of_look hx (Color.ne_void_of_isLive hl) hv
  · obtain ⟨y, hy, -⟩ := Store.look_eq_some.1 hx
    rw [hnone] at hy
    exact absurd hy (by simp)

/-- A slot just handed out becomes a rooted pair, and what it holds is greyed. It may hold itself:
then it is greyed itself, being live by now. -/
theorem settle_yields (h : c.Sound) {b : Arena} (hb : c.store.arena.Hands id b)
    (hcells : ∀ child ∈ car.pair?.toList ++ cdr.pair?.toList, child ≠ id → c.IsLive child) :
    (settle id car cdr).Yields ⟨{ c with store := ⟨b, c.store.classes⟩ }, es⟩ fun _ u =>
      c.Edited id { car, cdr, color := c.generation.fromRoot, rootCount := 1 }
        (car.pair?.toList ++ cdr.pair?.toList) u.state ∧ u.state.objects = c.objects ∧
      u.state.stats = { c.stats with
        pairsAllocated := c.stats.pairsAllocated + 1
        pagesAllocated := u.state.store.arena.pageCount } ∧
      u.events = es.push (.allocated id c.generation.fromRoot) := by
  have hdead := h.not_isLive_of_hands hb
  have hover := h.store.occupy hb (Generation.fromRoot_ne_void (g := c.generation)) car cdr 1
  have hroot : c.generation.fromRoot.isRoot = true := Generation.isRoot_fromRoot
  have hlive : c.generation.fromRoot.isLive = true := Color.isLive_of_isRoot hroot
  unfold settle
  rw [Action.yields_bind, Action.yields_ask, Action.yields_bind, yields_onStore]
  refine ((h.store.hands hb).add Generation.fromRoot_ne_void).mono fun _ m hm => ?_
  rw [hm, Action.yields_bind, yields_modifySlot, Action.yields_bind]
  refine (greyChildren_yields (c := { c with store := _ }) hover.sound hover.self
    fun child hchild => ?_).mono fun _ m hm => ?_
  · -- a child is live, be it the new pair itself
    by_cases hself : child = id
    · rw [hself]
      exact ⟨_, hover.self, hlive⟩
    · exact isLive_of_overwrites hover hlive (hcells child hchild hself)
  obtain ⟨c₂, es₂⟩ := m
  obtain ⟨hpaint, rfl⟩ := hm
  rw [Action.yields_bind, Action.yields_ask, Action.yields_bind, yields_tally, Action.yields_report]
  have hframe : c₂ = { c with store := c₂.store } := hpaint.frame
  have hobjects : c₂.objects = c.objects := by rw [hframe]
  have hstats : c₂.stats = c.stats := by rw [hframe]
  refine ⟨?_, hobjects, by rw [hstats], rfl⟩
  -- nobody used the slot, so what is asked about an old pair there holds vacuously
  constructor
  case slots => exact ⟨_, hover, hpaint.store⟩
  case live => exact hlive
  case rooted => exact iff_of_true hroot Nat.one_pos
  case children => exact hcells
  case barrier => exact fun child hchild => .inl hchild
  case demotes => exact fun hx hl _ => absurd ⟨_, hx, hl⟩ hdead
  case frame =>
    change ({ c₂ with stats := _ } : Collector) = _
    rw [hframe]

/-- What follows in an allocation once a slot was handed out. -/
theorem settled_yields {c₁ : Collector} (h : c₁.Sound) {b : Arena}
    (hb : c₁.store.arena.Hands id b)
    (hcells : ∀ child ∈ car.pair?.toList ++ cdr.pair?.toList, child ≠ id → c₁.IsLive child)
    (hrec : c.Recycling c₁) (hstocked : 0 < c.options.recycleSteps → c₁.Stocked) :
    (do settle id car cdr; Collector.runGarbage; return .ok id :
      Action Collector (Except HeapError PairId)).Yields
        ⟨{ c₁ with store := ⟨b, c₁.store.classes⟩ }, es⟩ fun r u =>
          r = .ok id ∧ c.Performs (.make car cdr) (.made id) u.state := by
  rw [Action.yields_bind]
  refine (settle_yields h hb hcells).mono fun _ m hs => ?_
  obtain ⟨hedited, hobjects, -⟩ := hs
  rw [Action.yields_bind]
  refine (hedited.sound h).runGarbage.mono fun _ u hu => ?_
  rw [Action.yields_pure]
  exact ⟨rfl, c₁, m.state, hrec,
    .made (h.not_isLive_of_hands hb) (h.store.holds_of_hands hb) hedited hobjects, hu.upkeep,
    fun _ => hstocked, fun _ _ => hu⟩

/-- The answer to an allocation. -/
def allocated : Except HeapError PairId → Reply
  | .ok id => .made id
  | .error e => .failed e

/-- Without room an allocation gives its cells up again. -/
theorem refused_yields {c₁ : Collector} {e : HeapError} (hfull : c₁.store.arena.voidSlots = [])
    (he : e = .outOfMemory c₁.store.arena.pageCount c₁.store.arena.pageSize)
    (hrec : c.Recycling c₁) (hstocked : 0 < c.options.recycleSteps → c₁.Stocked) :
    (do discard car; discard cdr; return .error e :
      Action Collector (Except HeapError PairId)).Yields ⟨c₁, es⟩ fun r u =>
        c.Performs (.make car cdr) (allocated r) u.state := by
  simp only [Action.yields_bind, yields_discard, Action.yields_pure]
  exact ⟨c₁, _, hrec, .refused hfull he, .refl _, fun _ => hstocked,
    fun _ hok => absurd rfl (hok e)⟩

/-- A pair is allocated, unless there is no room for it. -/
theorem Sound.make (h : c.Sound)
    (hcells : ∀ child ∈ car.pair?.toList ++ cdr.pair?.toList, c.IsLive child) :
    (Collector.make car cdr).Yields ⟨c, es⟩ fun r u =>
      c.Performs (.make car cdr) (allocated r) u.state := by
  unfold Collector.make
  rw [Action.yields_bind]
  refine h.runRecycle.mono fun _ m hm => ?_
  obtain ⟨c₁, es₁⟩ := m
  obtain ⟨hrec, hstocked⟩ := hm
  have h₁ : c₁.Sound := hrec.upkeep.sound h
  rw [Action.yields_bind, yields_onArena]
  refine h₁.store.arena.next.mono fun r m hr => ?_
  obtain ⟨b, es₂⟩ := m
  cases r with
  | error e =>
    obtain ⟨rfl, he, hfull, -⟩ := hr
    exact refused_yields hfull he hrec hstocked
  | ok id =>
    -- recycling took nothing from the graph, so the cells are still live
    have hcells₁ : ∀ child ∈ car.pair?.toList ++ cdr.pair?.toList, child ≠ id →
        c₁.IsLive child := by
      intro child hchild _
      rw [isLive_iff, hrec.graph_eq, ← isLive_iff]
      exact hcells child hchild
    refine (settled_yields h₁ hr hcells₁ hrec hstocked).mono fun r u hu => ?_
    rw [hu.1]
    exact hu.2

/-! ### All operations -/

/-- **An operation on live arguments does not fault**, and it makes its change and does upkeep,
nothing else. -/
theorem Sound.perform (h : c.Sound) (hargs : op.LiveArgs c) :
    (Collector.perform op).Yields ⟨c, es⟩ fun reply u => c.Performs op reply u.state := by
  cases op with
  | make car cdr =>
    unfold Collector.perform
    rw [Action.yields_bind]
    refine (h.make hargs).mono fun r u hu => ?_
    -- that there is no room is an answer too, so both outcomes are followed
    cases r with
    | ok id => exact Action.yields_pure.2 hu
    | error e => exact Action.yields_pure.2 hu
  | root id =>
    -- the pair was not rooted, so it changes its class
    obtain ⟨x, hx, hb⟩ := hargs
    exact (h.root (.inl rfl) hx hb).answer
  | retain id =>
    -- the pair stays where it is: its count grows, for which there is room
    obtain ⟨x, hx, hr, hmax⟩ := hargs
    exact (h.retain (.inl rfl) hx hr hmax).answer
  | acquire id =>
    -- one of the two cases above, by the color of the pair
    exact (h.acquire hargs).answer
  | unroot id =>
    -- a root count that is positive, as the color says, can be lowered
    obtain ⟨x, hx, hr⟩ := hargs
    exact (h.unroot hx hr).answer
  | write id side value =>
    -- what is stored lives, so the barrier accepts it
    obtain ⟨⟨x, hx, hl⟩, hvalue⟩ := hargs
    exact (h.write hx hl hvalue).answer
  -- from here on no pair is edited: the operation is upkeep and nothing else
  | step =>
    refine Action.Yields.answer (h.step_upkeep.mono fun _ u hu => ?_)
    exact .of_upkeep rfl (fun _ => nofun) hu
  | recycle =>
    refine Action.Yields.answer ((Sound.recycle h.store).mono fun r u hu => ?_)
    cases r with
    | none =>
      -- nothing was free, and nothing has changed
      rw [hu.1]
      exact .of_upkeep rfl (fun _ => nofun) (.refl _)
    | some id =>
      obtain ⟨x, hs, -⟩ := hu
      exact .of_upkeep rfl (fun _ => nofun) (.single (.recycle hs))
  | finish =>
    refine Action.Yields.answer (h.finish_upkeep.mono fun n u hu => ?_)
    exact .of_upkeep rfl (fun _ => nofun) hu
  | cycle =>
    refine Action.Yields.answer (h.cycle.mono fun n u hu => ?_)
    exact .of_upkeep rfl (fun _ => nofun) (.single (.cycle hu))

end Collector

end ConsHeap
