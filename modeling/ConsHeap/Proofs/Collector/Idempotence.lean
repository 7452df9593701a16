import ConsHeap.Proofs.Collector.Runs

/-!
# A second full cycle changes nothing

After a full cycle the collector is *tidy*: white is the `from` color, whatever is in use is
reachable, and only the classes of the `to` generation have members (`Collector.Cycled.tidy`). A
full cycle of a tidy collector takes the members out of these classes and puts each of them back, in
the order in which they were taken. A member records the color of its class and its position, so the
stamp that it is given is the one that it has (`Store.enlist_stamped`). Class by class this restores
what was there (`Collector.sift_class`), and nothing is left of the cycle but that it is
counted.
-/

namespace ConsHeap

/-- A pair put at the end of a class, at the position that it records as one of that color. -/
theorem Store.enlist_stamped {s : Store} {color : Color} {id : PairId} {x : Slot}
    (hx : s.arena.slot? id = some x) (hcolor : x.color = color) (hindex : x.index = s.size color) :
    s.enlist color id = { s with classes := s.classes.push color id } := by
  subst hcolor
  have hwrite : { x with color := x.color, index := s.size x.color } = x := by
    rw [← hindex]
  exact congrArg (fun a => (⟨a, _⟩ : Store)) (Arena.modify_eq_self hx hwrite)

namespace Collector

variable {o : Options} {c₀ c c' : Collector} {past : List Collector} {color : Color}
  {es : Array Event} {keep : PairId → Bool} {n : Nat} {loose : List PairId}

/-! ### What a full cycle leaves -/

/-- Only reachable pairs are in use, and all of them have been scanned. -/
structure Tidy (c : Collector) : Prop where
  sound : c.Sound
  generation_eq : c.generation = .white
  members_eq : ∀ color, color ≠ .black → color ≠ .blackRoot → c.store.classes.members color = #[]
  reachable : ∀ {id}, c.IsLive id → c.graph.Reachable id

/-- **A full cycle leaves a tidy collector.** -/
theorem Cycled.tidy (hs : c.Cycled n c') (h : c.Sound) : c'.Tidy where
  sound := hs.sound h
  generation_eq := hs.generation_eq
  members_eq := by
    intro color hblack hroot
    by_cases hv : color = .void
    · rw [hv]
      exact hs.store.void_class
    refine Array.eq_empty_iff_forall_not_mem.2 fun id hid => ?_
    -- a pair that survived is black, and a slot that was given back is in no class
    obtain ⟨y, hy, rfl⟩ := (hs.store.mem_members hv).1 hid
    rcases hs.look_cases hy with ⟨-, x, -, -, rfl⟩ | rfl
    · by_cases hx : x.color.isRoot = true
      · exact hroot (if_pos hx)
      · exact hblack (if_neg hx)
    · exact hv rfl
  reachable := by
    intro id hid
    obtain ⟨m, hm⟩ := Collector.isLive_iff.1 hid
    exact (hs.trims h).reachable_iff.2 ((hs.graph_eq_some_iff h).1 hm).1

/-! ### Members put back -/

/-- The collector with other members in one class; what the slots say is not changed. -/
def withMembers (c : Collector) (color : Color) (ids : Array PairId) : Collector :=
  { c with store := { c.store with classes := c.store.classes.modify color fun _ => ids } }

theorem withMembers_self : c.withMembers color (c.store.classes.members color) = c := by
  unfold withMembers
  rw [Classes.modify_members]

/-- The answer of `gather` lists the classes one after another. -/
theorem gather_leaves {order : List Color} (hnodup : order.Nodup) :
    (gather order).Leaves ⟨c, es⟩ fun ids _ =>
      ids = order.flatMap fun color => (c.store.classes.members color).toList := by
  induction order generalizing c with
  | nil => exact Action.leaves_pure.2 rfl
  | cons color order ih =>
    obtain ⟨hcolor, hnodup⟩ := List.nodup_cons.1 hnodup
    unfold gather
    refine Action.Yields.bind_leaves (classTake_yields.2 ?_)
    rw [Action.leaves_bind]
    refine (ih (c := c.withMembers color #[]) hnodup).mono fun ids u hu => ?_
    rw [Action.leaves_pure, hu, List.flatMap_cons]
    congr 1
    -- the first class is emptied, but it does not come again
    refine List.flatMap_congr fun d hd => ?_
    have hne : d ≠ color := fun he => hcolor (he ▸ hd)
    exact congrArg _ (Classes.members_modify_ne hne)

theorem yields_sift_append {ids more : List PairId} {total : Sifted} {t : Traced Collector}
    {Q : Sifted → Traced Collector → Prop} :
    (sift keep (ids ++ more) total).Yields t Q ↔
      (sift keep ids total).Yields t fun total u => (sift keep more total).Yields u Q := by
  induction ids generalizing total t with
  | nil => rw [List.nil_append, sift, Action.yields_pure]
  | cons id ids ih =>
    rw [List.cons_append, sift, sift, Action.yields_bind, Action.yields_bind]
    simp only [ih]

/-- The members of a class put back in order, of which some are there already. The color of the class
is the one that survivors of that color get. -/
theorem sift_rest (h : c.store.Sound loose) (hcolor : survivorColor c.generation color = color)
    (hkeep : ∀ id ∈ c.store.classes.members color, keep id = true) {back : Array PairId}
    {rest : List PairId} (hrest : back.toList ++ rest = (c.store.classes.members color).toList)
    (total : Sifted) :
    (sift keep rest total).Yields ⟨c.withMembers color back, es⟩ fun r u =>
      r = total ∧ u = ⟨c, es⟩ := by
  induction rest generalizing back total with
  | nil =>
    rw [List.append_nil, Array.toList_inj] at hrest
    rw [hrest, withMembers_self]
    exact Action.yields_pure.2 ⟨rfl, rfl⟩
  | cons id rest ih =>
    -- the next pair is the member behind those that are back, and says so itself
    have hid : (c.store.classes.members color)[back.size]? = some id := by
      rw [← Array.getElem?_toList, ← hrest, List.getElem?_append_right (by simp)]
      simp
    obtain ⟨-, x, hx, hxcolor, hindex⟩ := h.stamped hid
    have hslot : (c.withMembers color back).slot id = .ok x := Arena.slot_eq_ok.2 hx
    have hsize : (c.withMembers color back).store.size color = back.size :=
      Classes.size_modify.trans (if_pos rfl)
    have henlist : (c.withMembers color back).store.enlist color id =
        (c.withMembers color (back.push id)).store := by
      rw [Store.enlist_stamped (s := (c.withMembers color back).store) hx hxcolor
        (hindex.trans hsize.symm)]
      exact congrArg (Store.mk _) Classes.modify_modify
    unfold sift
    rw [Action.yields_bind]
    refine (siftOne_kept hslot (hkeep id (Array.mem_of_getElem? hid))).mono fun one u hu => ?_
    obtain ⟨rfl, rfl⟩ := hu
    rw [show (c.withMembers color back).generation = c.generation from rfl, hxcolor, hcolor,
      henlist]
    have hrest' : (back.push id).toList ++ rest = (c.store.classes.members color).toList := by
      rw [← hrest, Array.toList_push, List.append_assoc, List.singleton_append]
    exact ih hrest' total

/-- **The members of a class, put back in order, make the collector that they were taken from.** -/
theorem sift_class (h : c.store.Sound loose) (hcolor : survivorColor c.generation color = color)
    (hkeep : ∀ id ∈ c.store.classes.members color, keep id = true) (total : Sifted) :
    (sift keep (c.store.classes.members color).toList total).Yields ⟨c.withMembers color #[], es⟩
      fun r u => r = total ∧ u = ⟨c, es⟩ :=
  sift_rest h hcolor hkeep (List.nil_append _) total

/-! ### The second cycle -/

theorem resetGeneration_yields (hgen : c.generation = .white) :
    resetGeneration.Yields ⟨c, es⟩ fun _ u => u = ⟨c, es⟩ := by
  unfold resetGeneration
  rw [Action.yields_update, ← hgen]

namespace Tidy

variable (h : c.Tidy)

include h

/-- The classes of the `to` generation are emptied, and the others were empty. -/
theorem gather_yields : (gather cycleOrder).Yields ⟨c, es⟩ fun ids u =>
    ids = (c.store.classes.members .black).toList ++
        (c.store.classes.members .blackRoot).toList ∧
      u = ⟨(c.withMembers .blackRoot #[]).withMembers .black #[], es⟩ := by
  -- the classes are compared member by member: the order of their entries does not matter
  refine ((Collector.gather_yields cycleOrder h.sound.store).and
    (gather_leaves (by decide))).mono fun ids m hm => ?_
  obtain ⟨⟨cs, rfl, -, hmembers⟩, rfl⟩ := hm
  constructor
  · simp [cycleOrder, Color.live, h.members_eq]
  · have hcs : cs =
        (c.store.classes.modify .blackRoot fun _ => #[]).modify .black fun _ => #[] := by
      refine Classes.eq_of_members fun d => ?_
      rw [hmembers, Classes.members_modify, Classes.members_modify]
      by_cases hblack : d = .black
      · rw [hblack]
        rfl
      by_cases hroot : d = .blackRoot
      · rw [hroot]
        rfl
      rw [if_neg hblack, if_neg hroot, h.members_eq d hblack hroot, ite_self]
    rw [hcs]
    rfl

/-- They are filled again, one after the other. -/
theorem sift_yields (hkeep : ∀ id, keep id = true ↔ c.graph.Reachable id) (total : Sifted) :
    (sift keep ((c.store.classes.members .black).toList ++
      (c.store.classes.members .blackRoot).toList) total).Yields
      ⟨(c.withMembers .blackRoot #[]).withMembers .black #[], es⟩
      fun r u => r = total ∧ u = ⟨c, es⟩ := by
  -- members are in use, so they are reachable
  have hkept : ∀ color, color.isLive = true → ∀ id ∈ c.store.classes.members color,
      keep id = true := by
    intro color hlive id hid
    obtain ⟨x, hx, rfl⟩ := (h.sound.store.mem_members (Color.ne_void_of_isLive hlive)).1 hid
    exact (hkeep id).2 (h.reachable ⟨x, hx, hlive⟩)
  have hcolor : ∀ color, survivorColor .white color = color →
      survivorColor c.generation color = color := by
    rw [h.generation_eq]
    exact fun _ hcolor => hcolor
  have hblack : (c.withMembers .blackRoot #[]).store.classes.members .black =
      c.store.classes.members .black := Classes.members_modify_ne (by decide)
  rw [yields_sift_append, ← hblack]
  -- the members of the first class are put back while those of the second one are loose
  refine (sift_class (c := c.withMembers .blackRoot #[]) h.sound.store.take (hcolor .black rfl)
    (fun id hid => ?_) total).mono fun r u hu => ?_
  · rw [hblack] at hid
    exact hkept .black rfl id hid
  · obtain ⟨rfl, rfl⟩ := hu
    exact sift_class h.sound.store (hcolor .blackRoot rfl) (hkept .blackRoot rfl) r

/-- **A full cycle of a tidy collector changes nothing** but the number of full cycles. -/
theorem cycle : Collector.cycle.Yields ⟨c, es⟩ fun n u => n = 0 ∧
    u.state = { c with stats := { c.stats with fullCycles := c.stats.fullCycles + 1 } } := by
  obtain ⟨keep, found, hkeepers, hkeep⟩ := h.sound.keepers_spec
  unfold Collector.cycle
  rw [Action.yields_bind, Action.yields_query]
  refine ⟨(keep, found), hkeepers, ?_⟩
  change Action.Yields (gather cycleOrder >>= _) _ _
  rw [Action.yields_bind]
  refine h.gather_yields.mono fun ids m hm => ?_
  obtain ⟨rfl, rfl⟩ := hm
  rw [Action.yields_bind]
  -- the roles are those of a fresh collector already
  refine (resetGeneration_yields (c := (c.withMembers .blackRoot #[]).withMembers .black #[])
    h.generation_eq).mono fun _ m hm => ?_
  rw [hm, Action.yields_bind]
  refine (h.sift_yields hkeep {}).mono fun sifted u hu => ?_
  obtain ⟨rfl, rfl⟩ := hu
  rw [Action.yields_bind, yields_tally, Action.yields_bind, Action.yields_report,
    Action.yields_pure]
  exact ⟨rfl, rfl⟩

end Tidy

/-- **A second full cycle changes nothing.** In every state reached by operations on live arguments
a full cycle can be followed by another one, which answers 0 and leaves everything as the first one
left it: slots with their colors, root counts and positions, all classes and the free list in their
order, the cursor, the generation, the managed objects, and all statistics but the number of full
cycles. -/
theorem Run.cycle_idempotent (created : Collector.create o = .ok c₀)
    (run : Run Op.LiveArgs c₀ past c) (es : Array Event) :
    Collector.cycle.Yields ⟨c, es⟩ fun _ t => Collector.cycle.Yields t fun n u => n = 0 ∧
      u.state =
        { t.state with stats := { t.state.stats with fullCycles := t.state.stats.fullCycles + 1 } } := by
  have h : c.Sound := run.sound (.create created) fun _ _ hargs => hargs
  exact h.cycle.mono fun _ t ht => (ht.tidy h).cycle

/-- A rooted pair holds another one. Of two pairs that nothing reaches one is free and the other one
still has a live color, and the roles are exchanged. -/
theorem cycle_idempotent_mixed : ∃ past c, Run Op.LiveArgs manualTwo past c ∧
    c.generation = .black ∧ c.conses .free = [⟨1⟩] ∧ c.roots = [⟨2⟩] ∧
    Collector.cycle.Yields ⟨c, #[]⟩ fun _ t => Collector.cycle.Yields t fun n u => n = 0 ∧
      u.state =
        { t.state with stats := { t.state.stats with fullCycles := t.state.stats.fullCycles + 1 } } := by
  have first := Run.start.live (.make .nil .nil) (by decide +kernel)
  have second := first.live (.make .nil .nil) (by decide +kernel)
  have unrooted := second.live (.unroot ⟨1⟩) (by decide +kernel)
  have scanned := unrooted.live .step trivial
  have swapped := scanned.live .step trivial
  have third := swapped.live (.make (.pair ⟨0⟩) .nil) (by decide +kernel)
  have unrooted' := third.live (.unroot ⟨0⟩) (by decide +kernel)
  have fourth := unrooted'.live (.make .nil .nil) (by decide +kernel)
  have unrooted'' := fourth.live (.unroot ⟨3⟩) (by decide +kernel)
  exact ⟨_, _, unrooted'', by decide +kernel, by decide +kernel, by decide +kernel,
    Run.cycle_idempotent create_manualTwo unrooted'' #[]⟩

end Collector

end ConsHeap
