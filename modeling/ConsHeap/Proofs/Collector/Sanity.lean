import ConsHeap.Proofs.Collector.Census
import ConsHeap.Proofs.Collector.Runs
import ConsHeap.Proofs.Store.Stamps

/-!
# The check of consistency

`Collector.sanity` walks the classes and stops at the first fault. It accepts a collector exactly
when the bookkeeping is `Collector.Consistent` (`sanity_eq_ok`), and a sound collector is consistent
(`Sound.consistent`).

* `Collector.Run.no_fault` — after any run of operations on live arguments the check passes, no
  further such operation faults, and the check passes after it again.
-/

namespace ConsHeap

namespace Collector

variable {c c₀ : Collector} {color : Color} {id child : PairId} {o : Options}
  {past : List Collector} {u : Unit}

/-! ### What the check asks for -/

theorem ensure_eq_ok {p : Prop} [Decidable p] {f : Fault} : ensure p f = .ok u ↔ p := by
  unfold ensure
  split
  · rename_i h
    exact iff_of_true rfl h
  · rename_i h
    exact iff_of_false nofun h

/-- An edge passes when its end is live, and not of the `from` generation if its beginning is
scanned. -/
theorem checkEdge_eq_ok : c.checkEdge id color child = .ok () ↔
    ∃ y, c.slot child = .ok y ∧ y.color.isLive = true ∧
      ¬(c.generation.isTo color = true ∧ c.generation.isFrom y.color = true) := by
  unfold checkEdge
  simp only [except_bind_eq_ok, ensure_eq_ok, exists_const]

/-- A pair passes when its color agrees with its roots and each of its edges passes. -/
theorem checkPair_eq_ok : c.checkPair color id = .ok () ↔
    ∃ x, c.slot id = .ok x ∧ (color.isRoot = true ↔ 0 < x.rootCount) ∧
      ∀ child ∈ x.children, c.checkEdge id color child = .ok () := by
  unfold checkPair
  simp only [except_bind_eq_ok, ensure_eq_ok, except_forM_eq_ok, exists_const]

/-- The bookkeeping as the classes show it: what the check asks for, clause by clause. -/
structure Consistent (c : Collector) : Prop where
  /-- A member of a class carries its color and its position. -/
  stamped : ∀ color i id, (c.store.classes.members color)[i]? = some id →
    ∃ x, c.slot id = .ok x ∧ x.color = color ∧ x.index = i
  /-- Void slots stay with the arena. -/
  void_class : c.store.size .void = 0
  /-- The slots of all colors are all slots. -/
  counted_eq : c.counted = c.totalSlots
  /-- Every live pair has roots as its color says, and edges that are in order. -/
  pairs : ∀ color ∈ Color.live, ∀ id ∈ c.store.classes.members color,
    c.checkPair color id = .ok ()

/-- **The check accepts exactly the consistent collectors.** -/
theorem sanity_eq_ok : c.sanity = .ok () ↔ c.Consistent := by
  unfold sanity
  simp only [except_bind_eq_ok, ensure_eq_ok, except_forM_eq_ok, Store.checkAll_eq_ok,
    Array.mem_toList_iff, exists_const]
  exact ⟨fun ⟨hs, hv, hn, hp⟩ => ⟨hs, hv, hn, hp⟩,
    fun h => ⟨h.stamped, h.void_class, h.counted_eq, h.pairs⟩⟩

/-! ### Sound collectors pass -/

namespace Sound

variable (h : c.Sound)

include h

/-- The counts of all colors add up: together the classes list every slot once. -/
theorem counted_eq : c.counted = c.totalSlots := by
  have hlength := h.census_perm.length_eq
  rw [List.length_map, List.length_range, List.length_flatMap] at hlength
  simp only [h.length_conses] at hlength
  calc c.counted = (Color.all.map c.count).sum := by
        rw [counted, List.sum_eq_foldl, List.foldl_map]
    _ = c.totalSlots := hlength

/-- The clauses of the invariant about one pair are what the check asks of that pair. -/
theorem checkPair (hlive : color.isLive = true) (hid : id ∈ c.store.classes.members color) :
    c.checkPair color id = .ok () := by
  obtain ⟨z, hz, rfl⟩ := (h.store.mem_members (Color.ne_void_of_isLive hlive)).1 hid
  obtain ⟨x, hx, rfl⟩ := slot_of_look hz
  refine checkPair_eq_ok.2 ⟨x, hx, h.rooted hz, fun child hchild => ?_⟩
  -- the child is live since the parent is, and its color is the business of the tricolor clause
  obtain ⟨w, hw, hwl⟩ := h.closed hz hlive hchild
  obtain ⟨y, hy, rfl⟩ := slot_of_look hw
  refine checkEdge_eq_ok.2 ⟨y, hy, hwl, ?_⟩
  rintro ⟨hto, hfrom⟩
  have hnot := h.tricolor hz hto hchild hw
  exact Bool.false_ne_true (hnot.symm.trans hfrom)

theorem consistent : c.Consistent where
  stamped := by
    -- the invariant speaks of slots that exist, the check of slots that can be read
    intro color i id hid
    obtain ⟨-, x, hx, hcolor, hindex⟩ := h.store.stamped hid
    obtain ⟨y, hy, -⟩ := slot_of_look (Store.look_of_slot? hx)
    obtain rfl := Option.some.inj (hx.symm.trans (slot?_of_slot hy))
    exact ⟨x, hy, hcolor, hindex⟩
  void_class := by
    show (c.store.classes.members .void).size = 0
    rw [h.store.void_class]
    rfl
  counted_eq := h.counted_eq
  pairs := fun _ hcolor _ hid => h.checkPair (Color.mem_live.1 hcolor) hid

/-- **A sound collector passes the check.** -/
theorem sanity_eq : c.sanity = .ok () :=
  sanity_eq_ok.2 h.consistent

/-- The vacant slots are some of all slots. -/
theorem available_le : c.store.arena.available ≤ c.totalSlots := by
  rw [← h.counted_eq]
  show c.count .void ≤ c.counted
  simp only [counted, Color.all, List.foldl_cons, List.foldl_nil]
  omega

end Sound

/-! ### Runs -/

/-- **No assertion fires.** After any run of operations on live arguments the check of consistency
passes, the reachable pairs can be computed, and neither the number of slots in use nor the room
left on the newest page is a negative number. Every further operation on live arguments, whatever
work it pays for, ends without a fault, in a state that passes the check again. -/
theorem Run.no_fault (created : Collector.create o = .ok c₀) (run : Run Op.LiveArgs c₀ past c) :
    c.sanity = .ok () ∧ (∃ ids, c.reachable = .ok ids) ∧
      c.store.arena.available ≤ c.totalSlots ∧ c.store.arena.cursor ≤ c.store.arena.pageSize ∧
      ∀ op : Op, op.LiveArgs c → ∀ g r es,
        (Collector.perform op).Yields ⟨c.paced g r, es⟩ fun _ u => u.state.sanity = .ok () := by
  have h : c.Sound := run.sound (.create created) fun _ _ hargs => hargs
  obtain ⟨ids, hids, -⟩ := h.reachable_spec
  -- the invariant gives all but the last part, and it is kept by the further operation
  refine ⟨h.sanity_eq, ⟨ids, hids⟩, h.available_le, h.store.arena.cursor_le, ?_⟩
  intro op hargs g r es
  have hpaced := h.paced g r
  exact (hpaced.perform hargs).mono fun _ _ hu => (hu.sound hpaced).sanity_eq

/-- A scanned pair is held by a younger one, which is then released; the marking and recycling that
this pays for swap the generations and blank its slot. -/
theorem no_fault_released : ∃ past c, Run Op.LiveArgs manualTwo past c ∧ past.length = 3 ∧
    c.sanity = .ok () ∧ (∃ ids, c.reachable = .ok ids) ∧
    c.store.arena.available ≤ c.totalSlots ∧ c.store.arena.cursor ≤ c.store.arena.pageSize ∧
    (Collector.perform (.unroot ⟨1⟩)).Yields ⟨c.paced 4 1, #[]⟩ fun _ u =>
      u.state.sanity = .ok () := by
  have made := Run.start.live (.make .nil (.integer 7)) (by decide +kernel)
  have scanned := made.live .step trivial
  have held := scanned.live (.make (.pair ⟨0⟩) .nil) (by decide +kernel)
  obtain ⟨hsanity, hreachable, havailable, hcursor, hperform⟩ :=
    Run.no_fault create_manualTwo held
  exact ⟨_, _, held, rfl, hsanity, hreachable, havailable, hcursor,
    hperform (.unroot ⟨1⟩) (by decide +kernel) 4 1 #[]⟩

end Collector

end ConsHeap
