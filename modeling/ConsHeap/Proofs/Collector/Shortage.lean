import ConsHeap.Proofs.Collector.Runs
import ConsHeap.Proofs.Collector.Census

/-!
# Allocations without room

An allocation recycles before it asks for a slot, so it may have changed the heap when it finds that
there is none. It has not: recycling leaves a slot vacant whenever it does anything at all, so a
request that is refused after it comes with recycling that did nothing
(`Collector.Recycling.eq_of_full`). A failed allocation is therefore undone by giving its two cells
up, and whether it fails is known beforehand (`Collector.IsFull`).

* `Collector.Sound.make_iff_full` — when an allocation fails, and that nothing has happened then;
* `Collector.Run.make_fails_iff_full` — the same for every state of a run, with the counts of the
  objects that were passed in.
-/

namespace ConsHeap

namespace Collector

variable {c c' c₀ : Collector} {es : Array Event} {past : List Collector} {o : Options}
  {car cdr : Cell}

/-! ### Recycling that does nothing -/

/-- Recycling that did anything has left a slot vacant. -/
theorem Recycling.eq_of_full (hr : c.Recycling c') (hvoid : c'.store.arena.voidSlots = []) :
    c' = c := by
  cases hr with
  | refl => rfl
  | tail _ hs =>
    obtain ⟨_, _, hs⟩ := hs
    exact absurd hvoid hs.voidSlots_ne_nil

/-- Without disposed pairs there is nothing to recycle. -/
theorem Recycling.eq_of_no_free (hr : c.Recycling c')
    (hfree : ∀ j x, c.look j = some x → x.color ≠ .free) : c' = c := by
  rcases Relation.ReflTransGen.cases_head hr with he | ⟨c₁, ⟨id, x, hs⟩, -⟩
  · exact he.symm
  · exact absurd hs.color_eq (hfree id x hs.look_eq)

namespace Sound

theorem voidSlots_eq_nil_iff (h : c.Sound) :
    c.store.arena.voidSlots = [] ↔ c.count .void = 0 := by
  rw [← List.length_eq_zero_iff, h.store.arena.length_voidSlots]
  rfl

/-- An event that finds no disposed pair, or pays for no recycling, recycles nothing. -/
theorem runRecycle_idle (h : c.Sound) : Collector.runRecycle.Yields ⟨c, es⟩ fun _ u =>
    c.count .free = 0 ∨ c.options.recycleSteps = 0 → u.state = c := by
  rcases Nat.eq_zero_or_pos c.options.recycleSteps with hsteps | hsteps
  · unfold Collector.runRecycle recycleUpTo
    rw [Action.yields_bind, Action.yields_ask, hsteps]
    exact Action.yields_pure.2 fun _ => rfl
  · refine h.runRecycle.mono fun _ u hu hidle => ?_
    have hfree : c.count .free = 0 := hidle.resolve_right (Nat.ne_of_gt hsteps)
    exact hu.1.eq_of_no_free (h.count_eq_zero_iff.1 hfree)

end Sound

/-! ### Allocations -/

/-- There is no room for a further pair: no slot is vacant, an allocation will not recycle one, and
a new page would exceed the page limit or the slot numbers. -/
structure IsFull (c : Collector) : Prop where
  void : c.count .void = 0
  free : c.count .free = 0 ∨ c.options.recycleSteps = 0
  pages : (∃ limit, c.options.maxPages = some limit ∧ limit ≤ c.store.arena.pageCount) ∨
    Arena.maxSlots < (c.store.arena.pageCount + 1) * c.options.pageSize

theorem Sound.refusal?_isSome (h : c.Sound) : c.store.arena.refusal?.isSome = true ↔
    (∃ limit, c.options.maxPages = some limit ∧ limit ≤ c.store.arena.pageCount) ∨
      Arena.maxSlots < (c.store.arena.pageCount + 1) * c.options.pageSize := by
  rw [Arena.refusal?_isSome, h.maxPages_eq, h.pageSize_eq]

/-- **An allocation fails exactly when there is no room**, and then all that has happened is that
its cells were given up. -/
theorem Sound.make_iff_full (h : c.Sound)
    (hcells : ∀ child ∈ car.pair?.toList ++ cdr.pair?.toList, c.IsLive child) :
    (Collector.make car cdr).Yields ⟨c, es⟩ fun r u =>
      ((∃ e, r = .error e) ↔ c.IsFull) ∧
        ∀ e, r = .error e → e = .outOfMemory c.store.arena.pageCount c.options.pageSize ∧
          u.state = { c with objects := (c.objects.discard car).discard cdr } := by
  unfold Collector.make
  rw [Action.yields_bind]
  refine (h.runRecycle.and h.runRecycle_idle.leaves).mono fun _ m hm => ?_
  obtain ⟨c₁, es₁⟩ := m
  obtain ⟨⟨hrec, hstocked⟩, hidle⟩ := hm
  have h₁ : c₁.Sound := hrec.upkeep.sound h
  rw [Action.yields_bind, yields_onArena]
  refine (h₁.store.arena.next.and h₁.store.arena.next_eq_error_iff.leaves).mono fun r m hr => ?_
  obtain ⟨b, es₂⟩ := m
  obtain ⟨hr, hiff⟩ := hr
  cases r with
  | error e =>
    -- the arena refused, so the recycling before it did nothing
    obtain ⟨rfl, rfl, hvoid, hrefusal⟩ := hr
    obtain rfl : c₁ = c := hrec.eq_of_full hvoid
    have hfree : c₁.count .free = 0 ∨ c₁.options.recycleSteps = 0 := by
      rcases Nat.eq_zero_or_pos c₁.options.recycleSteps with hsteps | hsteps
      · exact .inr hsteps
      · exact .inl (h.count_eq_zero_iff.2 ((hstocked hsteps).resolve_left fun hne => hne hvoid))
    have hfull : c₁.IsFull :=
      ⟨h.voidSlots_eq_nil_iff.1 hvoid, hfree, h.refusal?_isSome.1 hrefusal⟩
    simp only [Action.yields_bind, yields_discard, Action.yields_pure]
    refine ⟨iff_of_true ⟨_, rfl⟩ hfull, fun e he => ⟨?_, trivial⟩⟩
    rw [← Except.error.inj he, h.pageSize_eq]
  | ok id =>
    -- a full heap would have had nothing to recycle, and the arena would have refused
    have hroom : ¬c.IsFull := by
      intro hfull
      obtain rfl : c₁ = c := hidle hfull.free
      obtain ⟨e, he⟩ :=
        hiff.2 ⟨h.voidSlots_eq_nil_iff.2 hfull.void, h.refusal?_isSome.2 hfull.pages⟩
      exact nomatch he
    -- recycling leaves live pairs alone, so the children still live
    have hcells₁ : ∀ child ∈ car.pair?.toList ++ cdr.pair?.toList, child ≠ id →
        c₁.IsLive child := by
      intro child hchild _
      rw [isLive_iff, hrec.graph_eq, ← isLive_iff]
      exact hcells child hchild
    refine (settled_yields h₁ hr hcells₁ hrec hstocked).mono fun r u hu => ?_
    rw [hu.1]
    exact ⟨iff_of_false nofun hroom, nofun⟩

/-- **Allocations fail exactly when they must, and leave nothing behind.** In a state reached by
operations on live arguments, whatever objects there are besides, an allocation with live children
fails exactly when there is no room. The error tells the pages there are. The collector is then the
one before the call, without the references of the two cells: if every object was counted once for
each field of the heap and each cell outside it, the two included, it is counted so without them. -/
theorem Run.make_fails_iff_full (created : Collector.create o = .ok c₀)
    (run : Run Op.LiveArgs c₀ past c) (args : (Op.make car cdr).LiveArgs c) (os : Objects)
    (es : Array Event) :
    (Collector.make car cdr).Yields ⟨{ c with objects := os }, es⟩ fun r u =>
      ((∃ e, r = .error e) ↔ c.IsFull) ∧
        ∀ e, r = .error e → e = .outOfMemory c.store.arena.pageCount c.options.pageSize ∧
          u.state = { c with objects := (os.discard car).discard cdr } ∧
          ∀ cells : Multiset Cell,
            ({ c with objects := os } : Collector).Balanced (car ::ₘ cdr ::ₘ cells) →
              u.state.Balanced cells := by
  have h : c.Sound := run.sound (.create created) fun _ _ hargs => hargs
  refine ((h.withObjects os).make_iff_full args).mono fun r u hu => ?_
  obtain ⟨hiff, herror⟩ := hu
  -- objects play no part in whether there is room
  refine ⟨hiff.trans ⟨fun hf => ⟨hf.void, hf.free, hf.pages⟩, fun hf => ⟨hf.void, hf.free, hf.pages⟩⟩,
    fun e he => ?_⟩
  obtain ⟨hpages, hstate⟩ := herror e he
  refine ⟨hpages, hstate, fun cells hc => ?_⟩
  rw [hstate]
  exact hc.discard.discard

/-- A collector with one slot. -/
def single : Collector :=
  empty { pageSize := 1, maxPages := some 1 } ⟨by decide, by decide, by decide⟩

/-- The only slot is taken, and a string that is also held elsewhere is passed in. -/
theorem make_fails_iff_full_single : ∃ past c, Run Op.LiveArgs single past c ∧
    (Collector.make (.managed ⟨0⟩) .nil).Yields ⟨{ c with objects := ⟨#[⟨⟨.string, "s"⟩, 2⟩]⟩ }, #[]⟩
      fun r u => r = .error (.outOfMemory 1 1) ∧ u.state.objects.strong ⟨0⟩ = 1 ∧
        u.state.Balanced {.managed ⟨0⟩} := by
  have hsound : single.Sound := .create (o := { pageSize := 1, maxPages := some 1 }) rfl
  have made := Run.start.after hsound (fun _ _ hargs => hargs) (.make .nil .nil) (by decide +kernel)
  refine ⟨_, _, made, ?_⟩
  refine (Run.make_fails_iff_full (o := { pageSize := 1, maxPages := some 1 }) rfl made
    (by decide +kernel) _ #[]).mono fun r u hu => ?_
  obtain ⟨e, he⟩ := hu.1.2 ⟨by decide +kernel, by decide +kernel, .inl ⟨1, rfl, by decide +kernel⟩⟩
  obtain ⟨hpages, hstate, hbalanced⟩ := hu.2 e he
  have hheld : ∀ a, (single.after (.make .nil .nil)).store.held a = 0 := by
    intro a
    have hslot : (single.after (.make .nil .nil)).store.look (.ofNat 0) =
        some { color := .whiteRoot, rootCount := 1 } := by decide +kernel
    unfold Store.held
    rw [show (single.after (.make .nil .nil)).store.arena.totalSlots = 1 by decide +kernel,
      Finset.sum_range_one, hslot]
    simp [Slot.holds_eq]
  refine ⟨by rw [he, hpages]; decide +kernel, by rw [hstate]; rfl, hbalanced _ fun a => ?_⟩
  rw [count_cons, count_cons, ← Multiset.cons_zero, count_cons]
  -- the only object has number zero
  obtain ⟨_ | n⟩ := a <;> simp [hheld, Objects.strong]

end Collector

end ConsHeap
