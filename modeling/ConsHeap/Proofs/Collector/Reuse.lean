import ConsHeap.Proofs.Collector.Trail

/-!
# Slots that are used again

A slot that was handed out is taken until it is recycled. Marking moves pairs between classes, a
swap disposes of some, and an edit changes what they hold; but a disposed pair keeps its slot, and
so none of them makes a slot vacant. Recycling does, and it is reported. So when an allocation hands
out a slot whose pair was in use at some time before, the pair has been disposed of and recycled
since then, and the events say so.

`Collector.Allocations t₀ ids t` is what is known of the pairs `ids` that were allocated on the way
from `t₀` to `t`. It is kept by ticks and edits, and an allocation adds a pair to the list.
-/

namespace ConsHeap

/-- A swap makes no slot vacant. -/
theorem Generation.afterSwap_eq_void {g : Generation} {d : Color} :
    g.afterSwap d = .void ↔ d = .void := by
  cases g <;> cases d <;> decide

namespace Collector

variable {c c' : Collector} {t t₀ u v : Traced Collector} {id j : PairId} {x y : Slot}
  {target : Color} {kids ids : List PairId} {n : Nat} {f : PairId → Color → Color}

/-! ### Slots that are taken -/

/-- A slot that was handed out, and not recycled since. -/
def IsTaken (c : Collector) (j : PairId) : Prop :=
  ∃ x, c.look j = some x ∧ x.color ≠ .void

theorem IsLive.isTaken (h : c.IsLive j) : c.IsTaken j := by
  obtain ⟨x, hx, hl⟩ := h
  exact ⟨x, hx, Color.ne_void_of_isLive hl⟩

/-- A slot that is about to be handed out is not taken. -/
theorem Allocated.not_isTaken (hs : Allocated t id y kids u) : ¬t.state.IsTaken id := by
  rintro ⟨x, hx, hcolor⟩
  exact hcolor (hs.vacant x hx)

theorem IsTaken.repaint (h : c.IsTaken j) (hs : c.store.Repaints f c'.store)
    (hf : ∀ x, c.look j = some x → (f j x.color = .void ↔ x.color = .void)) : c'.IsTaken j := by
  obtain ⟨x, hx, hcolor⟩ := h
  exact ⟨_, hs.look_of hx, mt (hf x hx).1 hcolor⟩

theorem IsTaken.scan (h : c.IsTaken j) (hs : c.Scanned id x target c') : c'.IsTaken j :=
  h.repaint hs.store fun _ hy => hs.afterScan_eq_iff hy rfl

theorem IsTaken.swap (h : c.IsTaken j) (hs : c.Swapped n c') : c'.IsTaken j :=
  h.repaint hs.store fun _ _ => Generation.afterSwap_eq_void

/-- Of the slots that are taken, recycling makes one vacant. -/
theorem IsTaken.recycle (h : c.IsTaken j) (hs : c.Recycled id x c') (hj : j ≠ id) :
    c'.IsTaken j := by
  obtain ⟨y, hy, hcolor⟩ := h
  exact ⟨y, (hs.look_eq_ite j).trans ((if_neg hj).trans hy), hcolor⟩

theorem IsTaken.edit (h : c.IsTaken j) (he : c.Edited id y kids c') : c'.IsTaken j := by
  by_cases hj : j = id
  · rw [hj]
    exact he.isLive_self.isTaken
  · -- another slot is as it was, or it was greyed
    obtain ⟨x, hx, hcolor⟩ := h
    exact ⟨_, he.look_other hj hx, mt (Generation.shade_eq_iff rfl).1 hcolor⟩

/-! ### Pairs allocated on the way -/

/-- Since `t₀` the pairs `ids` have been allocated, the last one first. The slots of pairs in use at
`t₀` are still taken, or it was reported that they were recycled; and the latter is so for those
that were handed out again. -/
structure Allocations (t₀ : Traced Collector) (ids : List PairId) (t : Traced Collector) :
    Prop where
  allocated : Event.pairs Event.allocated? t.events =
    Event.pairs Event.allocated? t₀.events ++ ids.reverse
  taken : ∀ {j}, t₀.state.IsLive j → Event.recycled j ∈ t.events ∨ t.state.IsTaken j
  recycled : ∀ {j}, j ∈ ids → t₀.state.IsLive j → Event.recycled j ∈ t.events

namespace Allocations

theorem start (t : Traced Collector) : Allocations t [] t where
  allocated := (List.append_nil _).symm
  taken := fun hj => .inr hj.isTaken
  recycled := fun hj => absurd hj List.not_mem_nil

/-- A move that allocates nothing. -/
theorem still (h : Allocations t₀ ids t)
    (hallocated : Event.pairs Event.allocated? u.events = Event.pairs Event.allocated? t.events)
    (hevents : ∀ {e : Event}, e ∈ t.events → e ∈ u.events)
    (htaken : ∀ {j}, t.state.IsTaken j → Event.recycled j ∈ u.events ∨ u.state.IsTaken j) :
    Allocations t₀ ids u where
  allocated := hallocated.trans h.allocated
  taken := fun hj => (h.taken hj).elim (fun he => .inl (hevents he)) htaken
  recycled := fun hj hl => hevents (h.recycled hj hl)

theorem tick (h : Allocations t₀ ids t) (ht : Tick t u) : Allocations t₀ ids u := by
  refine h.still (Ticks.single ht).allocated_eq ht.mem_events fun {j} hj => ?_
  cases ht with
  | scan hs => exact .inr (hj.scan hs)
  | swap hs => exact .inr (hj.swap hs)
  | @recycle id x hs events =>
    by_cases hid : j = id
    · -- the slot is vacant now, and this was reported
      rw [hid, events]
      exact .inl Array.mem_push_self
    · exact .inr (hj.recycle hs hid)
  | count state => exact .inr (state ▸ hj)
  | page _ state => exact .inr (state ▸ hj)

theorem ticks (h : Allocations t₀ ids t) (ht : Ticks t u) : Allocations t₀ ids u := by
  induction ht with
  | refl => exact h
  | tail _ hs ih => exact ih.tick hs

theorem changes (h : Allocations t₀ ids t) (hc : Changes t u) : Allocations t₀ ids u := by
  obtain ⟨id, x, y, kids, t₁, hs, hticks⟩ := hc
  -- the edit comes first, and then the work that it pays for
  have hchanged : Allocations t₀ ids t₁ := by
    refine h.still (by rw [hs.events_eq]) (fun he => ?_) fun hj => .inr (hj.edit hs.edited)
    rw [hs.events_eq]
    exact he
  exact hchanged.ticks hticks

/-- **A slot is handed out that is not taken**, so if its pair was in use, it was recycled. -/
theorem allocate (h : Allocations t₀ ids t) (hs : Allocated t id y kids u) :
    Allocations t₀ (id :: ids) u where
  allocated := by
    rw [hs.events_eq, Event.pairs_push_some rfl, h.allocated, List.reverse_cons, List.append_assoc]
  taken := fun hj => (h.taken hj).imp (hs.mem_events ·) (·.edit hs.edited)
  recycled := by
    intro j hj hl
    apply hs.mem_events
    rcases List.mem_cons.1 hj with rfl | hj
    · -- the pair was in use once, and its slot is not taken any more
      exact (h.taken hl).resolve_right hs.not_isTaken
    · exact h.recycled hj hl

theorem makes (h : Allocations t₀ ids t) (hm : Makes t (.ok id) u) :
    Allocations t₀ (id :: ids) u := by
  obtain ⟨y, kids, t₁, t₂, hbefore, hmade, hafter⟩ := hm
  exact ((h.ticks hbefore).allocate hmade).ticks hafter

end Allocations

end Collector

end ConsHeap
