import ConsHeap.Proofs.Store.Held

/-!
# One slot overwritten

A mutator changes one slot and leaves all others alone, up to greying. `Store.Overwrites s id y s'`
says that `s'` is `s` with the slot of `id` being `y`, whatever it was before; apart from that there
may be blank slots of a new page. The color of that slot may be part of the change, since a move to
another class before or after the write is absorbed (`Overwrites.recolor`,
`Repaints.overwrites`).

* `Store.Sound.overwrite` — a pair in use is written to;
* `Store.Sound.occupy` — a slot just handed out becomes a pair.
-/

namespace ConsHeap

namespace Store

variable {s s' s'' : Store} {id j : PairId} {x y : Slot} {c : Color} {o : ObjectId}

/-- `s'` is `s` with the slot of `id` being `y`, and possibly some new blank slots. -/
structure Overwrites (s : Store) (id : PairId) (y : Slot) (s' : Store) : Prop where
  sound : s'.Sound []
  pageSize_eq : s'.arena.pageSize = s.arena.pageSize
  maxPages_eq : s'.arena.maxPages = s.arena.maxPages
  self : s'.look id = some y
  other : ∀ {j x}, j ≠ id → s.look j = some x → s'.look j = some x
  fresh : ∀ {j}, j ≠ id → s.look j = none → s'.look j = none ∨ s'.look j = some {}
  /-- A page is added only for a slot that did not exist, and only when no other was vacant. -/
  pages : s'.arena.totalSlots = s.arena.totalSlots ∨
    (s.look id = none ∧ s.arena.voidSlots = [] ∧
      s'.arena.totalSlots = s.arena.totalSlots + s.arena.pageSize)
  /-- The references of the old slot are exchanged for those of the new one. -/
  held : ∀ o, s'.held o + (s.look id).elim 0 (fun x => x.holds o) = s.held o + y.holds o

/-- A slot that is not blank is not vacant. -/
theorem Sound.not_vacant_of_look (h : s.Sound []) (hx : s.look id = some x)
    (hcol : x.color ≠ .void) : id ∉ s.arena.voidSlots := by
  intro hv
  rw [h.look_of_vacant hv] at hx
  obtain rfl := Option.some.inj hx
  exact hcol rfl

/-- **A pair in use is written to**, its color aside. -/
theorem Sound.overwrite (h : s.Sound []) (hx : s.look id = some x) (hcol : x.color ≠ .void)
    {f : Slot → Slot} (hcolor : ∀ x, (f x).color = x.color) (hindex : ∀ x, (f x).index = x.index)
    (hf : ∀ x i, { f x with index := i } = f { x with index := i }) :
    s.Overwrites id (f x) ⟨s.arena.modify id f, s.classes⟩ := by
  -- the slot written to aside, all slots are those of before
  have hlook : ∀ j, (⟨s.arena.modify id f, s.classes⟩ : Store).look j =
      if j = id then (s.look id).map f else s.look j := fun j => look_modify hf
  have hself : (⟨s.arena.modify id f, s.classes⟩ : Store).look id = some (f x) := by
    rw [hlook, if_pos rfl, hx]
    rfl
  constructor
  case sound => exact h.modify (h.not_vacant_of_look hx hcol) hcolor hindex
  case pageSize_eq => rfl
  case maxPages_eq => rfl
  case self => exact hself
  case other =>
    intro j y hj hy
    rw [hlook, if_neg hj, hy]
  case fresh =>
    intro j hj hy
    rw [hlook, if_neg hj, hy]
    exact .inl rfl
  case pages => exact .inl Arena.totalSlots_modify
  case held =>
    intro o
    rw [hx]
    refine h.held_update Arena.totalSlots_modify hx hself (fun j hj => ?_) o
    rw [hlook, if_neg hj]

/-- Recolorings that concern one slot only. -/
theorem Repaints.look_ne (hp : s.Repaints (fun j d => if j = id then c else d) s') (hj : j ≠ id) :
    s'.look j = s.look j := by
  rw [hp.look]
  simp only [if_neg hj]
  exact Option.map_id'

/-- A pair that was written to goes to another class. -/
theorem Overwrites.recolor (h : s.Overwrites id y s')
    (hp : s'.Repaints (fun j d => if j = id then c else d) s'') :
    s.Overwrites id { y with color := c } s'' where
  sound := hp.sound
  pageSize_eq := hp.layout.pageSize_eq.trans h.pageSize_eq
  maxPages_eq := hp.layout.maxPages_eq.trans h.maxPages_eq
  self := by
    rw [hp.look_of h.self, if_pos rfl]
  other := fun hj hx => by
    rw [hp.look_ne hj]
    exact h.other hj hx
  fresh := fun hj hx => by
    rw [hp.look_ne hj]
    exact h.fresh hj hx
  pages := by
    rw [hp.layout.totalSlots_eq]
    exact h.pages
  held := fun o => by
    rw [hp.held_eq]
    exact h.held o

/-- A pair that went to another class is written to. -/
theorem Repaints.overwrites (hp : s.Repaints (fun j d => if j = id then c else d) s')
    (h : s'.Overwrites id y s'') : s.Overwrites id y s'' where
  sound := h.sound
  pageSize_eq := h.pageSize_eq.trans hp.layout.pageSize_eq
  maxPages_eq := h.maxPages_eq.trans hp.layout.maxPages_eq
  self := h.self
  other := fun hj hx => by
    refine h.other hj ?_
    rw [hp.look_ne hj]
    exact hx
  fresh := fun hj hx => by
    refine h.fresh hj ?_
    rw [hp.look_ne hj]
    exact hx
  pages := by
    have hpages := h.pages
    rw [hp.layout.totalSlots_eq, hp.layout.pageSize_eq, hp.layout.voidSlots_eq, hp.look,
      Option.map_eq_none_iff] at hpages
    exact hpages
  held := fun o => by
    have hheld := h.held o
    rw [hp.held_eq, hp.look] at hheld
    rw [← hheld]
    cases s.look id <;> rfl

/-- A slot that is handed out held nothing before. -/
theorem Sound.holds_of_hands (h : s.Sound []) {b : Arena} (hb : s.arena.Hands id b)
    (o : ObjectId) : (s.look id).elim 0 (fun x => x.holds o) = 0 := by
  rcases hb.origin with hv | hnone
  · rw [h.look_of_vacant hv]
    exact Slot.holds_blank o
  · unfold look
    rw [hnone]
    rfl

/-- **A slot just handed out becomes a pair.** It was vacant or did not exist, so that nothing is
lost. -/
theorem Sound.occupy (h : s.Sound []) {b : Arena} (hb : s.arena.Hands id b) (hc : c ≠ .void)
    (car cdr : Cell) (roots : Nat) :
    s.Overwrites id { car, cdr, color := c, rootCount := roots }
      ⟨((⟨b, s.classes⟩ : Store).enlist c id).arena.modify id fun x =>
        { x with rootCount := roots, car, cdr },
        ((⟨b, s.classes⟩ : Store).enlist c id).classes⟩ := by
  have hblank : (⟨b, s.classes⟩ : Store).look id = some {} := look_of_slot? (x := {}) hb.blank
  have hlisted : ((⟨b, s.classes⟩ : Store).enlist c id).Sound [] := (h.hands hb).enlist hc
  have hlook : ((⟨b, s.classes⟩ : Store).enlist c id).look id = some { color := c } := by
    rw [look_enlist, if_pos rfl, hblank]
    rfl
  -- once it is listed, the slot is written to like that of any pair in use
  have hover := hlisted.overwrite (f := fun x => { x with rootCount := roots, car, cdr }) hlook hc
    (fun _ => rfl) (fun _ => rfl) fun _ _ => rfl
  -- the other slots are those of before, or blank ones on a new page
  have hother : ∀ {j}, j ≠ id → ((⟨b, s.classes⟩ : Store).enlist c id).look j = s.look j ∨
      (s.look j = none ∧ ((⟨b, s.classes⟩ : Store).enlist c id).look j = some {}) := by
    intro j hj
    rw [look_enlist, if_neg hj]
    unfold look
    rcases hb.slots j with he | ⟨hnone, he⟩
    · exact .inl (congrArg _ he)
    · refine .inr ⟨by rw [hnone]; rfl, ?_⟩
      rw [show (⟨b, s.classes⟩ : Store).arena.slot? j = _ from he]
      rfl
  -- what was not overwritten is as it was in `s`, or it is a blank slot of a new page
  constructor
  case sound => exact hover.sound
  case pageSize_eq => exact hb.pageSize_eq
  case maxPages_eq => exact hb.maxPages_eq
  case self => exact hover.self
  case other =>
    intro j x hj hx
    rcases hother hj with he | ⟨hnone, -⟩
    · exact hover.other hj (he.trans hx)
    · rw [hx] at hnone
      exact absurd hnone (by simp)
  case fresh =>
    intro j hj hx
    rcases hother hj with he | ⟨-, he⟩
    · exact hover.fresh hj (he.trans hx)
    · exact .inr (hover.other hj he)
  case pages =>
    -- a write adds no slots, so the pages are those of the arena that handed the slot out
    have htotal : ∀ {a : Arena}, a.totalSlots = a.pageCount * a.pageSize := rfl
    have hwritten : (((⟨b, s.classes⟩ : Store).enlist c id).arena.modify id fun x =>
        { x with rootCount := roots, car, cdr }).totalSlots = b.totalSlots :=
      Arena.totalSlots_modify.trans Arena.totalSlots_modify
    rcases hb.pages with hsame | ⟨hfull, hmore⟩
    · left
      rw [hwritten, htotal, htotal, hsame, hb.pageSize_eq]
    · -- nothing was vacant, so the slot handed out is one of the new page
      right
      have hnone : s.arena.slot? id = none :=
        hb.origin.resolve_left fun hv => List.not_mem_nil (hfull ▸ hv)
      refine ⟨by rw [look, hnone]; rfl, hfull, ?_⟩
      rw [hwritten, htotal, htotal, hmore, hb.pageSize_eq, Nat.succ_mul]
  case held =>
    -- neither the slot handed out nor a new page brings any references
    intro o
    have hheld := hover.held o
    rw [hlook, held_enlist, h.held_hands hb o] at hheld
    rw [h.holds_of_hands hb o]
    exact hheld

end Store

end ConsHeap
