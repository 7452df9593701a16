import ConsHeap.Proofs.Store.Partition

/-!
# Recoloring pairs

Between two operations the store does one thing only to the pairs in use: it gives some of them
another color. `Store.Repaints s f s'` says that `s'` is `s` with every slot recolored by `f`; the
cells and the root counts are those of before, every slot is in its place again, and the arena keeps
its layout.

* `Store.Sound.move` — one pair goes to another class;
* `Store.Sound.popInto` — the last member of a class does, if there is one;
* `Store.Sound.moveAll` — all members of a class do.

None of them can fail on a sound store, because a pair that carries a color is where it says.
-/

namespace ConsHeap

/-! ### Layouts -/

/-- `b` is laid out like `a`: they differ at most in what is written in their slots. -/
structure Arena.SameLayout (a b : Arena) : Prop where
  pageSize_eq : b.pageSize = a.pageSize
  maxPages_eq : b.maxPages = a.maxPages
  pageCount_eq : b.pageCount = a.pageCount
  cursor_eq : b.cursor = a.cursor
  freeList_eq : b.freeList = a.freeList

namespace Arena.SameLayout

variable {a b c : Arena}

theorem refl (a : Arena) : a.SameLayout a :=
  ⟨rfl, rfl, rfl, rfl, rfl⟩

theorem trans (h : a.SameLayout b) (h' : b.SameLayout c) : a.SameLayout c :=
  ⟨h'.pageSize_eq.trans h.pageSize_eq, h'.maxPages_eq.trans h.maxPages_eq,
    h'.pageCount_eq.trans h.pageCount_eq, h'.cursor_eq.trans h.cursor_eq,
    h'.freeList_eq.trans h.freeList_eq⟩

theorem modify (a : Arena) (id : PairId) (f : Slot → Slot) : a.SameLayout (a.modify id f) :=
  ⟨rfl, rfl, Arena.pageCount_modify, rfl, rfl⟩

theorem totalSlots_eq (h : a.SameLayout b) : b.totalSlots = a.totalSlots := by
  unfold Arena.totalSlots
  rw [h.pageCount_eq, h.pageSize_eq]

/-- What can be handed out is a matter of the layout. -/
theorem voidSlots_eq (h : a.SameLayout b) : b.voidSlots = a.voidSlots := by
  unfold Arena.voidSlots Arena.uncarved
  rw [h.freeList_eq, h.pageCount_eq, h.pageSize_eq, h.cursor_eq]

end Arena.SameLayout

namespace Store

variable {s s' s'' : Store} {loose : List PairId} {id j : PairId} {c d : Color} {x : Slot}
  {es : Array Event} {f g : PairId → Color → Color}

/-! ### The relation -/

/-- `s'` is `s` with every slot recolored by `f`. -/
structure Repaints (s : Store) (f : PairId → Color → Color) (s' : Store) : Prop where
  sound : s'.Sound []
  layout : s.arena.SameLayout s'.arena
  look : ∀ j, s'.look j = (s.look j).map fun x => { x with color := f j x.color }

theorem Repaints.refl (h : s.Sound []) : s.Repaints (fun _ c => c) s where
  sound := h
  layout := .refl _
  look := fun j => by cases s.look j <;> rfl

theorem Repaints.trans (h : s.Repaints f s') (h' : s'.Repaints g s'') :
    s.Repaints (fun j c => g j (f j c)) s'' where
  sound := h'.sound
  layout := h.layout.trans h'.layout
  look := fun j => by
    rw [h'.look, h.look, Option.map_map]
    rfl

/-- Only what a recoloring does to the colors that slots carry matters. -/
theorem Repaints.congr (h : s.Repaints f s')
    (hfg : ∀ j x, s.look j = some x → f j x.color = g j x.color) : s.Repaints g s' where
  sound := h.sound
  layout := h.layout
  look := fun j => by
    rw [h.look]
    cases hj : s.look j with
    | none => rfl
    | some x => simp only [Option.map_some, hfg j x hj]

/-- A slot after a recoloring is a slot of before. -/
theorem Repaints.look_inv (h : s.Repaints f s') (hx : s'.look j = some x) :
    ∃ y, s.look j = some y ∧ x = { y with color := f j y.color } := by
  rw [h.look] at hx
  obtain ⟨y, hy, he⟩ := Option.map_eq_some_iff.1 hx
  exact ⟨y, hy, he.symm⟩

theorem Repaints.look_of (h : s.Repaints f s') (hx : s.look j = some x) :
    s'.look j = some { x with color := f j x.color } := by
  rw [h.look, hx]
  rfl

/-- A slot has a color after a recoloring when that is what its color of before became. -/
theorem Repaints.exists_color (h : s.Repaints f s') (p : Color → Prop) :
    (∃ y, s'.look j = some y ∧ p y.color) ↔ ∃ x, s.look j = some x ∧ p (f j x.color) := by
  constructor
  · rintro ⟨y, hy, hp⟩
    obtain ⟨x, hx, rfl⟩ := h.look_inv hy
    exact ⟨x, hx, hp⟩
  · rintro ⟨x, hx, hp⟩
    exact ⟨_, h.look_of hx, hp⟩

/-! ### Layouts of the changes -/

theorem layout_enlist : s.arena.SameLayout (s.enlist c id).arena :=
  .modify _ _ _

theorem layout_delist {i : Nat} : s.arena.SameLayout (s.delist c i).arena := by
  unfold delist patch
  split
  · exact .modify _ _ _
  · exact .refl _

/-! ### One pair -/

/-- A slot can be put into any class but that of `void`. -/
theorem add_yields (hx : s.slot id = .ok x) (hc : c ≠ .void) :
    (Store.add id c).Yields ⟨s, es⟩ fun _ u => u = ⟨s.enlist c id, es⟩ := by
  unfold Store.add classAdd
  simp only [Action.yields_bind, Action.yields_require, Action.yields_query, Action.yields_update]
  exact ⟨hc, x, hx, trivial⟩

/-- A loose pair can always be added to a class. -/
theorem Sound.add (h : s.Sound (id :: loose)) (hc : c ≠ .void) :
    (Store.add id c).Yields ⟨s, es⟩ fun _ u => u = ⟨s.enlist c id, es⟩ := by
  obtain ⟨y, hy⟩ := Option.isSome_iff_exists.1 (h.loose_slot id List.mem_cons_self).2
  exact add_yields (Arena.slot_eq_ok.2 hy) hc

/-- A pair that carries a color and is not loose can always be taken out of its class. -/
theorem Sound.remove (h : s.Sound loose) (hx : s.look id = some x) (hid : id ∉ loose)
    (hcol : x.color ≠ .void) :
    (Store.remove id).Yields ⟨s, es⟩ fun _ u =>
      u.state.Sound (id :: loose) ∧ s.arena.SameLayout u.state.arena ∧
        (∀ j, u.state.look j = s.look j) ∧ u.events = es := by
  obtain ⟨y, hy, rfl⟩ := look_eq_some.1 hx
  have hslot : s.slot id = .ok y := Arena.slot_eq_ok.2 hy
  have hpos := h.listed hy hid hcol
  unfold Store.remove classRemove
  simp only [Action.yields_bind, Action.yields_require, Action.yields_query, Action.yields_ask,
    Action.yields_update]
  exact ⟨y, hslot, y, hslot, rfl, hpos, h.delist hpos, layout_delist, fun j => look_delist, trivial⟩

/-- **A pair moved to another class.** -/
theorem Sound.move (h : s.Sound []) (hx : s.look id = some x) (hcol : x.color ≠ .void)
    (hc : c ≠ .void) :
    (Store.move id c).Yields ⟨s, es⟩ fun _ u =>
      s.Repaints (fun j d => if j = id then c else d) u.state ∧ u.events = es := by
  unfold Store.move
  rw [Action.yields_bind]
  -- in between, the pair is loose
  refine (h.remove hx List.not_mem_nil hcol).mono fun _ m hm => ?_
  obtain ⟨hsound, hlayout, hlook, hevents⟩ := hm
  refine (hsound.add hc).mono fun _ u hu => ?_
  rw [hu]
  refine ⟨⟨hsound.enlist hc, hlayout.trans layout_enlist, fun j => ?_⟩, hevents⟩
  rw [look_enlist, hlook, hlook]
  by_cases hj : j = id
  · simp only [if_pos hj]
    rw [hj]
  · simp only [if_neg hj]
    cases s.look j <;> rfl

/-! ### The last member of a class -/

/-- The last member of a class is taken out; if there is none, the class is empty. -/
theorem Sound.classPop (h : s.Sound loose) :
    (Store.classPop c).Yields ⟨s, es⟩ fun r u => u.events = es ∧
      match r with
      | none => u.state = s ∧ s.classes.members c = #[]
      | some id => u.state = { s with classes := s.classes.modify c (·.pop) } ∧
          (s.classes.members c).back? = some id ∧ u.state.Sound (id :: loose) := by
  obtain ⟨arena, classes⟩ := s
  unfold Store.classPop
  rw [Action.yields_updateGet]
  dsimp only [Classes.pop]
  cases hb : (classes.members c).back? with
  | none =>
    refine ⟨rfl, rfl, ?_⟩
    rw [Array.back?_eq_getElem?, Array.getElem?_eq_none_iff] at hb
    exact Array.eq_empty_of_size_eq_zero (by omega)
  | some id => exact ⟨rfl, rfl, rfl, h.pop hb⟩

/-- The last member of a class carries the color of the class. -/
theorem Sound.look_back (h : s.Sound loose) (hb : (s.classes.members c).back? = some id) :
    ∃ x, s.look id = some x ∧ x.color = c ∧ c ≠ .void := by
  have hv : c ≠ .void := by
    rintro rfl
    rw [h.void_class] at hb
    exact absurd hb (by simp)
  rw [Array.back?_eq_getElem?] at hb
  obtain ⟨-, x, hx, hc, -⟩ := h.stamped hb
  exact ⟨_, look_of_slot? hx, hc, hv⟩

/-- Nobody carries the color of an empty class. -/
theorem Sound.look_of_empty (h : s.Sound []) (hc : c ≠ .void) (hm : s.classes.members c = #[])
    (hx : s.look id = some x) : x.color ≠ c := by
  intro he
  have hmem := (h.mem_members hc).2 ⟨x, hx, he⟩
  rw [hm] at hmem
  exact absurd hmem (by simp)

/-- **The last member of a class moved to another class**, if the class has one. -/
theorem Sound.popInto (h : s.Sound []) (hc : c ≠ .void) (hd : d ≠ .void) :
    (Store.popInto c d).Yields ⟨s, es⟩ fun r u => u.events = es ∧
      match r with
      | none => u.state = s ∧ ∀ j x, s.look j = some x → x.color ≠ c
      | some id => (∃ x, s.look id = some x ∧ x.color = c) ∧
          s.Repaints (fun j e => if j = id then d else e) u.state := by
  unfold Store.popInto
  rw [Action.yields_bind]
  refine h.classPop.mono fun r m hm => ?_
  obtain ⟨hevents, hm⟩ := hm
  cases r with
  | none =>
    rw [Action.yields_pure]
    exact ⟨hevents, hm.1, fun j x hx => h.look_of_empty hc hm.2 hx⟩
  | some id =>
    obtain ⟨hstate, hback, hsound⟩ := hm
    rw [Action.yields_bind]
    -- a member taken out of a class is loose, so it can be added to the other class
    refine (hsound.add hd).mono fun _ u hu => ?_
    rw [Action.yields_pure, hu]
    obtain ⟨x, hx, hxc, -⟩ := h.look_back hback
    have hlook : ∀ j, m.state.look j = s.look j := fun j => by rw [hstate]; rfl
    refine ⟨hevents, ⟨x, hx, hxc⟩, hsound.enlist hd, ?_, fun j => ?_⟩
    · refine Arena.SameLayout.trans ?_ layout_enlist
      rw [hstate]
      exact .refl _
    · rw [look_enlist, hlook, hlook]
      by_cases hj : j = id
      · simp only [if_pos hj]
        rw [hj]
      · simp only [if_neg hj]
        cases s.look j <;> rfl

/-! ### All members of a class -/

/-- Loose pairs put into one class, one after another. -/
theorem Sound.foldl_enlist (hc : c ≠ .void) (ids : List PairId) (h : s.Sound (ids ++ loose)) :
    (ids.foldl (fun s id => s.enlist c id) s).Sound loose ∧
      s.arena.SameLayout (ids.foldl (fun s id => s.enlist c id) s).arena ∧
      ∀ j, (ids.foldl (fun s id => s.enlist c id) s).look j =
        (s.look j).map fun x => { x with color := if j ∈ ids then c else x.color } := by
  induction ids generalizing s with
  | nil =>
    refine ⟨h, .refl _, fun j => ?_⟩
    cases hj : s.look j with
    | none => simp [hj]
    | some x => simp [hj]
  | cons id ids ih =>
    -- the first pair is put in, and the others are still loose
    obtain ⟨hsound, hlayout, hlook⟩ := ih (Sound.enlist h hc)
    refine ⟨hsound, layout_enlist.trans hlayout, fun j => ?_⟩
    rw [List.foldl_cons, hlook, look_enlist]
    by_cases hj : j = id
    · rw [if_pos hj, Option.map_map, hj]
      congr 1
      funext x
      simp
    · rw [if_neg hj]
      congr 1
      funext x
      simp [hj]

/-- The members are taken out of their class all at once, and put into the other one in order. -/
theorem drain_eq : (s.drain c d).2 = (s.classes.members c).toList.foldl (fun s id => s.enlist d id)
    { s with classes := s.classes.modify c fun _ => #[] } := by
  rw [Array.foldl_toList]
  rfl

/-- **All members of a class moved to another class**; the answer is their number. -/
theorem Sound.moveAll (h : s.Sound []) (hcd : c ≠ d) (hc : c ≠ .void) (hd : d ≠ .void) :
    (Store.moveAll c d).Yields ⟨s, es⟩ fun n u => n = s.size c ∧ u.events = es ∧
      s.Repaints (fun _ e => if e = c then d else e) u.state := by
  unfold Store.moveAll
  simp only [Action.yields_bind, Action.yields_require, Action.yields_updateGet]
  refine ⟨hcd, rfl, trivial, ?_⟩
  -- all members are loose at once, and then each of them is put into the other class
  have htake := h.take (c := c)
  obtain ⟨hsound, hlayout, hlook⟩ := htake.foldl_enlist hd (s.classes.members c).toList
  rw [drain_eq]
  refine ⟨hsound, hlayout, fun j => ?_⟩
  rw [hlook]
  change (s.look j).map _ = _
  cases hj : s.look j with
  | none => rfl
  | some x =>
    have hmem : j ∈ (s.classes.members c).toList ↔ x.color = c := by
      rw [Array.mem_toList_iff, h.mem_members hc, hj]
      simp
    simp only [Option.map_some, hmem]

end Store

end ConsHeap
