import ConsHeap.Proofs.Store.Repaint

/-!
# The order of a class

A recoloring says which pairs a class has, but not in which order. This is kept by every operation
that names other classes: `Store.move_keeps` and `Store.popInto_keeps` say so. A class that takes in
all members of another one has them behind its own, in the order in which they were kept
(`Store.moveAll_appends`).
-/

namespace ConsHeap

namespace Store

variable {s : Store} {id : PairId} {c d e : Color} {x : Slot} {es : Array Event}

theorem members_enlist : (s.enlist c id).classes.members d =
    if d = c then (s.classes.members c).push id else s.classes.members d :=
  Classes.members_modify

/-- Adding a pair to a class keeps the others. -/
theorem add_keeps (hc : d ≠ c) : (Store.add id c).Leaves ⟨s, es⟩ fun _ u =>
    u.state.classes.members d = s.classes.members d := by
  unfold Store.add classAdd
  rw [Action.leaves_bind, Action.leaves_require]
  intro _
  rw [Action.leaves_bind, Action.leaves_query]
  intro _ _
  refine (Action.yields_update.2 ?_).leaves
  rw [members_enlist, if_neg hc]

/-- Taking a pair out of its class keeps the others. -/
theorem remove_keeps (hx : s.slot id = .ok x) (hd : d ≠ x.color) :
    (Store.remove id).Leaves ⟨s, es⟩ fun _ u =>
      u.state.classes.members d = s.classes.members d := by
  unfold Store.remove classRemove
  rw [Action.leaves_bind, Action.leaves_query]
  intro y hy
  obtain rfl := Except.ok.inj (hx.symm.trans hy)
  rw [Action.leaves_bind, Action.leaves_query]
  intro z hz
  rw [Action.leaves_bind, Action.leaves_require]
  intro _
  refine Action.Yields.bind_leaves (Action.yields_ask.2 ?_)
  rw [Action.leaves_bind, Action.leaves_require]
  intro _
  exact (Action.yields_update.2 (members_delist_ne hd)).leaves

/-- A pair that moves changes the class that it leaves and the class that it enters. -/
theorem move_keeps (hx : s.slot id = .ok x) (hd : d ≠ x.color) (hc : d ≠ c) :
    (Store.move id c).Leaves ⟨s, es⟩ fun _ u =>
      u.state.classes.members d = s.classes.members d := by
  unfold Store.move
  rw [Action.leaves_bind]
  exact (remove_keeps hx hd).mono fun _ m hm => (add_keeps hc).mono fun _ u hu => hu.trans hm

theorem popInto_keeps (hc : e ≠ c) (hd : e ≠ d) : (Store.popInto c d).Leaves ⟨s, es⟩ fun _ u =>
    u.state.classes.members e = s.classes.members e := by
  obtain ⟨arena, classes⟩ := s
  unfold Store.popInto classPop
  refine Action.Yields.bind_leaves (Action.yields_updateGet.2 ?_)
  dsimp only [Classes.pop]
  cases (classes.members c).back? with
  | none => exact Action.leaves_pure.2 rfl
  | some last =>
    rw [Action.leaves_bind]
    refine (add_keeps hd).mono fun _ u hu => ?_
    rw [Action.leaves_pure, hu]
    exact Classes.members_modify_ne hc

theorem members_foldl_enlist (ids : List PairId) :
    (ids.foldl (fun s id => s.enlist c id) s).classes.members c =
      s.classes.members c ++ ids.toArray := by
  induction ids generalizing s with
  | nil => simp
  | cons id ids ih =>
    rw [List.foldl_cons, ih, members_enlist, if_pos rfl]
    simp

/-- A class that takes in another one has its members behind its own. -/
theorem moveAll_appends : (Store.moveAll c d).Leaves ⟨s, es⟩ fun _ u =>
    u.state.classes.members d = s.classes.members d ++ s.classes.members c := by
  unfold Store.moveAll
  rw [Action.leaves_bind, Action.leaves_require]
  intro hcd
  refine (Action.yields_updateGet.2 ?_).leaves
  unfold Store.drain Classes.take
  dsimp only
  rw [← Array.foldl_toList, members_foldl_enlist, Classes.members_modify_ne (Ne.symm hcd)]

end Store

end ConsHeap
