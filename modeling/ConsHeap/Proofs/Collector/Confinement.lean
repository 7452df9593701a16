import ConsHeap.Proofs.Collector.Runs

/-!
# Nothing leads outside the pages

Whatever is asked of a collector, and also where a check fails half way, the members of its classes
are slots of its pages: a pair enters a class only after its slot was found, and pages are never
given back. Edges come from the cells that operations are given. They lead to slots, too, as long
as those cells do, and it takes no marking to see this: it holds of free pairs as of live ones.

`Store.Confined exempt n` says both, for stores of at least `n` slots, with edges to exempt pairs
left out of account. Every action on the classes and on the arena keeps it, and so, part by part,
every operation does (`Collector.keeps_perform`):

* `Collector.Reached.member_lt` — with all pairs exempt, the members of classes are slots in every
  state that any operations lead to;
* `Collector.Run.child_lt` — with no pair exempt, all edges lead to slots in every run on live
  arguments. The number `n` is that of the slots before an operation: its arguments are among them.
-/

namespace ConsHeap

/-! ### Stores -/

namespace Store

variable {exempt : PairId → Prop} {n : Nat} {s : Store} {id : PairId} {c d : Color}

theorem mem_of_mem_pop {ids : Array PairId} (h : id ∈ ids.pop) : id ∈ ids := by
  rw [← Array.mem_toList_iff, Array.toList_pop] at h
  exact Array.mem_toList_iff.1 (List.mem_of_mem_dropLast h)

/-- The members of classes are slots, and edges lead to slots or to exempt pairs. There are at least
`n` slots. -/
structure Confined (exempt : PairId → Prop) (n : Nat) (s : Store) : Prop where
  size_le : n ≤ s.arena.totalSlots
  member_lt : ∀ {c id}, id ∈ s.classes.members c → id.index < s.arena.totalSlots
  child_lt : ∀ {id x child}, s.arena.slot? id = some x → child ∈ x.children →
    exempt child ∨ child.index < s.arena.totalSlots

namespace Confined

variable (h : s.Confined exempt n)

include h

/-- What is written to a slot may lead to what it led to before, and to the first `n` slots. -/
theorem modify {f : Slot → Slot} (hf : ∀ x, ∀ child ∈ (f x).children,
    child ∈ x.children ∨ exempt child ∨ child.index < n) :
    (⟨s.arena.modify id f, s.classes⟩ : Store).Confined exempt n where
  size_le := by
    rw [Arena.totalSlots_modify]
    exact h.size_le
  member_lt := fun hid => by
    rw [Arena.totalSlots_modify]
    exact h.member_lt hid
  child_lt := by
    intro j x child hx hchild
    rw [Arena.totalSlots_modify]
    rw [Arena.slot?_modify] at hx
    split at hx
    · obtain ⟨y, hy, rfl⟩ := Option.map_eq_some_iff.1 hx
      rcases hf y child hchild with hold | hexempt | hlt
      · exact h.child_lt hy hold
      · exact .inl hexempt
      · exact .inr (Nat.lt_of_lt_of_le hlt h.size_le)
    · exact h.child_lt hx hchild

/-- The slots do not tell which pairs are in the classes. -/
theorem relist {cs : Classes} (hcs : ∀ c, ∀ id ∈ cs.members c, id.index < s.arena.totalSlots) :
    (⟨s.arena, cs⟩ : Store).Confined exempt n where
  size_le := h.size_le
  member_lt := fun hid => hcs _ _ hid
  child_lt := h.child_lt

/-- A class that only loses members. -/
theorem shrink {f : Array PairId → Array PairId} (hf : ∀ ids, ∀ id ∈ f ids, id ∈ ids) :
    (⟨s.arena, s.classes.modify c f⟩ : Store).Confined exempt n := by
  refine h.relist fun d id hid => ?_
  rw [Classes.members_modify] at hid
  split at hid
  · exact h.member_lt (hf _ _ hid)
  · exact h.member_lt hid

theorem enlist (hid : id.index < s.arena.totalSlots) : (s.enlist c id).Confined exempt n := by
  have hstamped : (⟨s.arena.modify id fun x => { x with color := c, index := s.classes.size c },
      s.classes⟩ : Store).Confined exempt n := h.modify fun _ _ hchild => .inl hchild
  refine hstamped.relist fun d j hj => ?_
  rw [Arena.totalSlots_modify]
  change j ∈ (s.classes.modify c fun ids => ids.push id).members d at hj
  rw [Classes.members_modify] at hj
  split at hj
  · rcases Array.mem_push.1 hj with hold | rfl
    · exact h.member_lt hold
    · exact hid
  · exact h.member_lt hj

theorem delist {i : Nat} : (s.delist c i).Confined exempt n := by
  -- an exchange of members and the loss of the last one, and then a stamp
  have hlost : (⟨s.arena, s.classes.swapRemove c i⟩ : Store).Confined exempt n := by
    refine h.shrink fun ids id hid => ?_
    have hid := mem_of_mem_pop hid
    unfold Array.swapIfInBounds at hid
    split at hid
    · split at hid
      · exact (Array.swap_perm _ _).mem_iff.1 hid
      · exact hid
    · exact hid
  unfold Store.delist patch
  split
  · exact hlost.modify fun _ child hchild => .inl hchild
  · exact hlost

theorem drain : (s.drain c d).2.Confined exempt n := by
  have hfold : ∀ (ids : List PairId) (s : Store), s.Confined exempt n →
      (∀ id ∈ ids, id.index < s.arena.totalSlots) →
      (ids.foldl (fun s id => s.enlist d id) s).Confined exempt n := by
    intro ids
    induction ids with
    | nil => exact fun s hs _ => hs
    | cons id ids ih =>
      intro s hs hids
      refine ih _ (hs.enlist (hids id List.mem_cons_self)) fun j hj => ?_
      change j.index < (s.arena.modify id _).totalSlots
      rw [Arena.totalSlots_modify]
      exact hids j (List.mem_cons_of_mem _ hj)
  rw [drain_eq]
  exact hfold _ _ (h.shrink fun _ _ hid => absurd hid (by simp)) fun id hid =>
    h.member_lt (Array.mem_toList_iff.1 hid)

end Confined

/-! ### Actions on the classes -/

theorem keeps_classAdd : (classAdd id c).Keeps (Confined exempt n) := by
  unfold classAdd
  refine Action.keeps_query_bind fun t x ht hx => ?_
  -- the slot was found, so there is one
  exact ht.enlist (Arena.index_lt_of_slot? (Arena.slot_eq_ok.1 hx))

theorem keeps_add : (add id c).Keeps (Confined exempt n) :=
  Action.keeps_require.bind fun _ => keeps_classAdd

theorem keeps_remove : (remove id).Keeps (Confined exempt n) :=
  Action.keeps_query.bind fun _ =>
    Action.keeps_query.bind fun _ => Action.keeps_require.bind fun _ => Action.keeps_ask.bind fun _ =>
      Action.keeps_require.bind fun _ => Action.keeps_update fun _ hs => hs.delist

theorem keeps_move : (move id c).Keeps (Confined exempt n) :=
  keeps_remove.bind fun _ => keeps_add

theorem keeps_classPop : (classPop c).Keeps (Confined exempt n) := by
  refine Action.keeps_updateGet fun s hs => ?_
  obtain ⟨arena, classes⟩ := s
  dsimp only [Classes.pop]
  cases (classes.members c).back? with
  | none => exact hs
  | some id => exact hs.shrink fun _ _ hid => mem_of_mem_pop hid

theorem keeps_popInto : (popInto c d).Keeps (Confined exempt n) := by
  refine keeps_classPop.bind fun r => ?_
  cases r with
  | none => exact Action.keeps_pure
  | some id => exact keeps_add.bind fun _ => Action.keeps_pure

theorem keeps_moveAll : (moveAll c d).Keeps (Confined exempt n) :=
  Action.keeps_require.bind fun _ => Action.keeps_updateGet fun _ hs => hs.drain

theorem keeps_classTake : (classTake c).Keeps (Confined exempt n) :=
  Action.keeps_updateGet fun _ hs => hs.shrink fun _ _ hid => absurd hid (by simp)

end Store

/-! ### Actions on the arena -/

namespace Arena

variable {exempt : PairId → Prop} {n : Nat} {cs : Classes} {id : PairId}

theorem keeps_recycle :
    (recycle id).Keeps fun a => (⟨a, cs⟩ : Store).Confined exempt n :=
  Action.keeps_query.bind fun _ => Action.keeps_update fun a ha =>
    have hblank : (⟨a.modify id fun _ => {}, cs⟩ : Store).Confined exempt n :=
      ha.modify fun _ _ hchild => absurd hchild List.not_mem_nil
    ⟨hblank.size_le, hblank.member_lt, hblank.child_lt⟩

/-- A new page is blank. -/
theorem confined_addPage {a : Arena} (h : (⟨a, cs⟩ : Store).Confined exempt n) :
    (⟨a.addPage, cs⟩ : Store).Confined exempt n where
  size_le := by
    rw [totalSlots_addPage]
    exact Nat.le_add_right_of_le h.size_le
  member_lt := fun hid => by
    rw [totalSlots_addPage]
    exact Nat.lt_add_right _ (h.member_lt hid)
  child_lt := by
    intro j x child hx hchild
    rw [totalSlots_addPage]
    rw [slot?_addPage] at hx
    split at hx
    · exact (h.child_lt hx hchild).imp id (Nat.lt_add_right _)
    · split at hx
      · obtain rfl := Option.some.inj hx
        exact absurd hchild List.not_mem_nil
      · exact absurd hx (by simp)

theorem keeps_grow : grow.Keeps fun a => (⟨a, cs⟩ : Store).Confined exempt n := by
  refine Action.keeps_ask.bind fun r => ?_
  cases r with
  | some e =>
    exact Action.keeps_report.bind fun _ => Action.keeps_ask.bind fun _ => Action.keeps_pure
  | none =>
    refine Action.Keeps.bind (Action.keeps_update fun _ ha => confined_addPage ha) fun _ => ?_
    exact Action.keeps_ask.bind fun _ => Action.keeps_report.bind fun _ => Action.keeps_pure

/-- Only a new page makes a difference to which slots there are and what they say. -/
theorem keeps_next : next.Keeps fun a => (⟨a, cs⟩ : Store).Confined exempt n := by
  -- the cursor moves, and no slot is written to
  have hcarve : (do return .ok (← Action.updateGet carve) :
      Action Arena (Except HeapError PairId)).Keeps fun a => (⟨a, cs⟩ : Store).Confined exempt n :=
    (Action.keeps_updateGet fun _ ha => ⟨ha.size_le, ha.member_lt, ha.child_lt⟩).bind fun _ =>
      Action.keeps_pure
  unfold next
  refine (Action.keeps_updateGet fun a ha => ?_).bind fun r => ?_
  · unfold reuse
    split
    · exact ha
    · exact ⟨ha.size_le, ha.member_lt, ha.child_lt⟩
  cases r with
  | some id => exact Action.keeps_pure
  | none =>
    refine Action.keeps_ask.bind fun full => ?_
    cases full with
    | false => exact hcarve
    | true =>
      -- a new page, then a slot of it
      refine keeps_grow.bind fun r => ?_
      cases r with
      | ok _ => exact hcarve
      | error e => exact Action.keeps_pure

end Arena

/-! ### The collector -/

namespace Collector

variable {exempt : PairId → Prop} {n : Nat} {c c₀ : Collector} {id child : PairId} {α : Type}
  {o : Options} {past : List Collector}

/-- Nothing in the store leads outside. -/
def Confined (exempt : PairId → Prop) (n : Nat) (c : Collector) : Prop :=
  c.store.Confined exempt n

theorem keeps_onStore {a : Action Store α} (h : a.Keeps (Store.Confined exempt n)) :
    (onStore a).Keeps (Confined exempt n) :=
  Action.Keeps.focus (fun _ _ => h) fun _ => rfl

theorem keeps_onArena {a : Action Arena α}
    (h : ∀ cs, a.Keeps fun arena => (⟨arena, cs⟩ : Store).Confined exempt n) :
    (onArena a).Keeps (Confined exempt n) :=
  Action.Keeps.focus (fun c _ => h c.store.classes) fun _ => rfl

/-- Whatever leaves the store as it is. -/
theorem keeps_update {f : Collector → Collector} (h : ∀ c, (f c).store = c.store) :
    (Action.update f).Keeps (Confined exempt n) :=
  Action.keeps_update fun c hc => by
    unfold Confined
    rw [h]
    exact hc

theorem keeps_flip : Collector.flip.Keeps (Confined exempt n) :=
  keeps_update fun _ => rfl

theorem keeps_resetGeneration : resetGeneration.Keeps (Confined exempt n) :=
  keeps_update fun _ => rfl

theorem keeps_tally {f : Stats → Stats} : (tally f).Keeps (Confined exempt n) :=
  keeps_update fun _ => rfl

theorem keeps_discard {cell : Cell} : (discard cell).Keeps (Confined exempt n) :=
  keeps_update fun _ => rfl

theorem keeps_modifySlot {f : Slot → Slot} (hf : ∀ x, ∀ child ∈ (f x).children,
    child ∈ x.children ∨ exempt child ∨ child.index < n) :
    (modifySlot id f).Keeps (Confined exempt n) :=
  Action.keeps_update fun _ hc => Store.Confined.modify hc hf

/-! ### Marking -/

theorem keeps_greyChild : (greyChild child).Keeps (Confined exempt n) := by
  refine Action.keeps_query.bind fun slot => Action.keeps_require.bind fun _ =>
    Action.keeps_ask.bind fun generation => ?_
  split
  · exact keeps_onStore Store.keeps_move
  · split
    · exact keeps_onStore Store.keeps_move
    · exact Action.keeps_pure

theorem keeps_greyAll (ids : List PairId) : (greyAll ids).Keeps (Confined exempt n) := by
  induction ids with
  | nil => exact Action.keeps_pure
  | cons id ids ih => exact keeps_greyChild.bind fun _ => ih

theorem keeps_greyChildren : (greyChildren id).Keeps (Confined exempt n) :=
  Action.keeps_query.bind fun slot => keeps_greyAll slot.children

theorem keeps_scanFrom {source target : Color} :
    (scanFrom source target).Keeps (Confined exempt n) := by
  refine (keeps_onStore Store.keeps_popInto).bind fun r => ?_
  cases r with
  | none => exact Action.keeps_pure
  | some id =>
    exact keeps_greyChildren.bind fun _ => Action.keeps_report.bind fun _ => Action.keeps_pure

theorem keeps_scanFirst (order : List (Color × Color)) :
    (scanFirst order).Keeps (Confined exempt n) := by
  induction order with
  | nil => exact Action.keeps_pure
  | cons p order ih =>
    refine keeps_scanFrom.bind fun r => ?_
    cases r with
    | none => exact ih
    | some id => exact Action.keeps_pure

theorem keeps_swapGenerations : swapGenerations.Keeps (Confined exempt n) :=
  Action.keeps_ask.bind fun _ => (keeps_onStore Store.keeps_moveAll).bind fun _ =>
    keeps_flip.bind fun _ => keeps_tally.bind fun _ => Action.keeps_report.bind fun _ =>
      Action.keeps_pure

theorem keeps_step : step.Keeps (Confined exempt n) := by
  refine keeps_tally.bind fun _ => Action.keeps_ask.bind fun generation =>
    (keeps_scanFirst _).bind fun r => ?_
  cases r with
  | none => exact keeps_swapGenerations.bind fun _ => Action.keeps_pure
  | some id => exact Action.keeps_pure

theorem keeps_runGarbage : runGarbage.Keeps (Confined exempt n) :=
  Action.keeps_ask.bind fun _ => (keeps_step.bind fun _ => Action.keeps_pure).times _

/-- The induction is on the number of unscanned pairs, as in the definition. -/
theorem keeps_finish : Collector.finish.Keeps (Confined exempt n) := by
  intro t ht
  induction hk : t.state.unscanned using Nat.strongRecOn generalizing t with
  | ind k ih =>
    have hm := keeps_step t ht
    cases hdone : step t with
    | ok r u =>
      rw [Action.ending_of_ok hdone] at hm
      cases r with
      | scanned id =>
        -- a scan: what is left to do is a generation with one pair less
        have hlt := unscanned_step hdone
        have hend : Collector.finish.ending t = Collector.finish.ending u := by
          unfold Action.ending
          rw [finish_of_scanned hdone]
        rw [hend]
        exact ih _ (hk ▸ hlt) u hm rfl
      | swapped disposed =>
        -- the swap is the last step
        rw [Action.ending_of_ok (finish_of_swapped hdone)]
        exact hm
    | error f u =>
      rw [Action.ending_of_error hdone] at hm
      -- a fault ends it where it stands
      rw [Action.ending_of_error (finish_of_error hdone)]
      exact hm

/-! ### Recycling -/

theorem keeps_recycleSlot : (recycleSlot id).Keeps (Confined exempt n) :=
  Action.keeps_query.bind fun _ => (keeps_onArena fun _ => Arena.keeps_recycle).bind fun _ =>
    keeps_discard.bind fun _ => keeps_discard

theorem keeps_recycle : Collector.recycle.Keeps (Confined exempt n) := by
  refine (keeps_onStore Store.keeps_classPop).bind fun r => ?_
  cases r with
  | none => exact Action.keeps_pure
  | some id =>
    exact keeps_recycleSlot.bind fun _ => keeps_tally.bind fun _ =>
      Action.keeps_report.bind fun _ => Action.keeps_pure

theorem keeps_recycleUpTo (k : Nat) : (recycleUpTo k).Keeps (Confined exempt n) := by
  induction k with
  | zero => exact Action.keeps_pure
  | succ k ih =>
    refine keeps_recycle.bind fun r => ?_
    cases r with
    | none => exact Action.keeps_pure
    | some id => exact ih

theorem keeps_runRecycle : runRecycle.Keeps (Confined exempt n) :=
  Action.keeps_ask.bind fun _ => keeps_recycleUpTo _

/-! ### Full cycles -/

theorem keeps_gather (order : List Color) : (gather order).Keeps (Confined exempt n) := by
  induction order with
  | nil => exact Action.keeps_pure
  | cons color order ih =>
    exact (keeps_onStore Store.keeps_classTake).bind fun _ => ih.bind fun _ => Action.keeps_pure

theorem keeps_siftOne {keep : PairId → Bool} : (siftOne keep id).Keeps (Confined exempt n) := by
  refine Action.keeps_query.bind fun slot => ?_
  split
  · exact Action.keeps_ask.bind fun _ => (keeps_onStore Store.keeps_add).bind fun _ =>
      Action.keeps_pure
  · exact keeps_recycleSlot.bind fun _ => Action.keeps_pure

theorem keeps_sift {keep : PairId → Bool} (ids : List PairId) (total : Sifted) :
    (sift keep ids total).Keeps (Confined exempt n) := by
  induction ids generalizing total with
  | nil => exact Action.keeps_pure
  | cons id ids ih => exact keeps_siftOne.bind fun _ => ih _

theorem keeps_cycle : Collector.cycle.Keeps (Confined exempt n) :=
  Action.keeps_query.bind fun _ => (keeps_gather _).bind fun _ =>
    keeps_resetGeneration.bind fun _ => (keeps_sift _ _).bind fun _ =>
      keeps_tally.bind fun _ => Action.keeps_report.bind fun _ => Action.keeps_pure

/-! ### Mutators

Only allocation and writes give cells to a slot, and these are cells of the operation. -/

theorem keeps_settle {car cdr : Cell} (h : ∀ child ∈ car.pair?.toList ++ cdr.pair?.toList,
    exempt child ∨ child.index < n) : (settle id car cdr).Keeps (Confined exempt n) := by
  refine Action.keeps_ask.bind fun _ => (keeps_onStore Store.keeps_add).bind fun _ => ?_
  refine Action.Keeps.bind (keeps_modifySlot fun _ child hchild => .inr (h child hchild)) fun _ => ?_
  exact keeps_greyChildren.bind fun _ => Action.keeps_ask.bind fun _ => keeps_tally.bind fun _ =>
    Action.keeps_report

theorem keeps_make {car cdr : Cell} (h : ∀ child ∈ car.pair?.toList ++ cdr.pair?.toList,
    exempt child ∨ child.index < n) : (make car cdr).Keeps (Confined exempt n) := by
  refine keeps_runRecycle.bind fun _ => (keeps_onArena fun _ => Arena.keeps_next).bind fun r => ?_
  cases r with
  | error e =>
    exact keeps_discard.bind fun _ => keeps_discard.bind fun _ => Action.keeps_pure
  | ok id =>
    exact (keeps_settle h).bind fun _ => keeps_runGarbage.bind fun _ => Action.keeps_pure

theorem keeps_root : (root id).Keeps (Confined exempt n) := by
  refine Action.keeps_query.bind fun _ => Action.keeps_require.bind fun _ =>
    (keeps_onStore Store.keeps_move).bind fun _ => ?_
  refine Action.Keeps.bind (keeps_modifySlot fun _ _ hchild => .inl hchild) fun _ => ?_
  exact keeps_runGarbage.bind fun _ => keeps_runRecycle

theorem keeps_retain : (retain id).Keeps (Confined exempt n) := by
  refine Action.keeps_query.bind fun _ => Action.keeps_require.bind fun _ =>
    Action.keeps_require.bind fun _ => ?_
  exact keeps_modifySlot fun _ _ hchild => .inl hchild

theorem keeps_acquire : (acquire id).Keeps (Confined exempt n) := by
  refine Action.keeps_query.bind fun slot => ?_
  split
  · exact keeps_retain
  · exact keeps_root

theorem keeps_unroot : (unroot id).Keeps (Confined exempt n) := by
  refine Action.keeps_query.bind fun slot => Action.keeps_require.bind fun _ => ?_
  refine Action.Keeps.bind (keeps_modifySlot fun _ _ hchild => .inl hchild) fun _ => ?_
  have hwork : (do runGarbage; runRecycle; return slot.rootCount == 1 :
      Action Collector Bool).Keeps (Confined exempt n) :=
    keeps_runGarbage.bind fun _ => keeps_runRecycle.bind fun _ => Action.keeps_pure
  dsimp only
  split
  · exact (keeps_onStore Store.keeps_move).bind fun _ => hwork
  · exact hwork

theorem keeps_barrier (child? : Option PairId) : (barrier child?).Keeps (Confined exempt n) := by
  cases child? with
  | none => exact Action.keeps_pure
  | some child => exact keeps_greyChild.bind fun _ => keeps_runGarbage

theorem keeps_write {side : Side} {value : Cell}
    (h : ∀ child ∈ value.pair?.toList, exempt child ∨ child.index < n) :
    (write id side value).Keeps (Confined exempt n) := by
  have htarget : (target id).Keeps (Confined exempt n) :=
    Action.keeps_query.bind fun _ => Action.keeps_require.bind fun _ => Action.keeps_pure
  refine (htarget.onFault keeps_discard).bind fun slot => ?_
  refine Action.Keeps.bind (keeps_modifySlot fun x child hchild => ?_) fun _ =>
    keeps_discard.bind fun _ => keeps_barrier _
  -- the cell that was replaced led to what it led to before
  exact (mem_children_set hchild).symm.imp_right (h child)

/-- **Every operation keeps what leads inside inside**, also one that faults, if the pairs that it
names are inside or exempt. -/
theorem keeps_perform {op : Op} (h : ∀ child ∈ op.ids, exempt child ∨ child.index < n) :
    (Collector.perform op).Keeps (Confined exempt n) := by
  cases op with
  | make car cdr =>
    refine (keeps_make h).bind fun r => ?_
    cases r <;> exact Action.keeps_pure
  | root id => exact keeps_root.bind fun _ => Action.keeps_pure
  | retain id => exact keeps_retain.bind fun _ => Action.keeps_pure
  | acquire id => exact keeps_acquire.bind fun _ => Action.keeps_pure
  | unroot id => exact keeps_unroot.bind fun _ => Action.keeps_pure
  | write id side value =>
    exact (keeps_write fun child hchild => h child (List.mem_cons_of_mem _ hchild)).bind fun _ =>
      Action.keeps_pure
  | step => exact keeps_step.bind fun _ => Action.keeps_pure
  | recycle => exact keeps_recycle.bind fun _ => Action.keeps_pure
  | finish => exact keeps_finish.bind fun _ => Action.keeps_pure
  | cycle => exact keeps_cycle.bind fun _ => Action.keeps_pure

/-! ### Runs -/

/-- `c` is reached from `c₀` by operations of any kind, each with some amounts of work. Where one
faults, the others go on from what it left. -/
inductive Reached (c₀ : Collector) : Collector → Prop where
  | start : Reached c₀ c₀
  | perform {c : Collector} (reached : Reached c₀ c) (op : Op) (g r : Nat) (es : Array Event) :
    Reached c₀ ((Collector.perform op).ending ⟨c.paced g r, es⟩)

theorem Confined.create (created : Collector.create o = .ok c) : c.Confined exempt 0 where
  size_le := Nat.zero_le _
  member_lt := fun hid => by
    obtain ⟨i, hi⟩ := Array.mem_iff_getElem?.1 hid
    obtain ⟨-, x, hx, -⟩ := (Sound.create created).store.stamped hi
    exact Arena.index_lt_of_slot? hx
  child_lt := fun {id} _ _ hx => by
    -- there are no slots yet
    have hnone := look_of_create created id
    exact absurd ((Store.look_of_slot? hx).symm.trans hnone) nofun

theorem Reached.confined (created : Collector.create o = .ok c₀) (reached : Reached c₀ c) :
    c.Confined (fun _ => True) 0 := by
  induction reached with
  | start => exact .create created
  | perform _ op g r es ih => exact keeps_perform (fun _ _ => .inl trivial) ⟨_, es⟩ ih

/-- **The members of all classes are slots, whatever was done.** -/
theorem Reached.member_lt (created : Collector.create o = .ok c₀) (reached : Reached c₀ c)
    {color : Color} (hid : id ∈ c.store.classes.members color) : id.index < c.totalSlots :=
  Store.Confined.member_lt (reached.confined created) hid

/-- A run without faults is a case of it. -/
theorem Run.reached {Allowed : Collector → Op → Prop} (run : Run Allowed c₀ past c) :
    Reached c₀ c := by
  induction run with
  | start => exact .start
  | @perform _ c c' op _ es _ g r _ _ done ih =>
    have hend : (Collector.perform op).ending ⟨c.paced g r, es⟩ = c' := Action.ending_of_ok done
    rw [← hend]
    exact .perform ih op g r es

theorem Run.confined (created : Collector.create o = .ok c₀) (run : Run Op.LiveArgs c₀ past c) :
    c.Confined (fun _ => False) 0 := by
  induction run with
  | start => exact .create created
  | @perform _ c c' op _ es _ g r run allowed done ih =>
    -- live pairs have slots before the operation, and slots stay
    have hargs : ∀ j ∈ op.ids, False ∨ j.index < c.totalSlots := by
      intro j hj
      obtain ⟨y, hy, -⟩ := allowed.isLive hj
      exact .inr (Store.index_lt_of_look hy)
    have hstart : (c.paced g r).Confined (fun _ => False) c.totalSlots :=
      ⟨Nat.le_refl _, ih.member_lt, ih.child_lt⟩
    have hend := keeps_perform hargs ⟨c.paced g r, es⟩ hstart
    rw [Action.ending_of_ok done] at hend
    exact ⟨Nat.zero_le _, hend.member_lt, hend.child_lt⟩

/-- **In a run on live arguments all edges lead to slots**, those of free pairs among them. -/
theorem Run.child_lt (created : Collector.create o = .ok c₀) (run : Run Op.LiveArgs c₀ past c)
    {x : Slot} (hx : c.slot id = .ok x) (hchild : child ∈ x.children) :
    child.index < c.totalSlots :=
  ((run.confined created).child_lt (slot?_of_slot hx) hchild).resolve_left not_false

end Collector

end ConsHeap
