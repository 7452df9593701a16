import ConsHeap.Proofs.Arena.Vacancy
import ConsHeap.Store.Basic

/-!
# Every slot is in one place

A slot of a store is vacant, or a member of the class whose color it carries, at the position it
records, or it is *loose*: taken out of its place by an operation that has not yet put it back.
`Store.Sound s loose` says so for a list of loose pairs. Between two operations nothing is loose;
inside one, whatever takes a pair out adds it to the list, and whatever puts one back removes it, so
that each change of the store is a step from one list to another:

* `Store.Sound.delist`, `Store.Sound.pop`, `Store.Sound.take`, `Store.Sound.hands` take pairs out of
  a class or out of the arena;
* `Store.Sound.enlist` and `Store.Sound.retire` put a pair into a class or back into the arena.

What a slot says apart from its position is read by `Store.look`. Only `enlist` and `retire` change
it, and only at the pair that they move.
-/

namespace ConsHeap

/-- The positions of a class whose last member has filled the gap at position `i`. -/
theorem Classes.getElem?_swapRemove {cs : Classes} {c : Color} {i k : Nat}
    (hi : i < (cs.members c).size) :
    ((cs.swapRemove c i).members c)[k]? =
      if k < (cs.members c).size - 1 then
        if k = i then (cs.members c)[(cs.members c).size - 1]? else (cs.members c)[k]?
      else none := by
  rw [swapRemove, members_modify_self, Array.getElem?_pop, Array.size_swapIfInBounds]
  split
  · -- below the new end, the exchange of the two members is only seen at the gap
    rename_i hk
    rw [Array.swapIfInBounds_def, dif_pos hi, dif_pos (by omega), Array.getElem?_swap]
    split
    · rename_i hlast
      omega
    · split
      · rename_i he
        rw [if_pos he.symm, Array.getElem?_eq_getElem (by omega)]
      · rename_i hne
        rw [if_neg (fun he => hne he.symm)]
  · rfl

namespace Store

variable {s : Store} {loose : List PairId} {id j : PairId} {c d : Color} {i : Nat} {x : Slot}

/-! ### Slots without positions -/

/-- What the slot of an id says, apart from its position in a class. -/
def look (s : Store) (id : PairId) : Option Slot :=
  (s.arena.slot? id).map fun x => { x with index := 0 }

theorem look_eq_some : s.look id = some x ↔ ∃ y, s.arena.slot? id = some y ∧
    { y with index := 0 } = x := by
  rw [look, Option.map_eq_some_iff]

theorem look_of_slot? (h : s.arena.slot? id = some x) :
    s.look id = some { x with index := 0 } := by
  rw [look, h]
  rfl

/-! ### The invariant -/

/-- Every slot is vacant, or in the class and at the position that it records, or loose. -/
structure Sound (s : Store) (loose : List PairId) : Prop where
  arena : s.arena.Sound
  void_class : s.classes.members .void = #[]
  loose_nodup : loose.Nodup
  loose_slot : ∀ id ∈ loose, id ∉ s.arena.voidSlots ∧ (s.arena.slot? id).isSome = true
  /-- A member of a class carries its color and its position. -/
  stamped : ∀ {c i id}, (s.classes.members c)[i]? = some id →
    id ∉ loose ∧ ∃ x, s.arena.slot? id = some x ∧ x.color = c ∧ x.index = i
  /-- A slot that carries a color is where it says. -/
  listed : ∀ {id x}, s.arena.slot? id = some x → id ∉ loose → x.color ≠ .void →
    (s.classes.members x.color)[x.index]? = some id
  vacant : ∀ {id x}, s.arena.slot? id = some x → id ∉ loose → x.color = .void →
    id ∈ s.arena.voidSlots

theorem Sound.empty {pageSize : Nat} {maxPages : Option Nat} (h : 0 < pageSize) :
    (⟨Arena.empty pageSize maxPages h, {}⟩ : Store).Sound [] where
  arena := .empty h
  void_class := Classes.members_default _
  loose_nodup := List.nodup_nil
  loose_slot := fun _ hid => absurd hid List.not_mem_nil
  stamped := fun hid => by
    rw [Classes.members_default] at hid
    exact absurd hid (by simp)
  listed := fun hid => by
    rw [Arena.slot?_empty] at hid
    exact absurd hid (by simp)
  vacant := fun hid => by
    rw [Arena.slot?_empty] at hid
    exact absurd hid (by simp)

/-- In which order the loose pairs are listed does not matter. -/
theorem Sound.perm {loose' : List PairId} (h : s.Sound loose) (hperm : loose.Perm loose') :
    s.Sound loose' where
  arena := h.arena
  void_class := h.void_class
  loose_nodup := hperm.nodup_iff.1 h.loose_nodup
  loose_slot := fun id hid => h.loose_slot id (hperm.mem_iff.2 hid)
  stamped := fun hid => by
    rw [← hperm.mem_iff]
    exact h.stamped hid
  listed := fun hx hid => h.listed hx fun hmem => hid (hperm.mem_iff.1 hmem)
  vacant := fun hx hid => h.vacant hx fun hmem => hid (hperm.mem_iff.1 hmem)

/-- A vacant slot is blank. -/
theorem Sound.look_of_vacant (h : s.Sound loose) (hid : id ∈ s.arena.voidSlots) :
    s.look id = some {} :=
  look_of_slot? (h.arena.void_blank id hid)

/-- A void slot is vacant, and so it is blank. -/
theorem Sound.eq_blank (h : s.Sound []) (hx : s.look id = some x) (hc : x.color = .void) :
    x = {} := by
  obtain ⟨y, hy, rfl⟩ := look_eq_some.1 hx
  rw [h.look_of_vacant (h.vacant hy List.not_mem_nil hc)] at hx
  exact (Option.some.inj hx).symm

/-- A vacant slot is in no class. -/
theorem Sound.not_vacant (h : s.Sound loose) (hid : (s.classes.members c)[i]? = some id) :
    id ∉ s.arena.voidSlots := by
  -- a vacant slot is blank, so it would be in the class of `void`, which has no members
  intro hv
  obtain ⟨-, x, hx, hc, -⟩ := h.stamped hid
  rw [h.arena.void_blank id hv] at hx
  obtain rfl := Option.some.inj hx
  rw [← show Color.void = c from hc, h.void_class] at hid
  exact absurd hid (by simp)

/-- A member of a class is not loose, and carries its color, and these are all. -/
theorem Sound.mem_members_iff (h : s.Sound loose) : id ∈ s.classes.members c ↔
    c ≠ .void ∧ id ∉ loose ∧ ∃ x, s.look id = some x ∧ x.color = c := by
  rw [Array.mem_iff_getElem?]
  constructor
  · rintro ⟨i, hi⟩
    obtain ⟨hid, x, hx, hcolor, -⟩ := h.stamped hi
    refine ⟨?_, hid, _, look_of_slot? hx, hcolor⟩
    rintro rfl
    rw [h.void_class] at hi
    exact absurd hi (by simp)
  · rintro ⟨hc, hid, x, hx, hcolor⟩
    obtain ⟨y, hy, rfl⟩ := look_eq_some.1 hx
    obtain rfl : y.color = c := hcolor
    exact ⟨y.index, h.listed hy hid hc⟩

/-- Whoever carries a color, when nothing is loose, is a member of the class. -/
theorem Sound.mem_members (h : s.Sound []) (hc : c ≠ .void) :
    id ∈ s.classes.members c ↔ ∃ x, s.look id = some x ∧ x.color = c := by
  rw [h.mem_members_iff]
  exact ⟨fun ⟨_, _, hx⟩ => hx, fun hx => ⟨hc, List.not_mem_nil, hx⟩⟩

/-- Whoever carries no color, and is not loose, is vacant. -/
theorem Sound.mem_voidSlots (h : s.Sound []) :
    id ∈ s.arena.voidSlots ↔ ∃ x, s.look id = some x ∧ x.color = .void := by
  constructor
  · intro hid
    exact ⟨_, h.look_of_vacant hid, rfl⟩
  · rintro ⟨x, hx, hcol⟩
    obtain ⟨y, hy, rfl⟩ := look_eq_some.1 hx
    exact h.vacant hy List.not_mem_nil hcol

/-- A pair is found at one position of one class only. -/
theorem Sound.position_unique (h : s.Sound loose) {i k : Nat}
    (hi : (s.classes.members c)[i]? = some id) (hk : (s.classes.members d)[k]? = some id) :
    c = d ∧ i = k := by
  obtain ⟨-, x, hx, hxc, hxi⟩ := h.stamped hi
  obtain ⟨-, y, hy, hyd, hyk⟩ := h.stamped hk
  rw [hx] at hy
  obtain rfl := Option.some.inj hy
  exact ⟨hxc.symm.trans hyd, hxi.symm.trans hyk⟩

/-- A class holds no pair twice: a pair at two positions would record both. -/
theorem Sound.nodup_members (h : s.Sound loose) : (s.classes.members c).toList.Nodup := by
  rw [List.nodup_iff_injective_getElem]
  intro i k he
  have hi : (s.classes.members c)[i.1]? = some (s.classes.members c).toList[i.1] := by
    rw [← Array.getElem?_toList, List.getElem?_eq_getElem i.2]
  have hk : (s.classes.members c)[k.1]? = some (s.classes.members c).toList[k.1] := by
    rw [← Array.getElem?_toList, List.getElem?_eq_getElem k.2]
  have hk' : (s.classes.members c)[k.1]? = some (s.classes.members c).toList[i.1] :=
    hk.trans (congrArg some he.symm)
  exact Fin.ext (h.position_unique hi hk').2

/-! ### Putting a pair into a class

The lists of members and the slots are written at one place each, so the clauses about the other
pairs are those of before. -/

theorem slot?_enlist : (s.enlist c id).arena.slot? j =
    if j = id then (s.arena.slot? id).map fun x => { x with color := c, index := s.size c }
    else s.arena.slot? j :=
  Arena.slot?_modify

theorem look_enlist : (s.enlist c id).look j =
    if j = id then (s.look id).map fun x => { x with color := c } else s.look j := by
  rw [look, slot?_enlist]
  split
  · rw [look, Option.map_map, Option.map_map]
    rfl
  · rfl

/-- A loose pair put at the end of a class is in its place. -/
theorem Sound.enlist (h : s.Sound (id :: loose)) (hc : c ≠ .void) :
    (s.enlist c id).Sound loose := by
  obtain ⟨hid, hnodup⟩ := List.nodup_cons.1 h.loose_nodup
  obtain ⟨hvoid, hsome⟩ := h.loose_slot id (List.mem_cons_self)
  obtain ⟨y, hy⟩ := Option.isSome_iff_exists.1 hsome
  have hvs : (s.enlist c id).arena.voidSlots = s.arena.voidSlots := Arena.voidSlots_modify
  have hself : (s.enlist c id).arena.slot? id = some { y with color := c, index := s.size c } := by
    rw [slot?_enlist, if_pos rfl, hy]
    rfl
  have hother : ∀ {j}, j ≠ id → (s.enlist c id).arena.slot? j = s.arena.slot? j :=
    fun hj => by rw [slot?_enlist, if_neg hj]
  have hmem : ∀ d, (s.enlist c id).classes.members d =
      if d = c then (s.classes.members c).push id else s.classes.members d :=
    fun d => Classes.members_modify
  -- the new last member has the color of the class and its position; all others are as before
  constructor
  case arena => exact h.arena.modify hvoid
  case void_class =>
    rw [hmem, if_neg hc.symm]
    exact h.void_class
  case loose_nodup => exact hnodup
  case loose_slot =>
    intro j hj
    have hne : j ≠ id := fun he => hid (he ▸ hj)
    rw [hvs, hother hne]
    exact h.loose_slot j (List.mem_cons_of_mem _ hj)
  case stamped =>
    intro d i j hj
    -- the members of before are those that were not loose, so they are not `id`
    have hold : ∀ {e}, (s.classes.members e)[i]? = some j →
        j ∉ loose ∧ ∃ x, (s.enlist c id).arena.slot? j = some x ∧ x.color = e ∧ x.index = i := by
      intro e he
      obtain ⟨hj, x, hx⟩ := h.stamped he
      rw [List.mem_cons, not_or] at hj
      refine ⟨hj.2, x, ?_⟩
      rw [hother hj.1]
      exact hx
    rw [hmem] at hj
    split at hj
    · rename_i hd
      subst hd
      rw [Array.getElem?_push] at hj
      split at hj
      · -- the new position is that of the pair put in
        rename_i hi
        obtain rfl := Option.some.inj hj
        exact ⟨hid, _, hself, rfl, hi.symm⟩
      · exact hold hj
    · exact hold hj
  case listed =>
    intro j x hx hj hcol
    rw [hmem]
    by_cases hne : j = id
    · -- the pair put in records the position at the end, where it now is
      subst hne
      rw [hself] at hx
      obtain rfl := Option.some.inj hx
      rw [if_pos rfl]
      exact Array.getElem?_push_size
    · rw [hother hne] at hx
      have hpos := h.listed hx (by simp [hne, hj]) hcol
      split
      · rename_i he
        rw [he] at hpos
        -- a position that was taken before is not the new one at the end
        rw [Array.getElem?_push, if_neg]
        · exact hpos
        · exact Nat.ne_of_lt (Array.getElem?_eq_some_iff.1 hpos).1
      · exact hpos
  case vacant =>
    intro j x hx hj hcol
    rw [hvs]
    by_cases hne : j = id
    · -- the pair put in carries the color of its class
      subst hne
      rw [hself] at hx
      obtain rfl := Option.some.inj hx
      exact absurd hcol hc
    · rw [hother hne] at hx
      exact h.vacant hx (by simp [hne, hj]) hcol

/-! ### Taking a pair out of a class -/

theorem slot?_patch : (s.patch c i).arena.slot? j =
    if (s.classes.members c)[i]? = some j then
      (s.arena.slot? j).map fun x => { x with index := i }
    else s.arena.slot? j := by
  unfold patch
  cases hm : (s.classes.members c)[i]? with
  | none => simp
  | some moved =>
    change (s.arena.modify moved _).slot? j = _
    rw [Arena.slot?_modify]
    by_cases hj : j = moved
    · rw [if_pos hj, hj, if_pos rfl]
    · rw [if_neg hj, if_neg fun he => hj (Option.some.inj he).symm]

theorem voidSlots_patch : (s.patch c i).arena.voidSlots = s.arena.voidSlots := by
  unfold patch
  split
  · exact Arena.voidSlots_modify
  · rfl

theorem look_delist : (s.delist c i).look j = s.look j := by
  rw [look, delist, slot?_patch]
  split
  · rw [Option.map_map]
    rfl
  · rfl

theorem voidSlots_delist : (s.delist c i).arena.voidSlots = s.arena.voidSlots :=
  voidSlots_patch

theorem members_delist_ne (hd : d ≠ c) :
    (s.delist c i).classes.members d = s.classes.members d := by
  rw [delist, classes_patch]
  exact Classes.members_modify_ne hd

/-- The last member of the class moves to the position of the one taken out. -/
theorem getElem?_members_delist (hi : i < (s.classes.members c).size) {k : Nat} :
    ((s.delist c i).classes.members c)[k]? =
      if k < (s.classes.members c).size - 1 then
        if k = i then (s.classes.members c)[(s.classes.members c).size - 1]?
        else (s.classes.members c)[k]?
      else none := by
  rw [delist, classes_patch]
  exact Classes.getElem?_swapRemove hi

/-- Only the slot of the last member is written, and only if that member has to move. -/
theorem slot?_delist (hi : i < (s.classes.members c).size) :
    (s.delist c i).arena.slot? j =
      if i < (s.classes.members c).size - 1 ∧
          (s.classes.members c)[(s.classes.members c).size - 1]? = some j then
        (s.arena.slot? j).map fun x => { x with index := i }
      else s.arena.slot? j := by
  rw [delist, slot?_patch]
  change (if ((s.classes.swapRemove c i).members c)[i]? = some j then _ else _) = _
  rw [Classes.getElem?_swapRemove hi, if_pos rfl]
  by_cases hlast : i < (s.classes.members c).size - 1
  · simp only [hlast, if_true, true_and]
  · -- the member taken out was the last one itself
    simp only [hlast, if_false, false_and]
    rfl

/-- The slot written to is the slot of a member, so it is not vacant. -/
theorem Sound.arena_delist (h : s.Sound loose) (hi : i < (s.classes.members c).size) :
    (s.delist c i).arena.Sound := by
  unfold Store.delist patch
  split
  · rename_i moved hmoved
    refine h.arena.modify ?_
    change ((s.classes.swapRemove c i).members c)[i]? = some moved at hmoved
    rw [Classes.getElem?_swapRemove hi, if_pos rfl] at hmoved
    split at hmoved
    · exact h.not_vacant hmoved
    · exact absurd hmoved (by simp)
  · exact h.arena

/-- A member after the removal is a member of before, other than the one taken out. It has kept its
position, or it was last and has been told its new one. -/
theorem Sound.stamped_delist (h : s.Sound loose) (hid : (s.classes.members c)[i]? = some id)
    {k : Nat} (hj : ((s.delist c i).classes.members d)[k]? = some j) :
    j ∉ id :: loose ∧ ∃ x, (s.delist c i).arena.slot? j = some x ∧ x.color = d ∧ x.index = k := by
  have hi : i < (s.classes.members c).size := (Array.getElem?_eq_some_iff.1 hid).1
  -- in the class of the pair one member may have moved into the gap
  by_cases hd : d = c
  · subst hd
    rw [getElem?_members_delist hi] at hj
    split at hj
    · rename_i hk
      by_cases hki : k = i
      · -- the gap is filled by the member that was last
        rw [if_pos hki] at hj
        obtain ⟨hjl, y, hy, hyc, -⟩ := h.stamped hj
        have hne : j ≠ id := by
          rintro rfl
          have hpos := (h.position_unique hj hid).2
          omega
        refine ⟨List.not_mem_cons_of_ne_of_not_mem hne hjl, { y with index := i }, ?_, hyc,
          hki.symm⟩
        rw [slot?_delist hi, if_pos ⟨by omega, hj⟩, hy]
        rfl
      · -- any other member stays where it was, so it is not the one that moved
        rw [if_neg hki] at hj
        obtain ⟨hjl, y, hy, hyc, hyk⟩ := h.stamped hj
        have hne : j ≠ id := by
          rintro rfl
          exact hki (h.position_unique hj hid).2
        refine ⟨List.not_mem_cons_of_ne_of_not_mem hne hjl, y, ?_, hyc, hyk⟩
        rw [slot?_delist hi, if_neg, hy]
        rintro ⟨-, hlast⟩
        have hpos := (h.position_unique hj hlast).2
        omega
    · exact absurd hj (by simp)
  · -- no other class has changed, and the member that moved is in none of them
    rw [members_delist_ne hd] at hj
    obtain ⟨hjl, y, hy, hyd, hyk⟩ := h.stamped hj
    have hne : j ≠ id := by
      rintro rfl
      exact hd (h.position_unique hj hid).1
    refine ⟨List.not_mem_cons_of_ne_of_not_mem hne hjl, y, ?_, hyd, hyk⟩
    rw [slot?_delist hi, if_neg, hy]
    rintro ⟨-, hlast⟩
    exact hd (h.position_unique hj hlast).1

theorem Sound.listed_delist (h : s.Sound loose) (hid : (s.classes.members c)[i]? = some id)
    (hx : (s.delist c i).arena.slot? j = some x) (hne : j ≠ id) (hj : j ∉ loose)
    (hcol : x.color ≠ .void) :
    ((s.delist c i).classes.members x.color)[x.index]? = some j := by
  have hi : i < (s.classes.members c).size := (Array.getElem?_eq_some_iff.1 hid).1
  rw [slot?_delist hi] at hx
  split at hx
  · -- the member that was last stands where the gap was
    rename_i hmoved
    obtain ⟨z, hz, rfl⟩ := Option.map_eq_some_iff.1 hx
    obtain ⟨-, w, hw, hwc, -⟩ := h.stamped hmoved.2
    rw [hz] at hw
    obtain rfl := Option.some.inj hw
    change ((s.delist c i).classes.members z.color)[i]? = _
    rw [hwc, getElem?_members_delist hi, if_pos hmoved.1, if_pos rfl]
    exact hmoved.2
  · rename_i hmoved
    have hpos := h.listed hx hj hcol
    by_cases hc : x.color = c
    · -- another member of the class keeps a position that is neither the gap nor the last
      rw [hc] at hpos ⊢
      have hlt : x.index < (s.classes.members c).size := (Array.getElem?_eq_some_iff.1 hpos).1
      have hxi : x.index ≠ i := by
        intro he
        rw [he, hid] at hpos
        exact hne (Option.some.inj hpos).symm
      have hxl : x.index ≠ (s.classes.members c).size - 1 := by
        intro he
        rw [he] at hpos
        exact hmoved ⟨by omega, hpos⟩
      rw [getElem?_members_delist hi, if_pos (by omega), if_neg hxi]
      exact hpos
    · rw [members_delist_ne hc]
      exact hpos

/-- The member at a position taken out. The last member fills the gap and is told its new position;
the others keep theirs. -/
theorem Sound.delist (h : s.Sound loose) (hid : (s.classes.members c)[i]? = some id) :
    (s.delist c i).Sound (id :: loose) := by
  have hi : i < (s.classes.members c).size := (Array.getElem?_eq_some_iff.1 hid).1
  obtain ⟨hloose, x, hx, -⟩ := h.stamped hid
  -- a slot may be written to, but none goes away
  have hsome : ∀ {j}, (s.arena.slot? j).isSome = true →
      ((s.delist c i).arena.slot? j).isSome = true := by
    intro j hj
    rw [slot?_delist hi]
    split
    · rwa [Option.isSome_map]
    · exact hj
  constructor
  case arena => exact h.arena_delist hi
  case void_class =>
    -- the class of `void` has no member that could be taken out
    have hc : Color.void ≠ c := by
      rintro rfl
      rw [h.void_class] at hi
      exact absurd hi (by simp)
    rw [members_delist_ne hc]
    exact h.void_class
  case loose_nodup => exact List.nodup_cons.2 ⟨hloose, h.loose_nodup⟩
  case loose_slot =>
    intro j hj
    -- the pair taken out is the new loose one
    rw [voidSlots_delist]
    rcases List.mem_cons.1 hj with rfl | hj
    · exact ⟨h.not_vacant hid, hsome (by rw [hx]; rfl)⟩
    · exact ⟨(h.loose_slot j hj).1, hsome (h.loose_slot j hj).2⟩
  case stamped =>
    intro d k j hj
    exact h.stamped_delist hid hj
  case listed =>
    -- what is in its place now was not taken out
    intro j y hy hj hcol
    rw [List.mem_cons, not_or] at hj
    exact h.listed_delist hid hy hj.1 hj.2 hcol
  case vacant =>
    intro j y hy hj hcol
    rw [List.mem_cons, not_or] at hj
    rw [voidSlots_delist]
    rw [slot?_delist hi] at hy
    split at hy
    · -- the write has kept the color
      obtain ⟨z, hz, rfl⟩ := Option.map_eq_some_iff.1 hy
      exact h.vacant hz hj.2 hcol
    · exact h.vacant hy hj.2 hcol

/-! ### Taking out several members whose positions nobody else needs -/

/-- Members taken out of the classes become loose, provided that all others keep their positions. -/
theorem Sound.unlist (h : s.Sound loose) {cs : Classes} {out : List PairId} (hnodup : out.Nodup)
    (hout : ∀ j ∈ out, ∃ (c : Color) (i : Nat), (s.classes.members c)[i]? = some j)
    (hrest : ∀ {d : Color} {i : Nat} {j : PairId}, (cs.members d)[i]? = some j ↔
      (s.classes.members d)[i]? = some j ∧ j ∉ out) :
    ({ s with classes := cs } : Store).Sound (out ++ loose) := by
  constructor
  case arena => exact h.arena
  case void_class =>
    -- a member that is left was a member before, and `void` had none
    refine Array.eq_empty_iff_forall_not_mem.2 fun j hj => ?_
    obtain ⟨i, hi⟩ := Array.mem_iff_getElem?.1 hj
    have hold := (hrest.1 hi).1
    rw [h.void_class] at hold
    exact absurd hold (by simp)
  case loose_nodup =>
    -- a member is not loose, so the two lists have nothing in common
    refine List.nodup_append'.2 ⟨hnodup, h.loose_nodup, fun j hj => ?_⟩
    obtain ⟨c, i, hi⟩ := hout j hj
    exact (h.stamped hi).1
  case loose_slot =>
    intro j hj
    rcases List.mem_append.1 hj with hj | hj
    · obtain ⟨c, i, hi⟩ := hout j hj
      obtain ⟨-, x, hx, -⟩ := h.stamped hi
      exact ⟨h.not_vacant hi, by rw [hx]; rfl⟩
    · exact h.loose_slot j hj
  case stamped =>
    intro d i j hj
    -- whoever is left keeps its position, and nobody has written to its slot
    obtain ⟨hold, hj⟩ := hrest.1 hj
    obtain ⟨hjl, hx⟩ := h.stamped hold
    exact ⟨by simp [hj, hjl], hx⟩
  case listed =>
    intro j x hx hj hcol
    rw [List.mem_append, not_or] at hj
    exact hrest.2 ⟨h.listed hx hj.2 hcol, hj.1⟩
  case vacant =>
    intro j x hx hj hcol
    rw [List.mem_append, not_or] at hj
    exact h.vacant hx hj.2 hcol

/-- The last member of a class taken out. -/
theorem Sound.pop (h : s.Sound loose) (hid : (s.classes.members c).back? = some id) :
    ({ s with classes := s.classes.modify c (·.pop) } : Store).Sound (id :: loose) := by
  rw [Array.back?_eq_getElem?] at hid
  refine h.unlist (List.nodup_singleton id) (fun j hj => ?_) fun {d i j} => ?_
  · rw [List.mem_singleton] at hj
    exact ⟨c, _, hj ▸ hid⟩
  · rw [List.mem_singleton, Classes.members_modify]
    by_cases hd : d = c
    · subst hd
      rw [if_pos rfl, Array.getElem?_pop]
      -- the last position is given up, and the others are as they were
      constructor
      · intro hj
        split at hj
        · refine ⟨hj, fun he => ?_⟩
          have := (h.position_unique hj (he ▸ hid)).2
          omega
        · exact absurd hj (by simp)
      · rintro ⟨hj, hne⟩
        have hlt := (Array.getElem?_eq_some_iff.1 hj).1
        rw [if_pos]
        · exact hj
        · refine Nat.lt_of_le_of_ne (by omega) fun he => hne ?_
          rw [he, hid] at hj
          exact (Option.some.inj hj).symm
    · -- whoever is in another class is not the pair taken out
      rw [if_neg hd]
      refine ⟨fun hj => ⟨hj, fun he => ?_⟩, And.left⟩
      exact hd (h.position_unique hj (he ▸ hid)).1

/-- All members of a class taken out. -/
theorem Sound.take (h : s.Sound loose) :
    ({ s with classes := s.classes.modify c fun _ => #[] } : Store).Sound
      ((s.classes.members c).toList ++ loose) := by
  refine h.unlist h.nodup_members (fun j hj => ?_) fun {d i j} => ?_
  · obtain ⟨i, hi⟩ := List.mem_iff_getElem?.1 hj
    exact ⟨c, i, by rwa [← Array.getElem?_toList]⟩
  · rw [Classes.members_modify]
    by_cases hd : d = c
    · -- the class is empty now, and all its members are out
      subst hd
      rw [if_pos rfl]
      refine ⟨fun hj => absurd hj (by simp), fun ⟨hj, hout⟩ => absurd ?_ hout⟩
      exact Array.mem_toList_iff.2 (Array.mem_iff_getElem?.2 ⟨i, hj⟩)
    · rw [if_neg hd]
      refine ⟨fun hj => ⟨hj, fun hout => ?_⟩, And.left⟩
      obtain ⟨k, hk⟩ := Array.mem_iff_getElem?.1 (Array.mem_toList_iff.1 hout)
      exact hd (h.position_unique hj hk).1

/-! ### Giving slots to the arena and getting them from it -/

/-- A loose pair goes back to the arena. -/
theorem Sound.retire (h : s.Sound (id :: loose)) :
    (⟨s.arena.retire id, s.classes⟩ : Store).Sound loose := by
  obtain ⟨hid, hnodup⟩ := List.nodup_cons.1 h.loose_nodup
  obtain ⟨hvoid, hsome⟩ := h.loose_slot id List.mem_cons_self
  have hother : ∀ {j}, j ≠ id → (s.arena.retire id).slot? j = s.arena.slot? j :=
    fun hj => by rw [Arena.slot?_retire, if_neg hj]
  -- the pair is not loose any more: its slot is blank, and vacant
  constructor
  case arena => exact h.arena.retire hvoid hsome
  case void_class => exact h.void_class
  case loose_nodup => exact hnodup
  case loose_slot =>
    intro j hj
    have hne : j ≠ id := fun he => hid (he ▸ hj)
    obtain ⟨hjv, hjs⟩ := h.loose_slot j (List.mem_cons_of_mem _ hj)
    rw [Arena.mem_voidSlots_retire, hother hne]
    exact ⟨by simp [hne, hjv], hjs⟩
  case stamped =>
    intro d i j hj
    -- a member is not loose, so it is not the slot taken back
    obtain ⟨hjl, x, hx⟩ := h.stamped hj
    rw [List.mem_cons, not_or] at hjl
    refine ⟨hjl.2, x, ?_⟩
    rw [hother hjl.1]
    exact hx
  case listed =>
    intro j x hx hj hcol
    by_cases hne : j = id
    · -- the slot taken back is blank, so it carries no color
      rw [Arena.slot?_retire, if_pos hne] at hx
      obtain ⟨y, -, rfl⟩ := Option.map_eq_some_iff.1 hx
      exact absurd rfl hcol
    · rw [hother hne] at hx
      exact h.listed hx (by simp [hne, hj]) hcol
  case vacant =>
    intro j x hx hj hcol
    rw [Arena.mem_voidSlots_retire]
    by_cases hne : j = id
    · exact Or.inl hne
    · rw [hother hne] at hx
      exact Or.inr (h.vacant hx (by simp [hne, hj]) hcol)

/-- A slot that the arena hands out is loose until it is put into a class. -/
theorem Sound.hands (h : s.Sound loose) {b : Arena} (hb : s.arena.Hands id b) :
    (⟨b, s.classes⟩ : Store).Sound (id :: loose) := by
  -- what existed before is as it was
  have hkeep : ∀ {j}, (s.arena.slot? j).isSome = true → b.slot? j = s.arena.slot? j := by
    intro j hj
    rcases hb.slots j with he | ⟨hnone, -⟩
    · exact he
    · rw [hnone] at hj
      exact absurd hj (by simp)
  -- the slot handed out was vacant or did not exist, so nobody holds it
  have hfree : ∀ {j}, j ∉ s.arena.voidSlots → (s.arena.slot? j).isSome = true → j ≠ id := by
    rintro j hj hsome rfl
    rcases hb.origin with hv | hnone
    · exact hj hv
    · rw [hnone] at hsome
      exact absurd hsome (by simp)
  have hloose : ∀ {j}, j ∈ loose → j ≠ id :=
    fun hj => hfree (h.loose_slot _ hj).1 (h.loose_slot _ hj).2
  constructor
  case arena => exact hb.sound
  case void_class => exact h.void_class
  case loose_nodup => exact List.nodup_cons.2 ⟨fun hid => hloose hid rfl, h.loose_nodup⟩
  case loose_slot =>
    intro j hj
    rcases List.mem_cons.1 hj with rfl | hj
    · -- the slot handed out is not vacant any more
      rw [hb.vacant, hb.blank]
      exact ⟨fun hv => hv.1 rfl, rfl⟩
    · obtain ⟨hjv, hjs⟩ := h.loose_slot j hj
      rw [hb.vacant, hkeep hjs]
      refine ⟨?_, hjs⟩
      rintro ⟨-, hv | ⟨hnone, -⟩⟩
      · exact hjv hv
      · rw [hnone] at hjs
        exact absurd hjs (by simp)
  case stamped =>
    -- a member existed and was not vacant, so it is not the slot handed out
    intro d i j hj
    obtain ⟨hjl, x, hx, hst⟩ := h.stamped hj
    have hsome : (s.arena.slot? j).isSome = true := by rw [hx]; rfl
    have hne : j ≠ id := hfree (h.not_vacant hj) hsome
    have hsame : b.slot? j = some x := (hkeep hsome).trans hx
    exact ⟨List.not_mem_cons_of_ne_of_not_mem hne hjl, x, hsame, hst⟩
  case listed =>
    intro j x hx hj hcol
    rw [List.mem_cons, not_or] at hj
    rcases hb.slots j with he | ⟨-, hblank⟩
    · rw [he] at hx
      exact h.listed hx hj.2 hcol
    · -- a slot of a new page is blank, so it carries no color
      rw [show b.slot? j = some x from hx] at hblank
      obtain rfl := Option.some.inj hblank
      exact absurd rfl hcol
  case vacant =>
    intro j x hx hj hcol
    rw [List.mem_cons, not_or] at hj
    refine (hb.vacant j).2 ⟨hj.1, ?_⟩
    rcases hb.slots j with he | ⟨hnone, hblank⟩
    · rw [he] at hx
      exact Or.inl (h.vacant hx hj.2 hcol)
    · -- a slot of a new page is vacant from the start
      exact Or.inr ⟨hnone, by rw [hblank]; rfl⟩

/-! ### Writing to a slot -/

theorem look_modify {f : Slot → Slot} (hf : ∀ x i, { f x with index := i } =
    f { x with index := i }) :
    (⟨s.arena.modify id f, s.classes⟩ : Store).look j =
      if j = id then (s.look id).map f else s.look j := by
  rw [look, Arena.slot?_modify]
  split
  · rw [look, Option.map_map, Option.map_map]
    congr 1
    funext x
    exact hf x 0
  · rfl

/-- A write that keeps the color and the position of a pair in use keeps every slot in its place. -/
theorem Sound.modify (h : s.Sound loose) {f : Slot → Slot} (hid : id ∉ s.arena.voidSlots)
    (hcolor : ∀ x, (f x).color = x.color) (hindex : ∀ x, (f x).index = x.index) :
    (⟨s.arena.modify id f, s.classes⟩ : Store).Sound loose := by
  -- color and position can be read off the slots of before
  have hslot : ∀ {j y}, (s.arena.modify id f).slot? j = some y →
      ∃ x, s.arena.slot? j = some x ∧ y.color = x.color ∧ y.index = x.index := by
    intro j y hy
    rw [Arena.slot?_modify] at hy
    split at hy
    · rename_i he
      obtain ⟨x, hx, rfl⟩ := Option.map_eq_some_iff.1 hy
      exact ⟨x, he ▸ hx, hcolor x, hindex x⟩
    · exact ⟨y, hy, rfl, rfl⟩
  constructor
  case arena => exact h.arena.modify hid
  case void_class => exact h.void_class
  case loose_nodup => exact h.loose_nodup
  case loose_slot =>
    intro j hj
    obtain ⟨hjv, hjs⟩ := h.loose_slot j hj
    rw [Arena.voidSlots_modify, Arena.slot?_modify]
    refine ⟨hjv, ?_⟩
    split
    · -- a slot that is written to still exists
      rename_i he
      rw [Option.isSome_map, ← he]
      exact hjs
    · exact hjs
  case stamped =>
    intro d i j hj
    obtain ⟨hjl, x, hx, hst⟩ := h.stamped hj
    rw [Arena.slot?_modify]
    split
    · rename_i he
      rw [← he, hx]
      exact ⟨hjl, f x, rfl, (hcolor x).trans hst.1, (hindex x).trans hst.2⟩
    · exact ⟨hjl, x, hx, hst⟩
  case listed =>
    intro j y hy hj hcol
    -- the position that counts is the one before the write
    obtain ⟨x, hx, hyc, hyi⟩ := hslot hy
    rw [hyc] at hcol ⊢
    rw [hyi]
    exact h.listed hx hj hcol
  case vacant =>
    intro j y hy hj hcol
    obtain ⟨x, hx, hyc, -⟩ := hslot hy
    rw [Arena.voidSlots_modify]
    exact h.vacant hx hj (hyc.symm.trans hcol)

/-- Whatever is written to the slot of a loose pair, no other slot says so. -/
theorem Sound.modify_loose (h : s.Sound loose) (hid : id ∈ loose) {f : Slot → Slot} :
    (⟨s.arena.modify id f, s.classes⟩ : Store).Sound loose := by
  have hother : ∀ {j}, j ∉ loose → (s.arena.modify id f).slot? j = s.arena.slot? j :=
    fun hj => Arena.slot?_modify_ne fun he => hj (he ▸ hid)
  -- the clauses on members and on vacant slots do not speak of loose pairs
  constructor
  case arena => exact h.arena.modify (h.loose_slot id hid).1
  case void_class => exact h.void_class
  case loose_nodup => exact h.loose_nodup
  case loose_slot =>
    intro j hj
    rw [Arena.voidSlots_modify, Arena.slot?_isSome, Arena.totalSlots_modify, ← Arena.slot?_isSome]
    exact h.loose_slot j hj
  case stamped =>
    intro d i j hj
    obtain ⟨hjl, hx⟩ := h.stamped hj
    exact ⟨hjl, by rwa [hother hjl]⟩
  case listed =>
    intro j x hx hj hcol
    rw [hother hj] at hx
    exact h.listed hx hj hcol
  case vacant =>
    intro j x hx hj hcol
    rw [hother hj] at hx
    rw [Arena.voidSlots_modify]
    exact h.vacant hx hj hcol

end Store

end ConsHeap
