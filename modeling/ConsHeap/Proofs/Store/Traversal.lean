import ConsHeap.Store.Reach

/-!
# The traversal finds what is reachable

`Store.reachable` is a breadth-first visit with one mark for each slot, and `Store.Reaches` is the
relation that it is meant to decide. As long as reachable pairs have slots, the visit ends without a
fault, and what it marks and finds are exactly these (`Store.reachable_spec`).

The invariant of the visit has three parts: the found pairs are the marked ones (`Sweep.Listed`),
each of them is reachable, and what the visited ones hold is marked. When every found pair has been
visited, the marks are closed under the edges.
-/

namespace ConsHeap

/-! ### Marks -/

namespace Sweep

variable {n : Nat} {w : Sweep n} {id j : PairId}

/-- The found pairs are the marked ones. -/
def Listed (w : Sweep n) : Prop :=
  ∀ j, w.has j = true ↔ j ∈ w.found

theorem has_start : (start : Sweep n).has j = false := by
  unfold has start
  cases h : (Vector.replicate n false)[j.index]? with
  | none => rfl
  | some b =>
    obtain ⟨hi, rfl⟩ := Vector.getElem?_eq_some_iff.1 h
    simp

theorem listed_start : (start : Sweep n).Listed := by
  intro j
  rw [has_start]
  simp [start]

/-- A mark changes nothing but what it marks. -/
theorem has_mark (h : id.index < n) : (w.mark id).has j = true ↔ w.has j = true ∨ j = id := by
  obtain ⟨marked, found⟩ := w
  unfold mark has
  simp only [dif_pos h]
  split
  · -- the mark was there already
    rename_i hm
    constructor
    · exact .inl
    · rintro (hj | rfl)
      · exact hj
      · simp [Vector.getElem?_eq_getElem h, hm]
  · rw [Vector.getElem?_set]
    split
    · rename_i hi
      simp [PairId.index_injective hi]
    · rename_i hi
      have hne : j ≠ id := fun he => hi (by rw [he])
      simp [hne]

/-- Found pairs keep their places. -/
theorem found_mark (w : Sweep n) (id : PairId) : ∃ more, (w.mark id).found = w.found ++ more := by
  obtain ⟨marked, found⟩ := w
  unfold mark
  simp only
  -- a pair is found when it is inside and was not marked
  split
  · split
    · exact ⟨#[], by simp⟩
    · exact ⟨#[id], by simp⟩
  · exact ⟨#[], by simp⟩

theorem Listed.mark (hw : w.Listed) (h : id.index < n) : (w.mark id).Listed := by
  intro j
  rw [has_mark h, hw j]
  obtain ⟨marked, found⟩ := w
  unfold Sweep.mark
  simp only [dif_pos h]
  split
  · -- nothing is found anew: what is marked has been found
    rename_i hm
    have hid : id ∈ found := by
      refine (hw id).1 ?_
      unfold has
      simp [Vector.getElem?_eq_getElem h, hm]
    constructor
    · rintro (hj | rfl)
      · exact hj
      · exact hid
    · exact .inl
  · rw [Array.mem_push]

/-- Marks set one after another. -/
theorem foldl_mark (ids : List PairId) (hids : ∀ id ∈ ids, id.index < n) (hw : w.Listed) :
    (ids.foldl mark w).Listed ∧
      (∀ j, (ids.foldl mark w).has j = true ↔ w.has j = true ∨ j ∈ ids) ∧
      ∃ more, (ids.foldl mark w).found = w.found ++ more := by
  induction ids generalizing w with
  | nil => exact ⟨hw, fun j => by simp, #[], by simp⟩
  | cons id ids ih =>
    have hid := hids id List.mem_cons_self
    obtain ⟨hlisted, hhas, more, hmore⟩ :=
      ih (fun j hj => hids j (List.mem_cons_of_mem _ hj)) (hw.mark hid)
    obtain ⟨more', hmore'⟩ := found_mark w id
    refine ⟨hlisted, fun j => ?_, more' ++ more, ?_⟩
    · rw [List.foldl_cons, hhas, has_mark hid, List.mem_cons, or_assoc]
    · rw [List.foldl_cons, hmore, hmore', Array.append_assoc]

/-- No pair is found twice, and every slot is found or not marked. -/
structure Distinct (w : Sweep n) : Prop where
  marked : ∀ j ∈ w.found, w.has j = true
  nodup : w.found.toList.Nodup
  count : w.unmarked + w.found.size = n

theorem distinct_start : (start : Sweep n).Distinct where
  marked := fun _ hj => absurd hj (by simp [start])
  nodup := by simp [start]
  count := by simp [start, unmarked]

/-- A pair is found when it is marked, and it is marked only once. -/
theorem Distinct.mark (hw : w.Distinct) : (w.mark id).Distinct := by
  obtain ⟨marked, found⟩ := w
  by_cases h : id.index < n
  · by_cases hm : marked[id.index] = true
    · have hsame : Sweep.mark ⟨marked, found⟩ id = ⟨marked, found⟩ := by
        simp only [Sweep.mark, dif_pos h, if_pos hm]
      rw [hsame]
      exact hw
    · have hnew : (Sweep.mark ⟨marked, found⟩ id).found = found.push id := by
        simp only [Sweep.mark, dif_pos h, if_neg hm]
      have hid : id ∉ found := fun hid => by
        have hhas := hw.marked id hid
        simp [has, Vector.getElem?_eq_getElem h, hm] at hhas
      refine ⟨fun j hj => ?_, ?_, (unmarked_mark _ id).1.trans hw.count⟩
      · rw [hnew, Array.mem_push] at hj
        exact (has_mark h).2 (hj.imp_left (hw.marked j))
      · rw [hnew, Array.toList_push, (List.perm_append_singleton _ _).nodup_iff, List.nodup_cons,
          Array.mem_toList_iff]
        exact ⟨hid, hw.nodup⟩
  · -- there is no such slot, so nothing is marked
    have hsame : Sweep.mark ⟨marked, found⟩ id = ⟨marked, found⟩ := by
      simp only [Sweep.mark, dif_neg h]
    rw [hsame]
    exact hw

theorem Distinct.foldl_mark (ids : List PairId) (hw : w.Distinct) :
    (ids.foldl Sweep.mark w).Distinct := by
  induction ids generalizing w with
  | nil => exact hw
  | cons id ids ih => exact ih hw.mark

end Sweep

/-! ### The visit -/

variable {a : Arena} {R : PairId → Prop}

/-- The state of a visit before place `next`: everything found is in `R`, and what the pairs before
that place hold is marked. -/
structure Arena.Visiting (a : Arena) (R : PairId → Prop) (w : Sweep a.totalSlots) (next : Nat) :
    Prop where
  listed : w.Listed
  sound : ∀ j ∈ w.found, R j
  visited : ∀ {i id x child}, i < next → w.found[i]? = some id → a.slot? id = some x →
    child ∈ x.children → w.has child = true

/-- **One visit.** The children of the next pair are marked, and then everything up to that pair has
been visited. -/
theorem Arena.Visiting.visit {w : Sweep a.totalSlots} {next : Nat} {x : Slot}
    (h : a.Visiting R w next) (hlt : next < w.found.size) (hx : a.slot? w.found[next] = some x)
    (hchildren : ∀ child ∈ x.children, R child ∧ child.index < a.totalSlots) :
    a.Visiting R (x.children.foldl Sweep.mark w) (next + 1) := by
  obtain ⟨hlisted, hhas, more, hmore⟩ :=
    Sweep.foldl_mark x.children (fun child hchild => (hchildren child hchild).2) h.listed
  constructor
  case listed => exact hlisted
  case sound =>
    intro j hj
    rcases (hhas j).1 ((hlisted j).2 hj) with hold | hnew
    · exact h.sound j ((h.listed j).1 hold)
    · exact (hchildren j hnew).1
  case visited =>
    intro i id y child hi hid hy hchild
    -- newly found pairs come after all others, so the visited ones are those of before and `next`
    have hisize : i < w.found.size := by omega
    rw [hmore, Array.getElem?_append_left hisize] at hid
    rw [hhas]
    rcases Nat.lt_or_eq_of_le (Nat.le_of_lt_succ hi) with hlt' | rfl
    · exact .inl (h.visited hlt' hid hy hchild)
    · rw [Array.getElem?_eq_getElem hisize] at hid
      obtain rfl := Option.some.inj hid
      rw [hx] at hy
      obtain rfl := Option.some.inj hy
      exact .inr hchild

/-- **A visit ends without a fault**, with marks that are in `R` and closed under the edges, if `R`
itself is closed and stays inside the pages. What is marked was found. The induction is the
recursion of the visit, on what is not yet marked or not yet visited. -/
theorem Arena.spread_spec
    (hR : ∀ id, R id → ∃ x, a.slot? id = some x ∧ ∀ child ∈ x.children, R child)
    (w : Sweep a.totalSlots) (next : Nat) (h : a.Visiting R w next) :
    ∃ w', a.spread w next = .ok w' ∧ w'.Listed ∧ (∀ j, w.has j = true → w'.has j = true) ∧
      (∀ j, w'.has j = true → R j) ∧
      ∀ j x child, w'.has j = true → a.slot? j = some x → child ∈ x.children →
        w'.has child = true := by
  have hin : ∀ id, R id → id.index < a.totalSlots := by
    intro id hid
    obtain ⟨x, hx, -⟩ := hR id hid
    exact Arena.index_lt_of_slot? hx
  unfold Arena.spread
  split
  · -- the next pair is in `R`, so it has a slot and its children may be marked
    rename_i hlt
    obtain ⟨x, hx, hchildren⟩ := hR _ (h.sound _ (Array.getElem_mem hlt))
    have hslot : a.slot w.found[next] = .ok x := Arena.slot_eq_ok.2 hx
    have hinside : (x.children.find? fun child => !a.contains child) = none := by
      rw [List.find?_eq_none]
      intro child hchild
      simp [Arena.contains, hin child (hchildren child hchild)]
    simp only [hslot, hinside]
    have hvisit := h.visit hlt hx fun child hchild =>
      ⟨hchildren child hchild, hin child (hchildren child hchild)⟩
    obtain ⟨w', hw', hlisted, hmono, hsound, hclosed⟩ := spread_spec hR _ (next + 1) hvisit
    refine ⟨w', hw', hlisted, fun j hj => hmono j ?_, hsound, hclosed⟩
    have hfold := Sweep.foldl_mark x.children
      (fun child hchild => hin child (hchildren child hchild)) h.listed
    exact (hfold.2.1 j).2 (.inl hj)
  · -- every found pair has been visited, so the marks are closed
    rename_i hge
    have hfound : ∀ j, w.has j = true → j ∈ w.found := fun j hj => (h.listed j).1 hj
    refine ⟨w, rfl, h.listed, fun j hj => hj, fun j hj => h.sound j (hfound j hj),
      fun j x child hj hx hchild => ?_⟩
    obtain ⟨i, hi⟩ := Array.mem_iff_getElem?.1 (hfound j hj)
    have hilt : i < w.found.size := (Array.getElem?_eq_some_iff.1 hi).1
    exact h.visited (by omega) hi hx hchild
termination_by w.unmarked + (w.found.size - next)
decreasing_by
  have := Sweep.unmarked_foldl_mark x.children w
  omega

/-- A visit only marks, so what is found stays distinct. -/
theorem Sweep.Distinct.spread (w w' : Sweep a.totalSlots) (next : Nat) (h : w.Distinct)
    (hw : a.spread w next = .ok w') : w'.Distinct := by
  fun_induction Arena.spread a w next with
  | case1 => exact nomatch hw
  | case2 => exact nomatch hw
  | case3 _ _ _ slot _ _ ih => exact ih (h.foldl_mark slot.children) hw
  | case4 =>
    obtain rfl := Except.ok.inj hw
    exact h

/-! ### The answer -/

namespace Store

variable {s : Store} {id : PairId}

theorem mem_roots : id ∈ s.roots ↔ ∃ c : Color, c.isRoot = true ∧ id ∈ s.classes.members c := by
  unfold roots
  simp only [List.mem_flatMap, Color.mem_roots, Array.mem_toList_iff]

/-- **The traversal marks exactly the reachable pairs**, as long as these have slots, and the pairs
that it finds are those that it marks. -/
theorem reachable_spec (h : ∀ id, s.Reaches id → ∃ x, s.arena.slot? id = some x) :
    ∃ w, s.reachable = .ok w ∧ w.Listed ∧ ∀ id, w.has id = true ↔ s.Reaches id := by
  have hroots : ∀ id ∈ s.roots, s.Reaches id := by
    intro id hid
    obtain ⟨c, hc, hmem⟩ := mem_roots.1 hid
    exact .root hc hmem
  have hin : ∀ id ∈ s.roots, id.index < s.arena.totalSlots := by
    intro id hid
    obtain ⟨x, hx⟩ := h id (hroots id hid)
    exact Arena.index_lt_of_slot? hx
  obtain ⟨hstarted, hhas, -⟩ := Sweep.foldl_mark s.roots hin Sweep.listed_start
  -- the visit starts with the roots marked and nothing visited
  have hstart : s.arena.Visiting s.Reaches (s.roots.foldl Sweep.mark Sweep.start) 0 := by
    refine ⟨hstarted, fun j hj => ?_, fun hi => absurd hi (Nat.not_lt_zero _)⟩
    rcases (hhas j).1 ((hstarted j).2 hj) with hold | hnew
    · rw [Sweep.has_start] at hold
      exact absurd hold (by decide)
    · exact hroots j hnew
  have hclosed : ∀ id, s.Reaches id →
      ∃ x, s.arena.slot? id = some x ∧ ∀ child ∈ x.children, s.Reaches child := by
    intro id hid
    obtain ⟨x, hx⟩ := h id hid
    exact ⟨x, hx, fun child hchild => .edge hid hx hchild⟩
  obtain ⟨w, hw, hlisted, hmono, hsound, hedges⟩ := Arena.spread_spec hclosed _ 0 hstart
  refine ⟨w, hw, hlisted, fun id => ⟨hsound id, fun hid => ?_⟩⟩
  -- the marks hold the roots and are closed under the edges
  induction hid with
  | root hc hmem => exact hmono _ ((hhas _).2 (.inr (mem_roots.2 ⟨_, hc, hmem⟩)))
  | edge _ hslot hchild ih => exact hedges _ _ _ ih hslot hchild

/-- No pair is found twice, and there are no more found pairs than slots. -/
theorem distinct_reachable {w : Sweep s.arena.totalSlots} (hw : s.reachable = .ok w) :
    w.Distinct :=
  (Sweep.distinct_start.foldl_mark s.roots).spread _ _ _ hw

end Store

end ConsHeap
