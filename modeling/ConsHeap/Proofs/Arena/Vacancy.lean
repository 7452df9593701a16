import ConsHeap.Arena
import ConsHeap.Proofs.Yields
import Mathlib.Data.List.Nodup
import Mathlib.Data.List.Perm.Basic
import Mathlib.Tactic.Ring

/-!
# Vacant slots

A slot of an arena is vacant when the arena can hand it out without a new page: it was recycled, or
it was never carved. `Arena.Sound` is the bookkeeping that every arena in use satisfies. Vacant
slots are blank and listed once, and slot numbers stay below the 32-bit limit, so the number of an
uncarved slot is the number of no other one.

* `Arena.Sound.next` — asked for a slot, an arena hands out a vacant or a brand-new one
  (`Arena.Hands`), and refuses, unchanged, only when none is vacant and no page can be had;
* `Arena.Sound.next_eq_error_iff` — it refuses exactly then;
* `Arena.Sound.retire` — a slot that is taken back is vacant again.
-/

namespace ConsHeap

namespace Arena

variable {a b : Arena} {id j : PairId} {f : Slot → Slot} {es : Array Event}

/-! ### A write keeps the layout -/

@[simp] theorem pageCount_modify : (a.modify id f).pageCount = a.pageCount := by
  simp [pageCount, modify]

@[simp] theorem uncarved_modify : (a.modify id f).uncarved = a.uncarved := by
  unfold uncarved
  rw [pageCount_modify]
  rfl

@[simp] theorem voidSlots_modify : (a.modify id f).voidSlots = a.voidSlots := by
  unfold voidSlots
  rw [uncarved_modify]
  rfl

/-! ### The invariant -/

/-- The bookkeeping of an arena: where the cursor may stand, how many slots there may be, and that
vacant slots are blank and listed once. -/
structure Sound (a : Arena) : Prop where
  cursor_le : a.cursor ≤ a.pageSize
  /-- Without a page the cursor stands at the end, so that the first request asks for one. -/
  cursor_eq : a.pageCount = 0 → a.cursor = a.pageSize
  totalSlots_le : a.totalSlots ≤ maxSlots
  void_nodup : a.voidSlots.Nodup
  void_blank : ∀ id ∈ a.voidSlots, a.slot? id = some {}

/-- The numbers of slots fit into ids. -/
theorem Sound.index_ofNat (h : a.Sound) {n : Nat} (hn : n < a.totalSlots) :
    (PairId.ofNat n).index = n := by
  refine PairId.index_ofNat ?_
  have hmax := h.totalSlots_le
  unfold maxSlots at hmax
  omega

/-- The vacant slots are counted without listing them. -/
theorem Sound.length_voidSlots (h : a.Sound) : a.voidSlots.length = a.available := by
  rw [voidSlots, List.length_append, List.length_reverse, available, uncarved]
  split
  · -- without a page the cursor stands at the end
    rename_i hp
    rw [h.cursor_eq hp, Nat.sub_self]
    rfl
  · rw [List.length_map, List.length_range']

theorem slot?_empty {pageSize : Nat} {maxPages : Option Nat} {h : 0 < pageSize} :
    (Arena.empty pageSize maxPages h).slot? id = none :=
  rfl

theorem Sound.empty {pageSize : Nat} {maxPages : Option Nat} (h : 0 < pageSize) :
    (Arena.empty pageSize maxPages h).Sound where
  cursor_le := Nat.le_refl _
  cursor_eq := fun _ => rfl
  totalSlots_le := by simp [totalSlots, pageCount, Arena.empty]
  void_nodup := by simp [voidSlots, uncarved, pageCount, Arena.empty]
  void_blank := by simp [voidSlots, uncarved, pageCount, Arena.empty]

/-- Only a write to a vacant slot could break the bookkeeping. -/
theorem Sound.modify (h : a.Sound) (hid : id ∉ a.voidSlots) : (a.modify id f).Sound where
  cursor_le := h.cursor_le
  cursor_eq := fun hp => h.cursor_eq (by rwa [pageCount_modify] at hp)
  totalSlots_le := by rw [totalSlots_modify]; exact h.totalSlots_le
  void_nodup := by rw [voidSlots_modify]; exact h.void_nodup
  void_blank := by
    intro j hj
    rw [voidSlots_modify] at hj
    have hne : j ≠ id := fun he => hid (he ▸ hj)
    rw [slot?_modify_ne hne]
    exact h.void_blank j hj

/-! ### Taking back -/

/-- A slot that exists can be taken back. -/
theorem recycle_yields (hs : (a.slot? id).isSome = true) :
    (recycle id).Yields ⟨a, es⟩ fun _ u => u = ⟨a.retire id, es⟩ := by
  obtain ⟨x, hx⟩ := Option.isSome_iff_exists.1 hs
  unfold recycle
  rw [Action.yields_bind, Action.yields_query]
  exact ⟨x, slot_eq_ok.2 hx, Action.yields_update.2 rfl⟩

theorem slot?_retire :
    (a.retire id).slot? j = if j = id then (a.slot? id).map fun _ => {} else a.slot? j := by
  change (a.modify id fun _ => {}).slot? j = _
  exact slot?_modify

/-- The slot taken back comes to lie between the older recycled ones and the uncarved ones. -/
theorem voidSlots_retire : (a.retire id).voidSlots = a.freeList.reverse ++ id :: a.uncarved := by
  change (id :: a.freeList).reverse ++ (a.modify id fun _ => {}).uncarved = _
  rw [uncarved_modify, List.reverse_cons, List.append_assoc]
  rfl

theorem mem_voidSlots_retire : j ∈ (a.retire id).voidSlots ↔ j = id ∨ j ∈ a.voidSlots := by
  rw [voidSlots_retire, voidSlots]
  simp only [List.mem_append, List.mem_cons]
  tauto

/-- Only a slot in use can be taken back; a vacant one would be listed twice. -/
theorem Sound.retire (h : a.Sound) (hid : id ∉ a.voidSlots) (hs : (a.slot? id).isSome = true) :
    (a.retire id).Sound where
  cursor_le := h.cursor_le
  cursor_eq := fun hp => h.cursor_eq (by rwa [show (a.retire id).pageCount = a.pageCount from
    pageCount_modify] at hp)
  totalSlots_le := by
    rw [show (a.retire id).totalSlots = a.totalSlots from totalSlots_modify]
    exact h.totalSlots_le
  void_nodup := by
    rw [voidSlots_retire]
    refine List.nodup_middle.2 (List.nodup_cons.2 ⟨hid, h.void_nodup⟩)
  void_blank := by
    intro j hj
    obtain ⟨s, hs⟩ := Option.isSome_iff_exists.1 hs
    rw [slot?_retire, hs]
    split
    · rfl
    · rename_i hne
      exact h.void_blank j ((mem_voidSlots_retire.1 hj).resolve_left hne)

/-! ### Handing out -/

/-- `b` is `a` after `id` was handed out: a slot that was vacant, or one of a new page. The slots
that existed before are as they were, and a page is added only when none was vacant. -/
structure Hands (a : Arena) (id : PairId) (b : Arena) : Prop where
  sound : b.Sound
  pageSize_eq : b.pageSize = a.pageSize
  maxPages_eq : b.maxPages = a.maxPages
  pages : b.pageCount = a.pageCount ∨ (a.voidSlots = [] ∧ b.pageCount = a.pageCount + 1)
  origin : id ∈ a.voidSlots ∨ a.slot? id = none
  blank : b.slot? id = some {}
  slots : ∀ j, b.slot? j = a.slot? j ∨ (a.slot? j = none ∧ b.slot? j = some {})
  vacant : ∀ j, j ∈ b.voidSlots ↔
    j ≠ id ∧ (j ∈ a.voidSlots ∨ (a.slot? j = none ∧ (b.slot? j).isSome = true))

/-- A vacant slot that leaves the list of vacant slots has been handed out. -/
theorem Hands.of_vacant (hb : b.Sound) (hsize : b.pageSize = a.pageSize)
    (hmax : b.maxPages = a.maxPages) (hpages : b.pageCount = a.pageCount)
    (hslots : ∀ j, b.slot? j = a.slot? j) (hblank : a.slot? id = some {}) (hid : id ∉ b.voidSlots)
    (hmem : ∀ j, j ∈ a.voidSlots ↔ j = id ∨ j ∈ b.voidSlots) : a.Hands id b := by
  have horigin : id ∈ a.voidSlots := (hmem id).2 (Or.inl rfl)
  refine ⟨hb, hsize, hmax, Or.inl hpages, Or.inl horigin, (hslots id).trans hblank,
    fun j => Or.inl (hslots j), fun j => ?_⟩
  rw [hmem j]
  constructor
  · intro hj
    exact ⟨fun he => hid (he ▸ hj), Or.inl (Or.inr hj)⟩
  · rintro ⟨hne, (he | hj) | ⟨hnone, hsome⟩⟩
    · exact absurd he hne
    · exact hj
    · -- no slot came into being
      rw [hslots j, hnone] at hsome
      exact absurd hsome (by simp)

/-- The newest recycled slot is handed out. -/
theorem Sound.hands_reuse (h : a.Sound) {rest : List PairId} (hf : a.freeList = id :: rest) :
    a.Hands id { a with freeList := rest } := by
  have hvoid : a.voidSlots = rest.reverse ++ id :: a.uncarved := by
    rw [voidSlots, hf, List.reverse_cons, List.append_assoc]
    rfl
  -- vacant slots are listed once, so `id` is not among the others
  have hnodup := h.void_nodup
  rw [hvoid] at hnodup
  obtain ⟨hid, hrest⟩ := List.nodup_cons.1 (List.nodup_middle.1 hnodup)
  have hmem : ∀ j, j ∈ a.voidSlots ↔ j = id ∨ j ∈ rest.reverse ++ a.uncarved := by
    intro j
    rw [hvoid]
    simp only [List.mem_append, List.mem_cons]
    tauto
  have hblank : a.slot? id = some {} := h.void_blank id ((hmem id).2 (Or.inl rfl))
  have hsound : ({ a with freeList := rest } : Arena).Sound :=
    ⟨h.cursor_le, h.cursor_eq, h.totalSlots_le, hrest,
      fun j hj => h.void_blank j ((hmem j).2 (Or.inr hj))⟩
  exact .of_vacant hsound rfl rfl rfl (fun _ => rfl) hblank hid hmem

/-- The first uncarved slot, and the uncarved slots after it. -/
theorem uncarved_carve (hp : 0 < a.pageCount) (hc : a.cursor < a.pageSize) :
    a.uncarved = a.carve.1 :: a.carve.2.uncarved := by
  obtain ⟨k, hk⟩ : ∃ k, a.pageSize - a.cursor = k + 1 := ⟨a.pageSize - a.cursor - 1, by omega⟩
  have hk' : a.pageSize - (a.cursor + 1) = k := by omega
  have hp' : a.pageCount ≠ 0 := by omega
  have hleft : a.uncarved = (List.range' ((a.pageCount - 1) * a.pageSize + a.cursor)
      (a.pageSize - a.cursor)).map PairId.ofNat := if_neg hp'
  have hright : a.carve.2.uncarved = (List.range' ((a.pageCount - 1) * a.pageSize + (a.cursor + 1))
      (a.pageSize - (a.cursor + 1))).map PairId.ofNat := if_neg hp'
  rw [hleft, hright, hk, hk', List.range'_succ, List.map_cons, Nat.add_assoc]
  rfl

/-- The next uncarved slot of the newest page is handed out. -/
theorem Sound.hands_carve (h : a.Sound) (hf : a.freeList = []) (hp : 0 < a.pageCount)
    (hc : a.cursor < a.pageSize) : a.Hands a.carve.1 a.carve.2 := by
  -- nothing was recycled, so the vacant slots are the uncarved ones
  have hvoid : a.voidSlots = a.carve.1 :: a.carve.2.voidSlots := by
    have hf' : a.carve.2.freeList = [] := hf
    rw [voidSlots, voidSlots, hf, hf', uncarved_carve hp hc]
    rfl
  have hnodup := h.void_nodup
  rw [hvoid] at hnodup
  obtain ⟨hid, hrest⟩ := List.nodup_cons.1 hnodup
  have hmem : ∀ j, j ∈ a.voidSlots ↔ j = a.carve.1 ∨ j ∈ a.carve.2.voidSlots := by
    intro j
    rw [hvoid, List.mem_cons]
  have hsound : a.carve.2.Sound :=
    ⟨hc, fun hp' => absurd hp' (Nat.ne_of_gt hp), h.totalSlots_le, hrest,
      fun j hj => h.void_blank j ((hmem j).2 (Or.inr hj))⟩
  have hblank : a.slot? a.carve.1 = some {} := h.void_blank _ ((hmem _).2 (Or.inl rfl))
  exact .of_vacant hsound rfl rfl rfl (fun _ => rfl) hblank hid hmem

/-! ### A new page -/

theorem pageCount_addPage : a.addPage.pageCount = a.pageCount + 1 := by
  simp [pageCount, addPage]

theorem totalSlots_addPage : a.addPage.totalSlots = a.totalSlots + a.pageSize := by
  unfold totalSlots
  rw [pageCount_addPage, Nat.succ_mul]
  rfl

/-- A new page leaves the slots of the others alone, and its own are blank. -/
theorem slot?_addPage : a.addPage.slot? j =
    if j.index < a.totalSlots then a.slot? j
    else if j.index < a.totalSlots + a.pageSize then some {} else none := by
  change ((a.pages.push (Vector.replicate a.pageSize {}))[j.page a.pageSize]?).map
    (fun p => p.get (a.place j)) = _
  -- numbers are compared by their pages, since pages are of one size
  have hlt : j.index < a.totalSlots ↔ j.page a.pageSize < a.pages.size :=
    (Nat.div_lt_iff_lt_mul a.pageSize_pos).symm
  have hlt' : j.index < a.totalSlots + a.pageSize ↔ j.page a.pageSize < a.pages.size + 1 := by
    rw [← totalSlots_addPage, totalSlots, pageCount_addPage]
    exact (Nat.div_lt_iff_lt_mul a.pageSize_pos).symm
  rw [Array.getElem?_push]
  by_cases heq : j.page a.pageSize = a.pages.size
  · -- the page of the slot is the new one
    rw [if_pos heq, if_neg (by rw [hlt]; omega), if_pos (by rw [hlt']; omega)]
    simp [Vector.get]
  · rw [if_neg heq]
    by_cases hold : j.index < a.totalSlots
    · rw [if_pos hold]
      rfl
    · -- the page of the slot is neither an old one nor the new one
      have hout : ¬j.page a.pageSize < a.pages.size := fun hp => hold (hlt.2 hp)
      rw [if_neg hold, if_neg (by rw [hlt']; omega), Array.getElem?_eq_none (by omega)]
      rfl

/-- On a new page nothing was carved. -/
theorem uncarved_addPage : a.addPage.uncarved =
    (List.range' a.totalSlots a.pageSize).map PairId.ofNat := by
  unfold uncarved
  rw [if_neg (by rw [pageCount_addPage]; omega), pageCount_addPage]
  rfl

theorem mem_uncarved_addPage (hmax : a.totalSlots + a.pageSize ≤ maxSlots) :
    j ∈ a.addPage.uncarved ↔ a.totalSlots ≤ j.index ∧ j.index < a.totalSlots + a.pageSize := by
  rw [uncarved_addPage, List.mem_map]
  constructor
  · rintro ⟨n, hn, rfl⟩
    rw [List.mem_range'_1] at hn
    have hlt : n < UInt32.size := by unfold maxSlots at hmax; omega
    rw [PairId.index_ofNat hlt]
    exact hn
  · intro hj
    exact ⟨j.index, List.mem_range'_1.2 hj, PairId.ofNat_index j⟩

/-- An arena with a new page is sound if its slots can be numbered and no other slot was vacant. -/
theorem sound_addPage (hvoid : a.voidSlots = [])
    (hmax : a.totalSlots + a.pageSize ≤ maxSlots) : a.addPage.Sound := by
  have hf : a.freeList = [] := List.reverse_eq_nil_iff.1 (List.append_eq_nil_iff.1 hvoid).1
  -- nothing else was vacant, so the free list is empty
  have hvoid' : a.addPage.voidSlots = a.addPage.uncarved := by
    change a.freeList.reverse ++ _ = _
    rw [hf]
    rfl
  constructor
  case cursor_le => exact Nat.zero_le _
  case cursor_eq =>
    intro hp
    rw [pageCount_addPage] at hp
    exact absurd hp (by omega)
  case totalSlots_le =>
    rw [totalSlots_addPage]
    exact hmax
  case void_nodup =>
    -- below the limit, different slots have different numbers
    rw [hvoid', uncarved_addPage]
    refine List.Nodup.map_on (fun m hm n hn he => ?_) List.nodup_range'
    rw [List.mem_range'_1] at hm hn
    have hlt : ∀ k, k < a.totalSlots + a.pageSize → k < UInt32.size := fun k hk => by
      unfold maxSlots at hmax; omega
    have hidx := congrArg PairId.index he
    rwa [PairId.index_ofNat (hlt m hm.2), PairId.index_ofNat (hlt n hn.2)] at hidx
  case void_blank =>
    intro j hj
    rw [hvoid', mem_uncarved_addPage hmax] at hj
    rw [slot?_addPage, if_neg (by omega), if_pos hj.2]

/-- The first slot of a new page is handed out. -/
theorem hands_addPage (hvoid : a.voidSlots = [])
    (hmax : a.totalSlots + a.pageSize ≤ maxSlots) :
    a.Hands a.addPage.carve.1 a.addPage.carve.2 := by
  have hf : a.freeList = [] := List.reverse_eq_nil_iff.1 (List.append_eq_nil_iff.1 hvoid).1
  have hpage : a.addPage.Hands a.addPage.carve.1 a.addPage.carve.2 :=
    (sound_addPage hvoid hmax).hands_carve hf (by rw [pageCount_addPage]; omega) a.pageSize_pos
  -- the slots of the new page are exactly those that did not exist before
  have hnew : ∀ j, j ∈ a.addPage.voidSlots ↔
      a.slot? j = none ∧ (a.addPage.slot? j).isSome = true := by
    intro j
    change j ∈ a.freeList.reverse ++ a.addPage.uncarved ↔ _
    rw [hf, List.reverse_nil, List.nil_append, mem_uncarved_addPage hmax, slot?_isSome,
      totalSlots_addPage, ← Option.not_isSome_iff_eq_none, slot?_isSome, Nat.not_lt]
  have hslots : ∀ j, a.addPage.carve.2.slot? j = a.addPage.slot? j := fun _ => rfl
  constructor
  case sound => exact hpage.sound
  case pageSize_eq => rfl
  case maxPages_eq => rfl
  case pages => exact Or.inr ⟨hvoid, pageCount_addPage⟩
  case origin =>
    -- the first slot of the new page was not there before
    refine Or.inr ?_
    rcases hpage.origin with hmem | hnone
    · exact ((hnew _).1 hmem).1
    · rw [← hslots, hpage.blank] at hnone
      exact absurd hnone (by simp)
  case blank => exact hpage.blank
  case slots =>
    intro j
    rw [hslots, slot?_addPage]
    by_cases hold : j.index < a.totalSlots
    · exact Or.inl (if_pos hold)
    · have hnone : a.slot? j = none := by
        rw [← Option.not_isSome_iff_eq_none, slot?_isSome]
        exact hold
      rw [if_neg hold, hnone]
      -- a slot of the new page, or of no page at all
      split
      · exact Or.inr ⟨rfl, rfl⟩
      · exact Or.inl rfl
  case vacant =>
    -- before the request nothing was vacant, and after it what is left of the page is
    intro j
    rw [hpage.vacant j, hnew j, hvoid, hslots]
    have hempty : j ∉ ([] : List PairId) := List.not_mem_nil
    constructor
    · -- a vacant slot of the new page is not the one handed out
      rintro ⟨hne, hj | ⟨hnone, hsome⟩⟩
      · exact ⟨hne, Or.inr hj⟩
      · rw [hnone] at hsome
        exact absurd hsome (by simp)
    · rintro ⟨hne, hj | hj⟩
      · exact absurd hj hempty
      · exact ⟨hne, Or.inl hj⟩

/-! ### Requests -/

/-- A page that is not refused has slots that can be numbered. -/
theorem totalSlots_le_of_refusal? (h : a.refusal? = none) :
    a.totalSlots + a.pageSize ≤ maxSlots := by
  unfold refusal? at h
  split at h
  · exact absurd h (by simp)
  · split at h
    · exact absurd h (by simp)
    · rename_i hlim
      rw [totalSlots, ← Nat.succ_mul]
      exact Nat.le_of_not_lt hlim

/-- No slot is vacant when none was recycled and the newest page is carved to its end. -/
theorem voidSlots_eq_nil (hf : a.freeList = []) (hc : a.cursor = a.pageSize) :
    a.voidSlots = [] := by
  unfold voidSlots uncarved
  rw [hf, hc, Nat.sub_self]
  split <;> rfl

/-- **A request for a slot.** It is answered by a slot that was vacant or is brand-new; it is
refused, and nothing changes, only if no slot is vacant and no further page can be had. -/
theorem Sound.next (h : a.Sound) :
    next.Yields ⟨a, es⟩ fun r u =>
      match r with
      | .ok id => a.Hands id u.state
      | .error e => u.state = a ∧ e = .outOfMemory a.pageCount a.pageSize ∧
          a.voidSlots = [] ∧ a.refusal?.isSome = true := by
  unfold Arena.next
  rw [Action.yields_bind, Action.yields_updateGet]
  cases hf : a.freeList with
  | cons id rest =>
    -- what was recycled is handed out first
    have hr : a.reuse = (some id, { a with freeList := rest }) := by
      unfold reuse
      rw [hf]
    simp only [hr, Action.yields_pure]
    exact h.hands_reuse hf
  | nil =>
    -- otherwise a slot is carved, from the newest page or from one more
    have hr : a.reuse = (none, a) := by
      unfold reuse
      rw [hf]
    simp only [hr, extend, grow, Action.yields_bind, Action.yields_ask]
    rw [Action.yields_ite]
    refine ⟨fun hc => ?_, fun hc => ?_⟩
    · -- the newest page is used up
      have hvoid : a.voidSlots = [] := voidSlots_eq_nil hf (by simpa using hc)
      simp only [Action.yields_bind, Action.yields_ask]
      cases href : a.refusal? with
      | some e =>
        simp only [Action.yields_bind, Action.yields_report, Action.yields_ask, Action.yields_pure]
        exact ⟨trivial, trivial, hvoid, rfl⟩
      | none =>
        have hmax : a.totalSlots + a.pageSize ≤ maxSlots := totalSlots_le_of_refusal? href
        simp only [Action.yields_bind, Action.yields_update, Action.yields_report,
          Action.yields_ask, Action.yields_pure, Action.yields_updateGet]
        exact hands_addPage hvoid hmax
    · -- there is room on the newest page, and so there is a page
      have hlt : a.cursor < a.pageSize :=
        Nat.lt_of_le_of_ne h.cursor_le (by simpa using hc)
      have hp : 0 < a.pageCount := by
        refine Nat.pos_of_ne_zero fun hp => ?_
        exact Nat.ne_of_lt hlt (h.cursor_eq hp)
      simp only [Action.yields_bind, Action.yields_updateGet, Action.yields_pure]
      exact h.hands_carve hf hp hlt

/-- No page can be had for two reasons. -/
theorem refusal?_isSome : a.refusal?.isSome = true ↔
    (∃ limit, a.maxPages = some limit ∧ limit ≤ a.pageCount) ∨
      maxSlots < (a.pageCount + 1) * a.pageSize := by
  have hlimit : a.maxPages.any (· ≤ a.pageCount) = true ↔
      ∃ limit, a.maxPages = some limit ∧ limit ≤ a.pageCount := by
    rw [Option.any_eq_true]
    simp only [decide_eq_true_iff]
  rw [← hlimit]
  unfold refusal?
  split
  · rename_i h
    exact iff_of_true rfl (.inl h)
  · rename_i h
    split
    · rename_i hmax
      exact iff_of_true rfl (.inr hmax)
    · rename_i hmax
      exact iff_of_false (by simp) (not_or.2 ⟨h, hmax⟩)

/-- Without vacant slots nothing was recycled, and the newest page is carved to its end. -/
theorem Sound.used_up (h : a.Sound) (hvoid : a.voidSlots = []) :
    a.freeList = [] ∧ a.cursor = a.pageSize := by
  obtain ⟨hfree, huncarved⟩ := List.append_eq_nil_iff.1 hvoid
  refine ⟨List.reverse_eq_nil_iff.1 hfree, ?_⟩
  unfold uncarved at huncarved
  split at huncarved
  · rename_i hp
    exact h.cursor_eq hp
  · have hlength := congrArg List.length huncarved
    rw [List.length_map, List.length_range', List.length_nil] at hlength
    have hle := h.cursor_le
    omega

/-- **A request is refused** exactly when no slot is vacant and no further page can be had. -/
theorem Sound.next_eq_error_iff (h : a.Sound) : Arena.next.Yields ⟨a, es⟩ fun r _ =>
    (∃ e, r = .error e) ↔ a.voidSlots = [] ∧ a.refusal?.isSome = true := by
  by_cases hfull : a.voidSlots = [] ∧ a.refusal?.isSome = true
  · obtain ⟨hf, hc⟩ := h.used_up hfull.1
    obtain ⟨e, he⟩ := Option.isSome_iff_exists.1 hfull.2
    have hr : a.reuse = (none, a) := by
      unfold reuse
      rw [hf]
    have hused : (a.cursor == a.pageSize) = true := beq_iff_eq.2 hc
    unfold Arena.next extend grow
    simp only [Action.yields_bind, Action.yields_updateGet, hr, Action.yields_ask, hused, if_true,
      he, Action.yields_report, Action.yields_pure]
    exact iff_of_true ⟨_, rfl⟩ ⟨hfull.1, rfl⟩
  · -- an answer other than a slot would mean that the arena is full
    refine h.next.mono fun r m hm => iff_of_false ?_ hfull
    rintro ⟨e, rfl⟩
    exact hfull ⟨hm.2.2.1, hm.2.2.2⟩

end Arena

end ConsHeap
