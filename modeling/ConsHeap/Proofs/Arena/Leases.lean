import ConsHeap.Proofs.Arena.Vacancy
import Mathlib.Data.List.Perm.Lattice

/-!
# Slots and their holders

Whoever asks an arena for a slot holds it until it is given back. `Arena.Run a₀ held peak a` says
that requests, returns and writes lead from `a₀` to `a`, where only a holder returns a slot or
writes to it; `held` are the slots in somebody's hands, and `peak` is the largest number of them so
far.

The invariant of a run, `Arena.Leased held peak a`, has two parts. A slot is either held or vacant
(`Arena.Divided`), and the newest page was needed when `peak` slots were held. The second part rests
on the first: a page is added only when no slot is vacant, and then all slots are held.

* `Arena.Divided.perm` — the slots held and the vacant ones are all slots, each of them once;
* `Arena.Leased.hands`, `Arena.Leased.retire`, `Arena.Leased.modify` — the steps of a run;
* `Arena.Run.slots_held_once` — what holds of every run, and which slot the next request gets.
-/

namespace ConsHeap

namespace Arena

variable {a b a₀ : Arena} {id j : PairId} {held : List PairId} {peak : Nat} {f : Slot → Slot}
  {es : Array Event}

/-! ### Runs -/

/-- `a` is reached from `a₀` by requests, and by returns and writes of holders. `held` are the slots
handed out and not returned, the latest first, and `peak` is the largest number of them so far. -/
inductive Run (a₀ : Arena) : List PairId → Nat → Arena → Prop where
  | start : Run a₀ [] 0 a₀
  | granted {held : List PairId} {peak : Nat} {a b : Arena} {id : PairId} {es' : Array Event}
    (run : Run a₀ held peak a) (es : Array Event)
    (done : next ⟨a, es⟩ = .ok (.ok id) ⟨b, es'⟩) :
    Run a₀ (id :: held) (max peak (held.length + 1)) b
  | refused {held : List PairId} {peak : Nat} {a b : Arena} {e : HeapError} {es' : Array Event}
    (run : Run a₀ held peak a) (es : Array Event)
    (done : next ⟨a, es⟩ = .ok (.error e) ⟨b, es'⟩) : Run a₀ held peak b
  | returned {held : List PairId} {peak : Nat} {a b : Arena} {es' : Array Event}
    (run : Run a₀ held peak a) (id : PairId) (holds : id ∈ held) (es : Array Event)
    (done : recycle id ⟨a, es⟩ = .ok () ⟨b, es'⟩) : Run a₀ (held.erase id) peak b
  | written {held : List PairId} {peak : Nat} {a : Arena} (run : Run a₀ held peak a) (id : PairId)
    (holds : id ∈ held) (f : Slot → Slot) : Run a₀ held peak (a.modify id f)

/-! ### Held or vacant -/

/-- The slots of an arena are divided into those that are held and those that are vacant. -/
structure Divided (held : List PairId) (a : Arena) : Prop where
  sound : a.Sound
  nodup : held.Nodup
  mem_held : ∀ id, id ∈ held ↔ (a.slot? id).isSome = true ∧ id ∉ a.voidSlots

/-- A vacant slot is a slot. -/
theorem Sound.isSome_of_vacant (h : a.Sound) (hid : id ∈ a.voidSlots) :
    (a.slot? id).isSome = true := by
  rw [h.void_blank id hid]
  rfl

namespace Divided

variable (h : Divided held a)

include h

/-- **All slots, each of them once.** -/
theorem perm : ((held ++ a.voidSlots).map PairId.index).Perm (List.range a.totalSlots) := by
  have hnodup : (held ++ a.voidSlots).Nodup :=
    List.nodup_append'.2 ⟨h.nodup, h.sound.void_nodup, fun id hid => ((h.mem_held id).1 hid).2⟩
  refine (List.perm_ext_iff_of_nodup (hnodup.map fun _ _ he => PairId.index_injective he)
    List.nodup_range).2 fun n => ?_
  rw [List.mem_range, List.mem_map]
  constructor
  · rintro ⟨id, hid, rfl⟩
    rw [← slot?_isSome]
    rcases List.mem_append.1 hid with hid | hid
    · exact ((h.mem_held id).1 hid).1
    · exact h.sound.isSome_of_vacant hid
  · -- a number below the total is that of a slot, which is vacant unless it is held
    intro hn
    have hidx : (PairId.ofNat n).index = n := h.sound.index_ofNat hn
    have hsome : (a.slot? (PairId.ofNat n)).isSome = true := by
      rw [slot?_isSome, hidx]
      exact hn
    refine ⟨.ofNat n, List.mem_append.2 ?_, hidx⟩
    by_cases hv : PairId.ofNat n ∈ a.voidSlots
    · exact .inr hv
    · exact .inl ((h.mem_held _).2 ⟨hsome, hv⟩)

theorem length_add : held.length + a.voidSlots.length = a.totalSlots := by
  have hlength := h.perm.length_eq
  rwa [List.length_map, List.length_append, List.length_range] at hlength

/-- A slot that was vacant or did not exist is held by whoever gets it. -/
theorem hands (hb : a.Hands id b) : Divided (id :: held) b where
  sound := hb.sound
  nodup := by
    refine List.nodup_cons.2 ⟨fun hid => ?_, h.nodup⟩
    obtain ⟨hsome, hvoid⟩ := (h.mem_held id).1 hid
    rcases hb.origin with hv | hnone
    · exact hvoid hv
    · rw [hnone] at hsome
      exact absurd hsome (by simp)
  mem_held := by
    intro j
    rw [List.mem_cons, h.mem_held, hb.vacant]
    by_cases hj : j = id
    · rw [hj, hb.blank]
      simp
    · -- of the other slots only those of a new page have changed, and these are vacant
      rcases hb.slots j with he | ⟨hnone, hblank⟩
      · rw [he]
        cases a.slot? j <;> simp [hj]
      · rw [hnone, hblank]
        simp [hj]

/-- A slot that is returned is vacant. -/
theorem retire (hid : id ∈ held) : Divided (held.erase id) (a.retire id) where
  sound := h.sound.retire ((h.mem_held id).1 hid).2 ((h.mem_held id).1 hid).1
  nodup := h.nodup.erase id
  mem_held := by
    intro j
    rw [h.nodup.mem_erase_iff, h.mem_held, mem_voidSlots_retire, slot?_retire]
    by_cases hj : j = id
    · simp [hj]
    · simp [hj]

theorem modify (hid : id ∈ held) : Divided held (a.modify id f) where
  sound := h.sound.modify ((h.mem_held id).1 hid).2
  nodup := h.nodup
  mem_held := by
    intro j
    have hsome : ((a.modify id f).slot? j).isSome = (a.slot? j).isSome := by
      rw [slot?_modify]
      split
      · rename_i hj
        rw [Option.isSome_map, hj]
      · rfl
    rw [h.mem_held, voidSlots_modify, hsome]

end Divided

/-! ### The number of pages -/

/-- A page is added exactly when no slot is vacant. -/
theorem Hands.pageCount_eq (hb : a.Hands id b) :
    b.pageCount = if a.voidSlots = [] then a.pageCount + 1 else a.pageCount := by
  split
  · rename_i hvoid
    rcases hb.pages with he | ⟨-, he⟩
    · -- otherwise the slot handed out would have been one of those before
      have hsome : (a.slot? id).isSome = true := by
        rw [slot?_isSome, totalSlots, ← he, ← hb.pageSize_eq, ← totalSlots, ← slot?_isSome, hb.blank]
        rfl
      rcases hb.origin with hv | hnone
      · rw [hvoid] at hv
        exact absurd hv List.not_mem_nil
      · rw [hnone] at hsome
        exact absurd hsome (by simp)
    · exact he
  · rename_i hvoid
    exact hb.pages.resolve_right fun he => hvoid he.1

theorem Hands.totalSlots_eq (hb : a.Hands id b) :
    b.totalSlots = if a.voidSlots = [] then a.totalSlots + a.pageSize else a.totalSlots := by
  unfold totalSlots
  rw [hb.pageCount_eq, hb.pageSize_eq]
  split
  · rw [Nat.succ_mul]
  · rfl

/-- The slots are divided, and the newest page was needed for the largest number of them that were
held at a time. -/
structure Leased (held : List PairId) (peak : Nat) (a : Arena) : Prop extends Divided held a where
  length_le : held.length ≤ peak
  peak_le : peak ≤ a.totalSlots
  lt_peak : a.totalSlots < peak + a.pageSize

theorem Leased.empty {pageSize : Nat} {maxPages : Option Nat} (h : 0 < pageSize) :
    Leased [] 0 (Arena.empty pageSize maxPages h) where
  sound := .empty h
  nodup := List.nodup_nil
  mem_held := fun id => by simp [slot?_empty]
  length_le := Nat.le_refl 0
  peak_le := Nat.zero_le _
  lt_peak := by
    have hzero : (Arena.empty pageSize maxPages h).totalSlots = 0 := Nat.zero_mul _
    rw [hzero, Nat.zero_add]
    exact h

namespace Leased

variable (h : Leased held peak a)

include h

theorem hands (hb : a.Hands id b) : Leased (id :: held) (max peak (held.length + 1)) b := by
  have hdiv := h.toDivided.hands hb
  have hsum := h.length_add
  have hroom : held.length + 1 ≤ b.totalSlots := by
    have hsum' := hdiv.length_add
    rw [List.length_cons] at hsum'
    omega
  have hle := h.length_le
  have hpeak := h.peak_le
  have hlt := h.lt_peak
  have htotal := hb.totalSlots_eq
  refine ⟨hdiv, Nat.le_max_right _ _, ?_, ?_⟩
  · split at htotal <;> omega
  · rw [hb.pageSize_eq]
    split at htotal
    · -- a page was added: all slots were held, and one more is held now
      rename_i hvoid
      rw [hvoid, List.length_nil] at hsum
      omega
    · omega

theorem retire (hid : id ∈ held) : Leased (held.erase id) peak (a.retire id) := by
  have htotal : (a.retire id).totalSlots = a.totalSlots := totalSlots_modify
  refine ⟨h.toDivided.retire hid, (List.length_erase_le).trans h.length_le, ?_, ?_⟩
  · rw [htotal]
    exact h.peak_le
  · rw [htotal]
    exact h.lt_peak

theorem modify (hid : id ∈ held) : Leased held peak (a.modify id f) := by
  refine ⟨h.toDivided.modify hid, h.length_le, ?_, ?_⟩
  · rw [totalSlots_modify]
    exact h.peak_le
  · rw [totalSlots_modify]
    exact h.lt_peak

/-- The pages are as many as the largest number of slots held at a time needs. -/
theorem pageCount_eq : a.pageCount = (peak + a.pageSize - 1) / a.pageSize := by
  have hpos := a.pageSize_pos
  have hle := h.peak_le
  have hlt := h.lt_peak
  unfold totalSlots at hle hlt
  refine (Nat.div_eq_of_lt_le ?_ ?_).symm
  · omega
  · rw [Nat.succ_mul]
    omega

end Leased

/-! ### The steps of a run -/

/-- **The invariant of a run**, together with what no step changes. -/
theorem Run.leased (run : Run a₀ held peak a) (h : Leased [] 0 a₀) :
    Leased held peak a ∧ a.pageSize = a₀.pageSize ∧ a.maxPages = a₀.maxPages := by
  induction run with
  | start => exact ⟨h, rfl, rfl⟩
  | granted _ _ done ih =>
    obtain ⟨hl, hsize, hmax⟩ := ih
    have hb := hl.sound.next.elim done
    exact ⟨hl.hands hb, hb.pageSize_eq.trans hsize, hb.maxPages_eq.trans hmax⟩
  | refused _ _ done ih =>
    obtain ⟨rfl, -⟩ := (ih.1.sound.next).elim done
    exact ih
  | returned _ _ holds _ done ih =>
    obtain ⟨hl, hsize, hmax⟩ := ih
    have hb := (recycle_yields ((hl.mem_held _).1 holds).1).elim done
    obtain rfl := congrArg Traced.state hb
    exact ⟨hl.retire holds, hsize, hmax⟩
  | written _ _ holds _ ih =>
    obtain ⟨hl, hsize, hmax⟩ := ih
    exact ⟨hl.modify holds, hsize, hmax⟩

/-! ### Which slot is handed out -/

/-- The numbers of the uncarved slots: from the cursor on to the end of the newest page. -/
theorem Sound.mem_uncarved (h : a.Sound) : j ∈ a.uncarved ↔
    0 < a.pageCount ∧ (a.pageCount - 1) * a.pageSize + a.cursor ≤ j.index ∧
      j.index < a.totalSlots := by
  unfold uncarved
  split
  · rename_i hp
    exact iff_of_false List.not_mem_nil (by omega)
  · rename_i hp
    obtain ⟨n, hn⟩ := Nat.exists_eq_succ_of_ne_zero hp
    have hcursor := h.cursor_le
    have htotal : a.totalSlots = n * a.pageSize + a.pageSize := by
      rw [totalSlots, hn, Nat.succ_mul]
    rw [List.mem_map, hn, Nat.succ_sub_one, htotal]
    constructor
    · rintro ⟨k, hk, rfl⟩
      rw [List.mem_range'_1] at hk
      rw [h.index_ofNat (by omega)]
      omega
    · rintro ⟨-, hlo, hhi⟩
      exact ⟨j.index, List.mem_range'_1.2 (by omega), PairId.ofNat_index j⟩

/-- `b` is `a` after a request was answered with `id`: the slot recycled last, or else the lowest
uncarved one, or else the first one of a new page. It is blank, and a page was added only if no slot
was vacant. -/
structure Grants (a : Arena) (id : PairId) (b : Arena) : Prop where
  recycled : ∀ top ∈ a.freeList.head?, id = top
  uncarved : a.freeList = [] → ∀ j ∈ a.uncarved, id ∈ a.uncarved ∧ id.index ≤ j.index
  fresh : a.voidSlots = [] → id.index = a.totalSlots
  pageCount_eq : b.pageCount = if a.voidSlots = [] then a.pageCount + 1 else a.pageCount
  blank : ∃ x, b.slot id = .ok x ∧ x.car = .nil ∧ x.cdr = .nil ∧ x.rootCount = 0

/-- The slot that answers the next request, if there is room for it. -/
def upcoming (a : Arena) : PairId :=
  match a.freeList with
  | top :: _ => top
  | [] => if a.cursor = a.pageSize then a.addPage.carve.1 else a.carve.1

theorem grow_leaves : grow.Leaves ⟨a, es⟩ fun r u => r = .ok () → u.state = a.addPage := by
  unfold grow
  refine Action.Yields.bind_leaves (Action.yields_ask.2 ?_)
  cases a.refusal? with
  | some e =>
    refine Action.Yields.leaves ?_
    simp only [Action.yields_bind, Action.yields_report, Action.yields_ask, Action.yields_pure]
    exact nofun
  | none =>
    refine Action.Yields.leaves ?_
    simp only [Action.yields_bind, Action.yields_update, Action.yields_report, Action.yields_ask,
      Action.yields_pure]
    exact fun _ => trivial

theorem next_leaves : next.Leaves ⟨a, es⟩ fun r _ => ∀ id, r = .ok id → id = a.upcoming := by
  unfold Arena.next upcoming
  refine Action.Yields.bind_leaves (Action.yields_updateGet.2 ?_)
  unfold reuse
  cases a.freeList with
  | cons top rest => exact Action.leaves_pure.2 fun id hid => (Except.ok.inj hid).symm
  | nil =>
    unfold extend
    refine Action.Yields.bind_leaves (Action.yields_ask.2 ?_)
    by_cases hc : a.cursor = a.pageSize
    · -- the newest page is used up, so the slot is the first one of a new page
      simp only [hc, beq_self_eq_true, if_true]
      rw [Action.leaves_bind]
      refine grow_leaves.mono fun r m hm => ?_
      cases r with
      | error e => exact Action.leaves_pure.2 nofun
      | ok x =>
        refine Action.Yields.bind_leaves (Action.yields_updateGet.2 (Action.leaves_pure.2 ?_))
        intro id hid
        rw [← Except.ok.inj hid, hm rfl]
    · have hne : (a.cursor == a.pageSize) = false := beq_eq_false_iff_ne.2 hc
      simp only [hc, hne, if_false, Bool.false_eq_true]
      refine Action.Yields.bind_leaves (Action.yields_updateGet.2 (Action.leaves_pure.2 ?_))
      intro id hid
      exact (Except.ok.inj hid).symm

/-- The number of the slot that is carved next. -/
theorem Sound.index_carve (h : a.Sound) (hc : a.cursor < a.pageSize) :
    a.carve.1.index = (a.pageCount - 1) * a.pageSize + a.cursor := by
  have hp : 0 < a.pageCount :=
    Nat.pos_of_ne_zero fun hp => Nat.ne_of_lt hc (h.cursor_eq hp)
  obtain ⟨n, hn⟩ := Nat.exists_eq_succ_of_ne_zero (Nat.ne_of_gt hp)
  refine h.index_ofNat ?_
  rw [totalSlots, hn, Nat.succ_sub_one, Nat.succ_mul]
  omega

/-- A slot that was handed out is the one that was due. -/
theorem Sound.grants (h : a.Sound) (hb : a.Hands id b) (hid : id = a.upcoming) :
    a.Grants id b := by
  unfold upcoming at hid
  constructor
  case recycled =>
    -- the free list is asked first
    intro top htop
    obtain ⟨rest, hf⟩ := List.head?_eq_some_iff.1 htop
    rw [hf] at hid
    exact hid
  case uncarved =>
    -- an uncarved slot exists only while the cursor is inside the newest page
    intro hf j hj
    obtain ⟨hp, hlo, hhi⟩ := h.mem_uncarved.1 hj
    have hc : a.cursor < a.pageSize := by
      refine Nat.lt_of_le_of_ne h.cursor_le fun hc => ?_
      rw [uncarved, hc, Nat.sub_self, List.range'_zero] at hj
      simp at hj
    simp only [hf, if_neg (Nat.ne_of_lt hc)] at hid
    rw [h.mem_uncarved, hid, h.index_carve hc]
    omega
  case fresh =>
    -- nothing was vacant, so the slot is the first one of a new page
    intro hvoid
    obtain ⟨hf, hc⟩ := h.used_up hvoid
    simp only [hf, if_pos hc] at hid
    have hmax := hb.sound.totalSlots_le
    rw [hb.totalSlots_eq, if_pos hvoid] at hmax
    rw [hid, (sound_addPage hvoid hmax).index_carve a.pageSize_pos, pageCount_addPage]
    rfl
  case pageCount_eq => exact hb.pageCount_eq
  case blank =>
    exact ⟨{}, slot_eq_ok.2 hb.blank, rfl, rfl, rfl⟩

/-! ### Every run -/

/-- **Each slot has one holder at most, and pages are added for need only.** After any requests,
returns and writes of holders, the slots held and the vacant ones are all slots, each of them once;
the vacant ones are as many as can be handed out without a new page; and the pages are as many as
the largest number of slots held at a time needs. A request is then answered with the slot that is
due, which is blank, or nothing changes, because no slot is vacant and no further page can be had.
Every slot that is held can be returned, and is the next one to be handed out then. -/
theorem Run.slots_held_once {pageSize : Nat} {maxPages : Option Nat} (hsize : 0 < pageSize)
    (run : Run (empty pageSize maxPages hsize) held peak a) (es : Array Event) :
    ((held ++ a.voidSlots).map PairId.index).Perm (List.range a.totalSlots) ∧
    a.voidSlots.length = a.available ∧
    a.pageCount = (peak + pageSize - 1) / pageSize ∧
    (next.Yields ⟨a, es⟩ fun r u =>
      match r with
      | .ok id => a.Grants id u.state
      | .error e => u.state = a ∧ e = .outOfMemory a.pageCount pageSize ∧ a.voidSlots = [] ∧
          ((∃ limit, maxPages = some limit ∧ limit ≤ a.pageCount) ∨
            maxSlots < (a.pageCount + 1) * pageSize)) ∧
    ∀ id ∈ held, (recycle id).Yields ⟨a, es⟩ fun _ u =>
      u.state.freeList = id :: a.freeList ∧ u.state.pageCount = a.pageCount := by
  obtain ⟨h, hpage, hmax⟩ := run.leased (.empty hsize)
  have hpage : a.pageSize = pageSize := hpage
  have hmax : a.maxPages = maxPages := hmax
  refine ⟨h.perm, h.sound.length_voidSlots, ?_, ?_, fun id hid => ?_⟩
  · rw [← hpage]
    exact h.pageCount_eq
  · refine (h.sound.next.and next_leaves).mono fun r u hu => ?_
    obtain ⟨hu, hid⟩ := hu
    cases r with
    | ok id => exact h.sound.grants hu (hid id rfl)
    | error e =>
      obtain ⟨hstate, herror, hvoid, hrefusal⟩ := hu
      rw [refusal?_isSome, hmax, hpage] at hrefusal
      exact ⟨hstate, by rw [herror, hpage], hvoid, hrefusal⟩
  · refine (recycle_yields ((h.mem_held id).1 hid).1).mono fun _ u hu => ?_
    rw [hu]
    exact ⟨rfl, pageCount_modify⟩

/-- Of three slots on two pages one is written to and returned, so that a recycled slot and one that
was never carved are vacant. -/
theorem slots_held_once_returned : 0 < 2 ∧
    ∃ a, Run (empty 2 (some 2) (by decide)) [⟨2⟩, ⟨0⟩] 3 a ∧ a.voidSlots = [⟨1⟩, ⟨3⟩] ∧
    ((([⟨2⟩, ⟨0⟩] : List PairId) ++ a.voidSlots).map PairId.index).Perm (List.range a.totalSlots) ∧
    a.voidSlots.length = a.available ∧
    a.pageCount = (3 + 2 - 1) / 2 ∧
    (next.Yields ⟨a, #[]⟩ fun r u =>
      match r with
      | .ok id => a.Grants id u.state
      | .error e => u.state = a ∧ e = .outOfMemory a.pageCount 2 ∧ a.voidSlots = [] ∧
          ((∃ limit, some 2 = some limit ∧ limit ≤ a.pageCount) ∨
            maxSlots < (a.pageCount + 1) * 2)) ∧
    (recycle ⟨0⟩).Yields ⟨a, #[]⟩ fun _ u =>
      u.state.freeList = ⟨0⟩ :: a.freeList ∧ u.state.pageCount = a.pageCount := by
  have fresh : Run (empty 2 (some 2) (by decide)) [] 0 _ := .start
  have first := fresh.granted #[] rfl
  have second := first.granted #[] rfl
  have third := second.granted #[] rfl
  have written := third.written ⟨1⟩ (by decide) fun x => { x with car := .integer 7 }
  have returned := written.returned ⟨1⟩ (by decide) #[] rfl
  obtain ⟨hperm, hlength, hpages, hnext, hrecycle⟩ :=
    Run.slots_held_once (by decide) returned #[]
  exact ⟨by decide, _, returned, by decide, hperm, hlength, hpages, hnext,
    hrecycle ⟨0⟩ (by decide)⟩

end Arena

end ConsHeap
