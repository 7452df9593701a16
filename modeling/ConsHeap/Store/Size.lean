import ConsHeap.Store.Basic

/-!
# Sizes of the color classes

How many members each class has after an operation on the store that succeeds. Taking a pair out
needs a member to take, so the source class was not empty, and it loses exactly one; adding a pair
gives one to the target class. Nothing else changes size.
-/

namespace ConsHeap.Store

/-- A class without its last member has one member less. -/
theorem size_of_classPop {c d : Color} {t u : Traced Store} {id : PairId}
    (h : classPop c t = .ok (some id) u) :
    0 < t.state.size c ∧
      u.state.size d = if d = c then t.state.size c - 1 else t.state.size d := by
  obtain ⟨⟨arena, classes⟩, es⟩ := t
  simp only [classPop, Action.updateGet, Classes.pop] at h
  cases hb : (classes.members c).back? with
  | none => simp [hb] at h
  | some last =>
    simp only [hb, EStateM.Result.ok.injEq, Option.some.injEq] at h
    obtain ⟨rfl, rfl⟩ := h
    have hpos : 0 < (classes.members c).size := by
      rw [Array.back?_eq_getElem?] at hb
      have := (Array.getElem?_eq_some_iff.1 hb).1
      omega
    refine ⟨hpos, ?_⟩
    simp only [size]
    rw [Classes.size_modify, Array.size_pop]
    rfl

/-- A class without members stays as it is, and so does the rest of the store. -/
theorem classPop_eq_none {c : Color} {t u : Traced Store} (h : classPop c t = .ok none u) :
    u = t := by
  obtain ⟨⟨arena, classes⟩, es⟩ := t
  simp only [classPop, Action.updateGet, Classes.pop] at h
  cases hb : (classes.members c).back? with
  | some last => simp [hb] at h
  | none =>
    simp only [hb, EStateM.Result.ok.injEq] at h
    exact h.2.symm

/-- A class with a new member has one member more. -/
theorem size_of_add {c d : Color} {t u : Traced Store} {id : PairId} {x : Unit}
    (h : add id c t = .ok x u) :
    u.state.size d = if d = c then t.state.size c + 1 else t.state.size d := by
  obtain ⟨_, m, h₁, h₂⟩ := Action.bind_eq_ok.1 h
  obtain ⟨_, rfl⟩ := Action.require_eq_ok.1 h₁
  obtain ⟨_, m', h₃, h₄⟩ := Action.bind_eq_ok.1 h₂
  obtain ⟨_, rfl⟩ := Action.query_eq_ok.1 h₃
  obtain rfl := Action.update_eq_ok.1 h₄
  exact size_enlist

/-- The class whose color a pair carries loses one member when the pair is taken out. -/
theorem size_of_remove {t u : Traced Store} {id : PairId} {x : Unit}
    (h : remove id t = .ok x u) :
    ∃ slot, t.state.slot id = .ok slot ∧ 0 < t.state.size slot.color ∧
      ∀ d, u.state.size d =
        if d = slot.color then t.state.size slot.color - 1 else t.state.size d := by
  obtain ⟨slot, _, hquery, hrest⟩ := Action.bind_eq_ok.1 h
  obtain ⟨hslot, rfl⟩ := Action.query_eq_ok.1 hquery
  obtain ⟨again, _, hquery', hcolor⟩ := Action.bind_eq_ok.1 hrest
  obtain ⟨hagain, rfl⟩ := Action.query_eq_ok.1 hquery'
  obtain rfl : slot = again := by simpa [hslot] using hagain
  obtain ⟨_, _, hreq, hask⟩ := Action.bind_eq_ok.1 hcolor
  obtain ⟨_, rfl⟩ := Action.require_eq_ok.1 hreq
  obtain ⟨found, _, hfound, hpos⟩ := Action.bind_eq_ok.1 hask
  obtain ⟨rfl, rfl⟩ := Action.ask_eq_ok.1 hfound
  obtain ⟨_, _, hreq', hupdate⟩ := Action.bind_eq_ok.1 hpos
  obtain ⟨hmem, rfl⟩ := Action.require_eq_ok.1 hreq'
  obtain rfl := Action.update_eq_ok.1 hupdate
  have := (Array.getElem?_eq_some_iff.1 hmem).1
  exact ⟨slot, hslot, Nat.zero_lt_of_lt this, fun d => size_delist⟩

/-- When one class loses a member and another one gains it, only these two change size; if they are
the same class, none does. -/
theorem size_of_shift {s m u : Store} {a b : Color} (hpos : 0 < s.size a)
    (hlose : ∀ d, m.size d = if d = a then s.size a - 1 else s.size d)
    (hgain : ∀ d, u.size d = if d = b then m.size b + 1 else m.size d) (d : Color) :
    u.size d + (if d = a then 1 else 0) = s.size d + (if d = b then 1 else 0) := by
  have hkept : m.size d + (if d = a then 1 else 0) = s.size d := by
    rw [hlose d]
    split
    · rename_i hda
      rw [hda]
      omega
    · rfl
  rw [hgain d]
  split
  · rename_i hdb
    rw [← hdb]
    omega
  · omega

/-- A pair that moves leaves one class and enters another. -/
theorem size_of_move {t u : Traced Store} {id : PairId} {c : Color} {x : Unit}
    (h : move id c t = .ok x u) :
    ∃ slot, t.state.slot id = .ok slot ∧ 0 < t.state.size slot.color ∧
      ∀ d, u.state.size d + (if d = slot.color then 1 else 0) =
        t.state.size d + (if d = c then 1 else 0) := by
  obtain ⟨_, m, h₁, h₂⟩ := Action.bind_eq_ok.1 h
  obtain ⟨slot, hslot, hpos, hm⟩ := size_of_remove h₁
  exact ⟨slot, hslot, hpos, size_of_shift hpos hm fun _ => size_of_add h₂⟩

/-- Of two different classes, one member moves from the first to the second. -/
theorem size_of_popInto {t u : Traced Store} {id : PairId} {c d : Color}
    (h : popInto c d t = .ok (some id) u) :
    0 < t.state.size c ∧
      ∀ e, u.state.size e + (if e = c then 1 else 0) =
        t.state.size e + (if e = d then 1 else 0) := by
  obtain ⟨found, m, h₁, h₂⟩ := Action.bind_eq_ok.1 h
  cases found with
  | none => simp [pure, EStateM.pure] at h₂
  | some last =>
    obtain ⟨_, m', h₃, h₄⟩ := Action.bind_eq_ok.1 h₂
    have hu : u = m' := by
      simp only [pure, EStateM.pure, EStateM.Result.ok.injEq] at h₄
      exact h₄.2.symm
    subst hu
    have hpos := (size_of_classPop (d := c) h₁).1
    exact ⟨hpos, size_of_shift hpos (fun _ => (size_of_classPop h₁).2) fun _ => size_of_add h₃⟩

/-- A class without members gives none, and nothing changes. -/
theorem popInto_eq_none {c d : Color} {t u : Traced Store} (h : popInto c d t = .ok none u) :
    u = t := by
  obtain ⟨found, m, h₁, h₂⟩ := Action.bind_eq_ok.1 h
  cases found with
  | none =>
    obtain ⟨_, rfl⟩ := Action.pure_eq_ok.1 h₂
    exact classPop_eq_none h₁
  | some last =>
    obtain ⟨_, m', _, h₄⟩ := Action.bind_eq_ok.1 h₂
    exact absurd (Action.pure_eq_ok.1 h₄).1 (by simp)

end ConsHeap.Store
