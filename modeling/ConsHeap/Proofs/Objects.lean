import ConsHeap.Cell

/-!
# Counts of objects

What counting references does to objects, cell by cell. `Objects.Releases os os'` says that `os'` is
`os` after references were given up, and no object was made, changed or held anew; a collector that
works on its own account does nothing else to objects.

An object with a reference has an id that was handed out (`lt_size_of_strong`), so it is told apart
from every object that is still to be made. `Objects.Ages os os'` says that time has passed: objects
may have been made, and references taken on those alive, but none of those dead has come back.
-/

namespace ConsHeap

namespace Objects

variable {os os' os'' : Objects} {cell : Cell} {o : ObjectId} {m : Managed}

/-- An object with a reference was made at some time. -/
theorem lt_size_of_strong (h : 0 < os.strong o) : o.number < os.entries.size := by
  refine Nat.lt_of_not_le fun hge => ?_
  unfold strong at h
  rw [Array.getElem?_eq_none hge] at h
  exact absurd h (by simp)

theorem strong_empty (o : ObjectId) : ({} : Objects).strong o = 0 := by
  unfold strong
  rw [Array.getElem?_eq_none (Nat.zero_le _)]
  rfl

/-! ### References taken and given up -/

theorem strong_discard : (os.discard cell).strong o =
    os.strong o - if cell = .managed o then 1 else 0 := by
  cases cell with
  | managed a =>
    change (os.release a).strong o = _
    rw [strong_release]
    by_cases ho : o = a
    · rw [if_pos ho, if_pos (by rw [ho])]
    · rw [if_neg ho, if_neg fun he => ho (Cell.managed.inj he).symm]
      rfl
  | _ => rfl

/-- A cell can be copied if its object was made at some time. -/
theorem strong_acquire (h : ∀ a, cell = .managed a → a.number < os.entries.size) :
    (os.acquire cell).strong o = os.strong o + if cell = .managed o then 1 else 0 := by
  cases cell with
  | managed a =>
    change (os.retain a).strong o = _
    rw [strong_retain (h a rfl)]
    by_cases ho : o = a
    · rw [if_pos ho, if_pos (by rw [ho])]
    · rw [if_neg ho, if_neg fun he => ho (Cell.managed.inj he).symm]
      rfl
  | _ => rfl

/-- Counting references changes no object. -/
theorem value?_recount (a : ObjectId) (count : Nat → Nat) :
    (⟨os.entries.modify a.number fun e => { e with strong := count e.strong }⟩ : Objects).value? o =
      os.value? o := by
  unfold value?
  rw [Array.getElem?_modify]
  split
  · rw [Option.map_map]
    rfl
  · rfl

theorem value?_discard : (os.discard cell).value? o = os.value? o := by
  cases cell with
  | managed a => exact value?_recount a (· - 1)
  | _ => rfl

theorem value?_acquire : (os.acquire cell).value? o = os.value? o := by
  cases cell with
  | managed a => exact value?_recount a (· + 1)
  | _ => rfl

/-! ### New objects -/

theorem value?_alloc_self : (os.alloc m).2.value? (os.alloc m).1 = some m := by
  unfold alloc value?
  rw [Array.getElem?_push, if_pos rfl]
  rfl

/-- A new object changes no other. -/
theorem value?_alloc {n : Managed} (h : os.value? o = some n) :
    (os.alloc m).2.value? o = some n := by
  unfold value? at h
  obtain ⟨e, he, hn⟩ := Option.map_eq_some_iff.1 h
  -- the new object stands behind all that were made
  have hne : o.number ≠ os.entries.size := by
    intro heq
    rw [heq, Array.getElem?_eq_none (Nat.le_refl _)] at he
    exact absurd he (by simp)
  unfold alloc value?
  rw [Array.getElem?_push, if_neg hne, he, Option.map_some, hn]

theorem value?_of_alloc {v : Option Managed} (ho : o ≠ (os.alloc m).1)
    (h : (os.alloc m).2.value? o = v) : os.value? o = v := by
  have hne : o.number ≠ os.entries.size := fun he => ho (congrArg ObjectId.mk he)
  unfold alloc value? at h
  rw [Array.getElem?_push, if_neg hne] at h
  exact h

/-- Nothing holds an object that is still to be made. -/
theorem strong_fresh : os.strong (os.alloc m).1 = 0 := by
  unfold alloc strong
  rw [Array.getElem?_eq_none (Nat.le_refl _)]
  rfl

theorem value?_fresh : os.value? (os.alloc m).1 = none := by
  unfold alloc value?
  rw [Array.getElem?_eq_none (Nat.le_refl _)]
  rfl

theorem ne_fresh (h : 0 < os.strong o) (m : Managed) : o ≠ (os.alloc m).1 := by
  rintro rfl
  rw [strong_fresh] at h
  exact absurd h (Nat.lt_irrefl 0)

/-- Whoever makes an object owns one reference. -/
theorem strong_alloc_add : (os.alloc m).2.strong o =
    os.strong o + if .managed (os.alloc m).1 = Cell.managed o then 1 else 0 := by
  rw [strong_alloc]
  by_cases ho : o = (os.alloc m).1
  · rw [if_pos ho, if_pos (by rw [ho]), ho, strong_fresh]
  · rw [if_neg ho, if_neg fun he => ho (Cell.managed.inj he).symm]
    rfl

/-! ### References given up -/

/-- `os'` is `os` after some references were given up. -/
structure Releases (os os' : Objects) : Prop where
  value : ∀ o, os'.value? o = os.value? o
  strong_le : ∀ o, os'.strong o ≤ os.strong o

namespace Releases

theorem refl (os : Objects) : os.Releases os :=
  ⟨fun _ => rfl, fun _ => Nat.le_refl _⟩

theorem of_eq (h : os' = os) : os.Releases os' := by
  rw [h]
  exact .refl os

theorem trans (h : os.Releases os') (h' : os'.Releases os'') : os.Releases os'' :=
  ⟨fun o => (h'.value o).trans (h.value o), fun o => Nat.le_trans (h'.strong_le o) (h.strong_le o)⟩

theorem discard (os : Objects) (cell : Cell) : os.Releases (os.discard cell) := by
  refine ⟨fun _ => value?_discard, fun o => ?_⟩
  rw [strong_discard]
  exact Nat.sub_le _ _

end Releases

/-! ### Time -/

/-- `os'` is `os` some time later. An object that was made is still the same one, and if it was dead
it still is. -/
structure Ages (os os' : Objects) : Prop where
  value : ∀ {o m}, os.value? o = some m → os'.value? o = some m
  dead : ∀ {o m}, os.value? o = some m → os.strong o = 0 → os'.strong o = 0

theorem Releases.ages (h : os.Releases os') : os.Ages os' where
  value := fun hm => (h.value _).trans hm
  dead := fun {o _} _ hdead => Nat.le_zero.1 (hdead ▸ h.strong_le o)

namespace Ages

theorem refl (os : Objects) : os.Ages os :=
  (Releases.refl os).ages

theorem trans (h : os.Ages os') (h' : os'.Ages os'') : os.Ages os'' where
  value := fun hm => h'.value (h.value hm)
  dead := fun hm hdead => h'.dead (h.value hm) (h.dead hm hdead)

/-- Only an object alive can be held once more. -/
theorem acquire (halive : ∀ a, cell = .managed a → 0 < os.strong a) :
    os.Ages (os.acquire cell) where
  value := fun hm => value?_acquire.trans hm
  dead := by
    intro o m _ hdead
    have hne : cell ≠ .managed o := by
      intro he
      have hpos := halive o he
      omega
    rw [strong_acquire fun a ha => lt_size_of_strong (halive a ha), if_neg hne]
    exact hdead

/-- A new object is none of those made before. -/
theorem alloc (m : Managed) : os.Ages (os.alloc m).2 where
  value := value?_alloc
  dead := by
    intro o n hn hdead
    have hne : o ≠ (os.alloc m).1 := by
      rintro rfl
      rw [value?_fresh] at hn
      exact absurd hn nofun
    rw [strong_alloc, if_neg hne]
    exact hdead

end Ages

end Objects

end ConsHeap
