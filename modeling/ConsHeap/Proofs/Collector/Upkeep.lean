import ConsHeap.Proofs.Collector.FullCycle
import Mathlib.Logic.Relation

/-!
# The collector's own work

Whatever a collector does on its own account is a sequence of beats, and a beat is a scan, a swap,
the recycling of one pair, or a full cycle. `Collector.Upkeep c c'` says that `c'` comes from `c` by
such a sequence, of any length and in any order: nothing below depends on how much work an event
pays for.

Upkeep keeps the invariant (`Upkeep.sound`), takes nothing from the graph that is reachable
(`Upkeep.trims`), and keeps the references of cells balanced (`Upkeep.balanced`). Two kinds of
sequences are told apart where more is known of them: recycling alone (`Recycling`) and scanning
alone (`Scanning`). The rounds and loops of marking and recycling are upkeep and do not fault on a
sound collector; that `Collector.finish` ends is an induction on the number of unscanned pairs.

How much of it an event pays for matters to one question only, how large a heap can grow. What is
needed there is that an event which marks does at least one scan or swap (`Marking`), and that after
recycling a slot is vacant unless no pair was left to recycle (`Stocked`).
-/

namespace ConsHeap

namespace Collector

variable {c c' : Collector} {id : PairId} {x : Slot} {es : Array Event} {n : Nat}
  {cells : Multiset Cell}

/-! ### Beats -/

/-- One unit of the collector's own work. -/
inductive Beat (c c' : Collector) : Prop where
  | scan {id : PairId} {x : Slot} {target : Color} (scanned : c.Scanned id x target c')
  | swap {n : Nat} (swapped : c.Swapped n c')
  | recycle {id : PairId} {x : Slot} (recycled : c.Recycled id x c')
  | cycle {n : Nat} (cycled : c.Cycled n c')

namespace Beat

theorem sound (hb : Beat c c') (h : c.Sound) : c'.Sound := by
  cases hb with
  | scan hs => exact hs.sound h
  | swap hs => exact hs.sound h
  | recycle hs => exact hs.sound h
  | cycle hs => exact hs.sound h

/-- **A beat takes nothing from the graph that is reachable.** -/
theorem trims (hb : Beat c c') (h : c.Sound) : c.graph.Trims c'.graph := by
  cases hb with
  | scan hs =>
    rw [hs.graph_eq]
    exact .refl _
  | swap hs => exact hs.trims h
  | recycle hs =>
    rw [hs.graph_eq]
    exact .refl _
  | cycle hs => exact hs.trims h

theorem balanced (hb : Beat c c') (h : c.Sound) (hc : c.Balanced cells) : c'.Balanced cells := by
  cases hb with
  | scan hs => exact hc.congr (by rw [hs.frame]) hs.store.held_eq
  | swap hs => exact hc.congr (by rw [hs.frame]) hs.store.held_eq
  | recycle hs => exact hs.balanced hc h.store
  | cycle hs => exact hs.balanced cells hc

/-- A beat gives references up, and does nothing else to objects. -/
theorem releases (hb : Beat c c') : c.objects.Releases c'.objects := by
  cases hb with
  | scan hs => exact .of_eq (by rw [hs.frame])
  | swap hs => exact .of_eq (by rw [hs.frame])
  | recycle hs =>
    rw [hs.frame]
    exact (Objects.Releases.discard _ _).trans (.discard _ _)
  | cycle hs => exact hs.releases

theorem options_eq (hb : Beat c c') : c'.options = c.options := by
  cases hb with
  | scan hs => rw [hs.frame]
  | swap hs => rw [hs.frame]
  | recycle hs => rw [hs.frame]
  | cycle hs => rw [hs.frame]

end Beat

/-! ### Sequences of beats -/

/-- `c'` comes from `c` by the collector's own work. -/
def Upkeep : Collector → Collector → Prop :=
  Relation.ReflTransGen Beat

namespace Upkeep

theorem refl (c : Collector) : c.Upkeep c :=
  Relation.ReflTransGen.refl

theorem single (hb : Beat c c') : c.Upkeep c' :=
  Relation.ReflTransGen.single hb

theorem trans {c'' : Collector} (hu : c.Upkeep c') (hu' : c'.Upkeep c'') : c.Upkeep c'' :=
  Relation.ReflTransGen.trans hu hu'

theorem sound (hu : c.Upkeep c') (h : c.Sound) : c'.Sound := by
  induction hu with
  | refl => exact h
  | tail _ hb ih => exact hb.sound ih

/-- **Upkeep takes nothing from the graph that is reachable.** -/
theorem trims (hu : c.Upkeep c') (h : c.Sound) : c.graph.Trims c'.graph := by
  induction hu with
  | refl => exact .refl _
  | tail hu hb ih => exact ih.trans (hb.trims (sound hu h))

theorem balanced (hu : c.Upkeep c') (h : c.Sound) (hc : c.Balanced cells) :
    c'.Balanced cells := by
  induction hu with
  | refl => exact hc
  | tail hu hb ih => exact hb.balanced (sound hu h) ih

theorem releases (hu : c.Upkeep c') : c.objects.Releases c'.objects := by
  induction hu with
  | refl => exact .refl _
  | tail _ hb ih => exact ih.trans hb.releases

theorem options_eq (hu : c.Upkeep c') : c'.options = c.options := by
  induction hu with
  | refl => rfl
  | tail _ hb ih => exact hb.options_eq.trans ih

end Upkeep

/-! ### Sequences of beats of one kind -/

/-- `c'` comes from `c` by recycling alone. -/
def Recycling : Collector → Collector → Prop :=
  Relation.ReflTransGen fun c c' => ∃ id x, c.Recycled id x c'

namespace Recycling

theorem upkeep (hr : c.Recycling c') : c.Upkeep c' := by
  induction hr with
  | refl => exact .refl c
  | tail _ hs ih =>
    obtain ⟨_, _, hs⟩ := hs
    exact ih.trans (.single (.recycle hs))

/-- Recycling alone changes nothing that a program sees. -/
theorem graph_eq (hr : c.Recycling c') : c'.graph = c.graph := by
  induction hr with
  | refl => rfl
  | tail _ hs ih =>
    obtain ⟨_, _, hs⟩ := hs
    exact hs.graph_eq.trans ih

end Recycling

/-- `c'` comes from `c` by scans alone. -/
def Scanning : Collector → Collector → Prop :=
  Relation.ReflTransGen fun c c' => ∃ id x target, c.Scanned id x target c'

namespace Scanning

theorem upkeep (hw : c.Scanning c') : c.Upkeep c' := by
  induction hw with
  | refl => exact .refl c
  | tail _ hs ih =>
    obtain ⟨_, _, _, hs⟩ := hs
    exact ih.trans (.single (.scan hs))

/-- Scans change nothing that a program sees. -/
theorem graph_eq (hw : c.Scanning c') : c'.graph = c.graph := by
  induction hw with
  | refl => rfl
  | tail _ hs ih =>
    obtain ⟨_, _, _, hs⟩ := hs
    exact hs.graph_eq.trans ih

end Scanning

/-! ### The work that an event pays for -/

/-- `c'` comes from `c` by one unit of marking. -/
inductive Mark (c c' : Collector) : Prop where
  | scan {id : PairId} {x : Slot} {target : Color} (scanned : c.Scanned id x target c')
  | swap {n : Nat} (swapped : c.Swapped n c')

theorem Mark.beat (hm : Mark c c') : Beat c c' := by
  cases hm with
  | scan hs => exact .scan hs
  | swap hs => exact .swap hs

/-- `c'` comes from `c` by the marking that an event pays for. Unless it pays for none, the first
beat of that is a scan or a swap. -/
structure Marking (c c' : Collector) : Prop where
  upkeep : c.Upkeep c'
  first : 0 < c.options.garbageSteps → ∃ c₁, Mark c c₁ ∧ c₁.Upkeep c'

theorem Marking.trans_upkeep {c'' : Collector} (hm : c.Marking c') (hu : c'.Upkeep c'') :
    c.Marking c'' where
  upkeep := hm.upkeep.trans hu
  first := by
    intro hpos
    obtain ⟨c₁, hmark, hrest⟩ := hm.first hpos
    exact ⟨c₁, hmark, hrest.trans hu⟩

/-- A slot can be handed out, or there is no disposed pair whose slot could be. -/
def Stocked (c : Collector) : Prop :=
  c.store.arena.voidSlots ≠ [] ∨ ∀ j x, c.look j = some x → x.color ≠ .free

theorem Recycled.voidSlots_ne_nil (hs : c.Recycled id x c') : c'.store.arena.voidSlots ≠ [] := by
  rw [hs.arena]
  exact List.ne_nil_of_mem (Arena.mem_voidSlots_retire.2 (.inl rfl))

/-- Recycling takes no slot from the arena. -/
theorem Recycling.voidSlots_ne_nil (hr : c.Recycling c') (h : c.store.arena.voidSlots ≠ []) :
    c'.store.arena.voidSlots ≠ [] := by
  cases hr with
  | refl => exact h
  | tail _ hs =>
    obtain ⟨_, _, hs⟩ := hs
    exact hs.voidSlots_ne_nil

/-! ### Rounds and loops -/

theorem Sound.step_mark (h : c.Sound) :
    Collector.step.Yields ⟨c, es⟩ fun _ u => Mark c u.state := by
  refine h.step.mono fun r u hu => ?_
  cases r with
  | scanned id =>
    obtain ⟨x, target, hs, -⟩ := hu
    exact .scan hs
  | swapped n => exact .swap hu.1

theorem Sound.step_upkeep (h : c.Sound) :
    Collector.step.Yields ⟨c, es⟩ fun _ u => c.Upkeep u.state :=
  h.step_mark.mono fun _ _ hu => .single hu.beat

/-- Rounds of marking, the first of them apart from the others. -/
theorem Sound.runGarbage (h : c.Sound) :
    Collector.runGarbage.Yields ⟨c, es⟩ fun _ u => c.Marking u.state := by
  have hround : ∀ t : Traced Collector, c.Upkeep t.state →
      (do let _ ← Collector.step; pure () : Action Collector Unit).Yields t
        fun _ u => Mark t.state u.state := by
    intro t ht
    rw [Action.yields_bind]
    exact (ht.sound h).step_mark.mono fun _ _ hu => Action.yields_pure.2 hu
  unfold Collector.runGarbage
  rw [Action.yields_bind, Action.yields_ask]
  cases hsteps : c.options.garbageSteps with
  | zero =>
    refine Action.yields_pure.2 ⟨.refl c, fun hpos => ?_⟩
    rw [hsteps] at hpos
    exact absurd hpos (Nat.lt_irrefl 0)
  | succ n =>
    unfold Action.times
    rw [Action.yields_bind]
    refine (hround _ (.refl c)).mono fun _ m hm => ?_
    have hfirst : c.Upkeep m.state := .single hm.beat
    -- the invariant of the other rounds is that they were upkeep so far
    refine (Action.Yields.times (I := fun t => m.state.Upkeep t.state) (fun t ht => ?_) n
      (.refl _)).mono fun _ u hu => ⟨hfirst.trans hu, fun _ => ⟨m.state, hm, hu⟩⟩
    exact (hround t (hfirst.trans ht)).mono fun _ _ hu => ht.trans (.single hu.beat)

theorem recycleUpTo_yields (n : Nat) (h : c.store.Sound []) :
    (recycleUpTo n).Yields ⟨c, es⟩ fun _ u =>
      c.Recycling u.state ∧ (0 < n → u.state.Stocked) := by
  induction n generalizing c es with
  | zero =>
    unfold recycleUpTo
    rw [Action.yields_pure]
    exact ⟨.refl, nofun⟩
  | succ n ih =>
    unfold recycleUpTo
    rw [Action.yields_bind]
    refine (Sound.recycle h).mono fun r m hm => ?_
    obtain ⟨c', es'⟩ := m
    cases r with
    | none =>
      -- nothing was left to recycle, and the rest of the attempts is not made
      obtain ⟨hm, hnone⟩ := hm
      rw [Action.yields_pure, hm]
      exact ⟨.refl, fun _ => .inr hnone⟩
    | some id =>
      -- whatever is recycled after it, the slot of this pair stays vacant
      obtain ⟨x, hs, -⟩ := hm
      exact (ih hs.store).mono fun _ u hu =>
        ⟨.head ⟨id, x, hs⟩ hu.1, fun _ => .inl (hu.1.voidSlots_ne_nil hs.voidSlots_ne_nil)⟩

/-- The recycling that an event pays for is recycling. -/
theorem Sound.runRecycle (h : c.Sound) :
    Collector.runRecycle.Yields ⟨c, es⟩ fun _ u =>
      c.Recycling u.state ∧ (0 < c.options.recycleSteps → u.state.Stocked) := by
  unfold Collector.runRecycle
  rw [Action.yields_bind, Action.yields_ask]
  exact recycleUpTo_yields _ h.store

/-- A scan is followed by the rest of the work. -/
theorem finish_of_scanned {t u : Traced Collector}
    (hstep : Collector.step t = .ok (.scanned id) u) : Collector.finish t = Collector.finish u := by
  rw [Collector.finish]
  split
  · rename_i heq
    rw [hstep] at heq
    exact absurd heq (by simp)
  · rename_i heq
    rw [hstep] at heq
    obtain ⟨-, rfl⟩ := EStateM.Result.ok.inj heq
    rfl
  · rename_i heq
    rw [hstep] at heq
    exact absurd heq (by simp)

/-- With a swap the work is done. -/
theorem finish_of_swapped {t u : Traced Collector}
    (hstep : Collector.step t = .ok (.swapped n) u) : Collector.finish t = .ok n u := by
  rw [Collector.finish]
  split
  · rename_i heq
    rw [hstep] at heq
    obtain ⟨he, rfl⟩ := EStateM.Result.ok.inj heq
    rw [StepResult.swapped.inj he]
  · rename_i heq
    rw [hstep] at heq
    exact absurd heq (by simp)
  · rename_i heq
    rw [hstep] at heq
    exact absurd heq (by simp)

theorem finish_of_error {t u : Traced Collector} {f : Fault}
    (hstep : Collector.step t = .error f u) : Collector.finish t = .error f u := by
  rw [Collector.finish]
  split
  · rename_i heq
    rw [hstep] at heq
    exact absurd heq (by simp)
  · rename_i heq
    rw [hstep] at heq
    exact absurd heq (by simp)
  · rename_i heq
    rw [hstep] at heq
    obtain ⟨rfl, rfl⟩ := EStateM.Result.error.inj heq
    rfl

/-- **A generation ends**: after finitely many steps that scan comes one that swaps. An invariant of
the scans holds when the swap comes. The induction is on the number of unscanned pairs, which every
scan lowers. -/
theorem finish_yields {I : Traced Collector → Prop} {Q : Nat → Traced Collector → Prop}
    (hstep : ∀ t, t.state.Sound → I t → Collector.step.Yields t fun r u =>
      match r with
      | .scanned _ => u.state.Sound ∧ I u
      | .swapped n => Q n u)
    {t : Traced Collector} (h : t.state.Sound) (hI : I t) : Collector.finish.Yields t Q := by
  induction hk : t.state.unscanned using Nat.strongRecOn generalizing t with
  | ind k ih =>
    obtain ⟨r, m, hdone, hm⟩ := hstep t h hI
    cases r with
    | scanned id =>
      have hlt := unscanned_step hdone
      rw [hk] at hlt
      obtain ⟨n, u, hu, hQ⟩ := ih _ hlt hm.1 hm.2 rfl
      exact ⟨n, u, (finish_of_scanned hdone).trans hu, hQ⟩
    | swapped n => exact ⟨n, m, finish_of_swapped hdone, hm⟩

/-- A generation is finished by scans, and nothing else, and then a swap. -/
theorem Sound.finish (h : c.Sound) :
    Collector.finish.Yields ⟨c, es⟩ fun n u => ∃ c₁, c.Scanning c₁ ∧ c₁.Swapped n u.state := by
  refine finish_yields (I := fun t => c.Scanning t.state) (fun t ht hscans => ?_) h .refl
  refine ht.step.mono fun r u hu => ?_
  cases r with
  | scanned id =>
    obtain ⟨x, target, hs, -⟩ := hu
    exact ⟨hs.sound ht, .tail hscans ⟨id, x, target, hs⟩⟩
  | swapped n => exact ⟨t.state, hscans, hu.1⟩

theorem Sound.finish_upkeep (h : c.Sound) :
    Collector.finish.Yields ⟨c, es⟩ fun _ u => c.Upkeep u.state := by
  refine h.finish.mono fun n u hu => ?_
  obtain ⟨c₁, hscans, hswap⟩ := hu
  exact hscans.upkeep.trans (.single (.swap hswap))

end Collector

end ConsHeap
