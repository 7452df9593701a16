import ConsHeap.Proofs.Collector.Runs

/-!
# Garbage does not survive two swaps

A pair that no root leads to is disposed of by the second swap from then on, as long as the program
names reachable pairs only (`Collector.Run.garbage_disposed`). Two observations carry the proof.

* What is not reachable is *shunned*: all pairs that hold it are not reachable either, dead cycles
  included (`Graph.Shuns`). Operations on reachable pairs give a shunned pair neither a root nor a
  new holder, so it stays shunned.
* A pair is greyed only when a pair that holds it is scanned, or when a program names it. Right
  after a swap every live pair is in the `from` generation. So shunned pairs that are all in the
  `from` generation stay there, because no pair of any other color holds one of them: the next swap
  disposes of them all.

`Collector.Waits c p k` puts this into one invariant: `p` is shunned and will be disposed of by the
swap number `k + 1` from now. A swap lowers `k`, and everything else keeps it.
-/

namespace ConsHeap

namespace Collector

variable {c c' c₀ s d t : Collector} {id j p child : PairId} {x y : Slot} {es es' : Array Event}
  {op : Op} {reply : Reply} {past between : List Collector} {o : Options} {k n : Nat}
  {D : PairId → Prop} {kids : List PairId}

/-! ### Disposed pairs -/

/-- The slot of a pair was given up: it waits to be recycled, or it is void again. -/
def IsDisposed (c : Collector) (p : PairId) : Prop :=
  ∃ x, c.slot p = .ok x ∧ (x.color = .free ∨ x.color = .void)

theorem isDisposed_iff : c.IsDisposed p ↔ ∃ x, c.look p = some x ∧ x.color.isLive = false := by
  have hdead : ∀ d : Color, d = .free ∨ d = .void ↔ d.isLive = false := by
    intro d
    cases d <;> decide
  constructor
  · rintro ⟨x, hx, hc⟩
    exact ⟨_, look_of_slot hx, (hdead x.color).1 hc⟩
  · rintro ⟨y, hy, hl⟩
    obtain ⟨x, hx, rfl⟩ := slot_of_look hy
    exact ⟨x, hx, (hdead x.color).2 hl⟩

/-- The collector's own work does not bring a pair back. -/
theorem Beat.isDisposed (hb : Beat c c') (h : c.Sound) (hp : c.IsDisposed p) :
    c'.IsDisposed p := by
  rw [isDisposed_iff] at hp ⊢
  obtain ⟨x, hx, hl⟩ := hp
  cases hb with
  | scan hs => exact ⟨_, hs.store.look_of hx, (hs.afterScan_spec hx).2.trans hl⟩
  | swap hs =>
    refine ⟨_, hs.store.look_of hx, ?_⟩
    change (c.generation.afterSwap x.color).isLive = false
    unfold Generation.afterSwap
    split
    · rfl
    · exact hl
  | @recycle id _ hs =>
    by_cases hid : p = id
    · exact ⟨{}, by rw [hs.look_eq_ite, if_pos hid], rfl⟩
    · exact ⟨x, by rw [hs.look_eq_ite, if_neg hid, hx], hl⟩
  | cycle hs =>
    -- what was disposed of is not live, so the cycle does not find it
    have hdead : ¬c.graph.Reachable p := by
      intro hreach
      rw [h.isLive_of_look hx hreach] at hl
      exact absurd hl (by decide)
    exact ⟨{}, hs.dropped hx hdead, rfl⟩

/-! ### Pairs that wait to be disposed of -/

/-- The pairs of `D` carry the `from` color. -/
def InFrom (c : Collector) (D : PairId → Prop) : Prop :=
  ∀ j x, D j → c.look j = some x → x.color = c.generation.fromColor

/-- A pair is shunned, and disposed of by the swap number `k + 1` from now. -/
def Waits (c : Collector) (p : PairId) (k : Nat) : Prop :=
  ∃ D, c.graph.Shuns D ∧ D p ∧ (k = 0 → c.InFrom D)

/-- A live pair that is not reachable is disposed of by the second swap at the latest. -/
theorem Waits.of_not_reachable (hl : c.IsLive p) (hp : ¬c.graph.Reachable p) : c.Waits p 1 :=
  ⟨_, c.graph.shuns_unreachable, ⟨isLive_iff.1 hl, hp⟩, fun h => absurd h (by decide)⟩

theorem Waits.not_reachable (hw : c.Waits p k) : ¬c.graph.Reachable p := by
  obtain ⟨D, hD, hp, -⟩ := hw
  exact hD.not_reachable hp

/-- Shunned pairs are in use. -/
theorem isLive_of_shuns (hD : c.graph.Shuns D) (hj : D j) : c.IsLive j := by
  obtain ⟨n, hn, -⟩ := hD.unrooted hj
  exact isLive_iff.2 ⟨n, hn⟩

theorem Waits.isLive (hw : c.Waits p k) : c.IsLive p := by
  obtain ⟨D, hD, hp, -⟩ := hw
  exact isLive_of_shuns hD hp

/-- Bulk pairs of the `from` color are not scanned unless they were greyed. -/
theorem ne_fromColor_of_mem_scanOrder {g : Generation} {source target : Color}
    (h : (source, target) ∈ scanOrder g) : source ≠ g.fromColor := by
  revert h
  simp only [scanOrder, List.mem_cons, Prod.mk.injEq, List.not_mem_nil, or_false]
  rintro (⟨rfl, rfl⟩ | ⟨rfl, rfl⟩ | ⟨rfl, rfl⟩) <;> cases g <;> decide

/-- **A scan does not grey a shunned pair of the `from` color**: the scanned pair has another color,
so that it is not shunned and holds no shunned pair. -/
theorem Scanned.inFrom {target : Color} (hs : c.Scanned id x target c') (hD : c.graph.Shuns D)
    (hin : c.InFrom D) : c'.InFrom D := by
  intro j y hj hy
  have hid : ¬D id := fun hid =>
    ne_fromColor_of_mem_scanOrder hs.order (hin id x hid hs.look_eq)
  have hl : x.color.isLive = true := (of_mem_scanOrder hs.order).1
  have hnot : j ∉ x.children := fun hchild =>
    hid (hD.holders (graph_of_look hs.look_eq hl) hchild hj)
  obtain ⟨z, hz, rfl⟩ := hs.look_inv hy
  change c.generation.afterScan target id x.children j z.color = c'.generation.fromColor
  unfold Generation.afterScan
  have hne : j ≠ id := by
    rintro rfl
    exact hid hj
  rw [if_neg hnot, if_neg hne, hs.generation_eq]
  exact hin j z hj hz

theorem Scanned.waits {target : Color} (hs : c.Scanned id x target c') (hw : c.Waits p k) :
    c'.Waits p k := by
  obtain ⟨D, hD, hp, hfrom⟩ := hw
  exact ⟨D, hs.graph_eq ▸ hD, hp, fun hk => hs.inFrom hD (hfrom hk)⟩

/-- Shunned pairs are live, and so they are not recycled. -/
theorem Recycled.inFrom (hs : c.Recycled id x c') (hD : c.graph.Shuns D) (hin : c.InFrom D) :
    c'.InFrom D := by
  intro j y hj hy
  obtain ⟨z, hz, hzl⟩ := isLive_of_shuns hD hj
  rw [hs.look_of_isLive hz hzl] at hy
  obtain rfl := Option.some.inj hy
  have hgen : c'.generation = c.generation := by rw [hs.frame]
  rw [hgen]
  exact hin j z hj hz

theorem Recycled.waits (hs : c.Recycled id x c') (hw : c.Waits p k) : c'.Waits p k := by
  obtain ⟨D, hD, hp, hfrom⟩ := hw
  exact ⟨D, hs.graph_eq ▸ hD, hp, fun hk => hs.inFrom hD (hfrom hk)⟩

/-- After a swap every live pair is in the `from` generation, and the dead ones are not rooted. -/
theorem Swapped.inFrom (hs : c.Swapped n c') (h : c.Sound) :
    c'.InFrom fun j => (∃ n, c'.graph j = some n) ∧ ¬c'.graph.Reachable j := by
  intro j y hj hy
  obtain ⟨⟨n, hn⟩, hdead⟩ := hj
  obtain ⟨z, hz, hzl, -⟩ := graph_eq_some.1 hn
  obtain rfl := Option.some.inj (hy.symm.trans hz)
  have hto := (hs.look_of_isLive hy hzl).2
  have hroot : y.color.isRoot = false :=
    (Bool.not_eq_true _).mp fun hr => hdead ((hs.sound h).reachable_of_isRoot hy hr)
  rw [hs.generation_eq]
  exact Generation.eq_fromColor_flip hto hroot

/-- So the dead pairs wait for the next swap. -/
theorem Swapped.waits (hs : c.Swapped n c') (h : c.Sound) (hl : c'.IsLive p)
    (hp : ¬c'.graph.Reachable p) : c'.Waits p 0 :=
  ⟨_, c'.graph.shuns_unreachable, ⟨isLive_iff.1 hl, hp⟩, fun _ => hs.inFrom h⟩

/-- **A swap disposes of all pairs of the `from` color.** -/
theorem Swapped.not_isLive (hs : c.Swapped n c') (hD : c.graph.Shuns D) (hin : c.InFrom D)
    (hp : D p) : ¬c'.IsLive p := by
  rintro ⟨y, hy, hyl⟩
  obtain ⟨x, hx, -⟩ := isLive_of_shuns hD hp
  obtain rfl := Option.some.inj ((hs.store.look_of hx).symm.trans hy)
  change (c.generation.afterSwap x.color).isLive = true at hyl
  rw [hin p x hp hx, Generation.afterSwap, if_pos rfl] at hyl
  exact absurd hyl (by decide)

/-- **A swap disposes of a waiting pair or shortens its wait.** -/
theorem Swapped.disposed_or_waits (hs : c.Swapped n c') (h : c.Sound) (hw : c.Waits p k) :
    c'.IsDisposed p ∨ ∃ m, k = m + 1 ∧ c'.Waits p m := by
  have hdead : ¬c'.graph.Reachable p := by
    rw [(hs.trims h).reachable_iff]
    exact hw.not_reachable
  obtain ⟨x, hx, hxl⟩ := hw.isLive
  have hx' := hs.store.look_of hx
  by_cases hl : c'.IsLive p
  · right
    cases k with
    | zero =>
      obtain ⟨D, hD, hp, hfrom⟩ := hw
      exact absurd hl (hs.not_isLive hD (hfrom rfl) hp)
    | succ m =>
      -- all that is left has the `from` color now, so the next swap disposes of it
      obtain ⟨D, hD, hp, hfrom⟩ := hs.waits h hl hdead
      exact ⟨m, rfl, D, hD, hp, fun _ => hfrom rfl⟩
  · left
    refine isDisposed_iff.2 ⟨_, hx', ?_⟩
    rw [← Bool.not_eq_true]
    exact fun hyl => hl ⟨_, hx', hyl⟩

theorem Cycled.disposed (hs : c.Cycled n c') (hw : c.Waits p k) : c'.IsDisposed p := by
  obtain ⟨x, hx, -⟩ := hw.isLive
  exact isDisposed_iff.2 ⟨{}, hs.dropped hx hw.not_reachable, rfl⟩

/-- Reachable pairs and slots not in use are not shunned. -/
theorem not_of_shuns (hD : c.graph.Shuns D) (hid : c.graph.Reachable id ∨ ¬c.IsLive id) :
    ¬D id := by
  intro hDid
  rcases hid with hreach | hdead
  · exact hD.not_reachable hDid hreach
  · exact hdead (isLive_of_shuns hD hDid)

/-- **An edit on pairs that are not shunned leaves shunned pairs alone**: what the pair comes to
hold was named, or a pair that is not shunned held it before. -/
theorem Edited.shuns (he : c.Edited id y kids c') (hid : c.graph.Reachable id ∨ ¬c.IsLive id)
    (hkids : ∀ kid ∈ kids, c.graph.Reachable kid) (hD : c.graph.Shuns D) : c'.graph.Shuns D := by
  have hid' : ¬D id := not_of_shuns hD hid
  rw [he.graph_eq]
  refine hD.insert hid' fun child hchild hDchild => ?_
  rcases he.barrier child hchild with hkid | ⟨x, hx, hl, hold, -⟩
  · exact hD.not_reachable hDchild (hkids child hkid)
  · exact hid' (hD.holders (graph_of_look hx hl) hold hDchild)

/-- The shunned pairs are neither overwritten nor greyed. -/
theorem Edited.inFrom (he : c.Edited id y kids c') (hid : c.graph.Reachable id ∨ ¬c.IsLive id)
    (hkids : ∀ kid ∈ kids, c.graph.Reachable kid) (hD : c.graph.Shuns D) (hin : c.InFrom D) :
    c'.InFrom D := by
  intro j z hj hz
  have hne : j ≠ id := by
    rintro rfl
    exact not_of_shuns hD hid hj
  obtain ⟨w, hwj, -⟩ := isLive_of_shuns hD hj
  rw [he.look_other hne hwj] at hz
  obtain rfl := Option.some.inj hz
  rw [he.generation_eq]
  change c.generation.shade kids j w.color = _
  rw [Generation.shade_of_not_mem fun hkid => hD.not_reachable hj (hkids j hkid)]
  exact hin j w hj hwj

/-- What the change of an operation on reachable pairs is like: the pairs are left as they are, or
one pair is edited, which was reachable or not in use, and reachable ones are greyed. -/
theorem Edit.on_reachable {P : Collector → Prop} (he : Edit c op reply c')
    (hids : ∀ id ∈ op.ids, c.graph.Reachable id) (same : ∀ os, P { c with objects := os })
    (edited : ∀ {id y kids c'}, c.Edited id y kids c' → c.graph.Reachable id ∨ ¬c.IsLive id →
      (∀ kid ∈ kids, c.graph.Reachable kid) → P c') : P c' := by
  have hnone : ∀ kid ∈ ([] : List PairId), c.graph.Reachable kid :=
    fun _ hkid => absurd hkid List.not_mem_nil
  cases he with
  | work => exact same c.objects
  | refused => exact same _
  | made vacant _ hs => exact edited hs (.inr vacant) hids
  | rooted hop _ _ hs =>
    refine edited hs (.inl (hids _ ?_)) hnone
    rcases hop with rfl | rfl <;> exact List.mem_cons_self
  | retained hop _ _ hs =>
    refine edited hs (.inl (hids _ ?_)) hnone
    rcases hop with rfl | rfl <;> exact List.mem_cons_self
  | unrooted _ _ hs => exact edited hs (.inl (hids _ List.mem_cons_self)) hnone
  | written _ _ hs =>
    exact edited hs (.inl (hids _ List.mem_cons_self))
      fun kid hkid => hids kid (List.mem_cons_of_mem _ hkid)

/-- Operations on reachable pairs leave a shunned pair alone. -/
theorem Edit.waits (he : Edit c op reply c') (hids : ∀ id ∈ op.ids, c.graph.Reachable id)
    (hw : c.Waits p k) : c'.Waits p k := by
  refine he.on_reachable (P := fun c' => c'.Waits p k) hids (fun _ => hw) fun hs hid hkids => ?_
  obtain ⟨D, hD, hp, hfrom⟩ := hw
  exact ⟨D, hs.shuns hid hkids hD, hp, fun hk => hs.inFrom hid hkids hD (hfrom hk)⟩

/-! ### Counting swaps -/

/-- Some swap or full cycle took place between two states. -/
def Later (s c : Collector) : Prop :=
  s.stats.generationSwaps < c.stats.generationSwaps ∨ s.stats.fullCycles < c.stats.fullCycles

theorem not_later_self : ¬Later s s :=
  fun h => h.elim (Nat.lt_irrefl _) (Nat.lt_irrefl _)

/-- Since the state `s` nothing happened but swaps, and `p` waits for what is left of `k` of
them. -/
def StillWaits (s c : Collector) (p : PairId) (k : Nat) : Prop :=
  ∃ m, c.Waits p m ∧ m ≤ k ∧ c.stats.generationSwaps + m = s.stats.generationSwaps + k ∧
    c.stats.fullCycles = s.stats.fullCycles

/-- A pair waits, or was disposed of by a swap or a full cycle. -/
def Settled (s c : Collector) (p : PairId) (k : Nat) : Prop :=
  StillWaits s c p k ∨ (c.IsDisposed p ∧ Later s c)

/-- What neither swaps nor collects, and lets a pair wait, lets it go on waiting. -/
theorem StillWaits.congr (hp : StillWaits s c p k) (hwaits : ∀ m, c.Waits p m → c'.Waits p m)
    (hswaps : c'.stats.generationSwaps = c.stats.generationSwaps)
    (hcycles : c'.stats.fullCycles = c.stats.fullCycles) : StillWaits s c' p k := by
  obtain ⟨m, hw, hm, hcount, hsame⟩ := hp
  exact ⟨m, hwaits m hw, hm, by rw [hswaps, hcount], by rw [hcycles, hsame]⟩

/-- Swaps and full cycles are counted, and these counts never go down. -/
theorem Beat.counts (hb : Beat c c') :
    c.stats.generationSwaps ≤ c'.stats.generationSwaps ∧
      c.stats.fullCycles ≤ c'.stats.fullCycles := by
  cases hb with
  | scan hs =>
    rw [hs.frame]
    exact ⟨Nat.le_refl _, Nat.le_refl _⟩
  | swap hs =>
    rw [hs.frame]
    exact ⟨Nat.le_succ _, Nat.le_refl _⟩
  | recycle hs =>
    rw [hs.frame]
    exact ⟨Nat.le_refl _, Nat.le_refl _⟩
  | cycle hs =>
    rw [hs.frame]
    exact ⟨Nat.le_refl _, Nat.le_succ _⟩

theorem Beat.later (hb : Beat c c') (hl : Later s c) : Later s c' := by
  obtain ⟨hle, hle'⟩ := hb.counts
  rcases hl with hlt | hlt
  · exact .inl (Nat.lt_of_lt_of_le hlt hle)
  · exact .inr (Nat.lt_of_lt_of_le hlt hle')

theorem Upkeep.later (hu : c.Upkeep c') (hl : Later s c) : Later s c' := by
  induction hu with
  | refl => exact hl
  | tail _ hb ih => exact hb.later ih

theorem Beat.settled (hb : Beat c c') (h : c.Sound) (hp : Settled s c p k) :
    Settled s c' p k := by
  rcases hp with hstill | ⟨hgone, hlater⟩
  · cases hb with
    | scan hs =>
      exact .inl (hstill.congr (fun _ hw => hs.waits hw) (by rw [hs.frame]) (by rw [hs.frame]))
    | recycle hs =>
      exact .inl (hstill.congr (fun _ hw => hs.waits hw) (by rw [hs.frame]) (by rw [hs.frame]))
    | swap hs =>
      -- the swap is counted, and the wait gets shorter by it
      obtain ⟨m, hw, hm, hswaps, hcycles⟩ := hstill
      have hsucc : c'.stats.generationSwaps = c.stats.generationSwaps + 1 := by rw [hs.frame]
      have hsame : c'.stats.fullCycles = c.stats.fullCycles := by rw [hs.frame]
      rcases hs.disposed_or_waits h hw with hgone | ⟨m, rfl, hw'⟩
      · exact .inr ⟨hgone, .inl (by omega)⟩
      · exact .inl ⟨m, hw', by omega, by omega, by omega⟩
    | cycle hs =>
      obtain ⟨m, hw, hm, hswaps, hcycles⟩ := hstill
      have hsucc : c'.stats.fullCycles = c.stats.fullCycles + 1 := by rw [hs.frame]
      exact .inr ⟨hs.disposed hw, .inr (by omega)⟩
  · exact .inr ⟨hb.isDisposed h hgone, hb.later hlater⟩

theorem Upkeep.settled (hu : c.Upkeep c') (h : c.Sound) (hp : Settled s c p k) :
    Settled s c' p k := by
  induction hu with
  | refl => exact hp
  | tail hu hb ih => exact hb.settled (Upkeep.sound hu h) ih

/-- Recycling neither swaps nor collects. -/
theorem Recycling.stillWaits (hr : c.Recycling c') (hp : StillWaits s c p k) :
    StillWaits s c' p k := by
  induction hr with
  | refl => exact hp
  | tail _ hs ih =>
    obtain ⟨_, _, hs⟩ := hs
    exact ih.congr (fun _ hw => hs.waits hw) (by rw [hs.frame]) (by rw [hs.frame])

/-- The change that an operation makes is no swap and no full cycle. -/
theorem Edit.counts (he : Edit c op reply c') :
    c'.stats.generationSwaps = c.stats.generationSwaps ∧
      c'.stats.fullCycles = c.stats.fullCycles := by
  rw [he.frame]
  exact ⟨rfl, rfl⟩

theorem Performs.later (hp : c.Performs op reply c') (hl : Later s c) : Later s c' := by
  obtain ⟨c₁, c₂, hrec, hedit, hup, -⟩ := hp
  refine hup.later ?_
  obtain ⟨heq, heq'⟩ := hedit.counts
  have hl₁ := hrec.upkeep.later hl
  unfold Later
  rw [heq, heq']
  exact hl₁

/-- An operation on reachable pairs does not save a pair that waits. -/
theorem Performs.settled (hp : c.Performs op reply c') (h : c.Sound)
    (hids : ∀ id ∈ op.ids, c.graph.Reachable id) (hw : StillWaits s c p k) :
    Settled s c' p k := by
  obtain ⟨c₁, c₂, hrec, hedit, hup, -⟩ := hp
  have h₁ := hrec.upkeep.sound h
  have hids₁ : ∀ id ∈ op.ids, c₁.graph.Reachable id := by
    rw [hrec.graph_eq]
    exact hids
  obtain ⟨hswaps, hcycles⟩ := hedit.counts
  have hedited : StillWaits s c₂ p k :=
    (hrec.stillWaits hw).congr (fun _ hw₁ => hedit.waits hids₁ hw₁) hswaps hcycles
  exact hup.settled (hedit.sound h₁) (.inl hedited)

/-! ### Whole runs -/

/-- Operations whose arguments are live, and reachable. -/
def Op.ReachableArgs (c : Collector) (op : Op) : Prop :=
  op.LiveArgs c ∧ ∀ id ∈ op.ids, c.graph.Reachable id

/-- Along a run on reachable arguments a waiting pair goes on waiting until it is disposed of by a
swap or a full cycle. -/
theorem Run.stillWaits_or_disposed (run : Run Op.ReachableArgs s between d) (h : s.Sound)
    (hw : s.Waits p k) :
    StillWaits s d p k ∨ ((∃ e ∈ d :: between, e.IsDisposed p) ∧ Later s d) := by
  induction run with
  | start => exact .inl ⟨k, hw, Nat.le_refl k, rfl, rfl⟩
  | @perform past c d op reply es es' g r run allowed done ih =>
    have hc : c.Sound := run.sound h fun _ _ hargs => hargs.1
    have hp := hc.performs allowed.1 done
    -- once the pair was disposed of in some state, that state stays among those passed
    rcases ih with hstill | ⟨⟨e, he, hgone⟩, hlater⟩
    · rcases hp.settled (hc.paced g r) allowed.2 hstill with hstill' | ⟨hgone, hlater⟩
      · exact .inl hstill'
      · exact .inr ⟨⟨d, List.mem_cons_self, hgone⟩, hlater⟩
    · exact .inr ⟨⟨e, List.mem_cons_of_mem _ he, hgone⟩, hp.later hlater⟩

/-- What a swap leaves of a dead pair waits for the next swap. -/
theorem waits_of_swapped (h : t.Sound) (hstep : step ⟨t, es⟩ = .ok (.swapped n) ⟨s, es'⟩)
    (hl : s.IsLive p) (hp : ¬s.graph.Reachable p) : s.Waits p 0 :=
  (h.step.elim hstep).1.waits h hl hp

/-- **Garbage does not survive a second swap.** Let `p` be live and not reachable in a state `s`
that operations on live arguments lead to, and let the run go on to `d` with operations on reachable
pairs. If two swaps or a full cycle took place since `s`, then `p` was disposed of in some state on
the way, and a full cycle that is done next disposes of it at the latest. If `s` is a state right
after a swap, then `p` keeps the `from` color until the next swap or full cycle, and it was disposed
of as soon as one has taken place. -/
theorem Run.garbage_disposed (created : Collector.create o = .ok c₀)
    (run : Run Op.LiveArgs c₀ past s) (live : s.IsLive p) (dead : ¬s.graph.Reachable p)
    (run' : Run Op.ReachableArgs s between d) :
    (s.stats.generationSwaps + 2 ≤ d.stats.generationSwaps ∨
        s.stats.fullCycles < d.stats.fullCycles →
      ∃ e ∈ d :: between, e.IsDisposed p) ∧
    (∀ es n c' es', cycle ⟨d, es⟩ = .ok n ⟨c', es'⟩ →
      ∃ e ∈ c' :: d :: between, e.IsDisposed p) ∧
    ∀ t past' es n es', Run Op.LiveArgs c₀ past' t →
      step ⟨t, es⟩ = .ok (.swapped n) ⟨s, es'⟩ →
      (¬Later s d → ∃ x, d.slot p = .ok x ∧ x.color = d.generation.fromColor) ∧
        (Later s d → ∃ e ∈ d :: between, e.IsDisposed p) := by
  have hs : s.Sound := run.sound (.create created) fun _ _ hargs => hargs
  have hsettled := run'.stillWaits_or_disposed hs (.of_not_reachable live dead)
  refine ⟨fun hlater => ?_, fun es n c' es' hcycle => ?_, fun t past' es n es' runt hstep => ?_⟩
  · -- a wait for the second swap cannot go on after two of them
    rcases hsettled with ⟨m, -, -, hswaps, hcycles⟩ | ⟨hgone, -⟩
    · rcases hlater with hlt | hlt
      · omega
      · omega
    · exact hgone
  · rcases hsettled with ⟨m, hw, -⟩ | ⟨⟨e, he, hgone⟩, -⟩
    · -- a full cycle does not ask how long a pair has waited
      have hd : d.Sound := run'.sound hs fun _ _ hargs => hargs.1
      exact ⟨c', List.mem_cons_self, (hd.cycle.elim hcycle).disposed hw⟩
    · exact ⟨e, List.mem_cons_of_mem c' he, hgone⟩
  · have ht : t.Sound := runt.sound (.create created) fun _ _ hargs => hargs
    have hwaits := run'.stillWaits_or_disposed hs (waits_of_swapped ht hstep live dead)
    constructor
    · intro hnot
      rcases hwaits with ⟨m, ⟨D, hD, hp, hfrom⟩, hm, -⟩ | ⟨-, hlater⟩
      · -- the wait is for the next swap, so all that is shunned has the `from` color
        obtain rfl : m = 0 := by omega
        obtain ⟨j, hj, -⟩ := hD.unrooted hp
        obtain ⟨y, hy, -, -⟩ := graph_eq_some.1 hj
        have hcolor := hfrom rfl p y hp hy
        obtain ⟨x, hx, rfl⟩ := slot_of_look hy
        exact ⟨x, hx, hcolor⟩
      · exact absurd hlater hnot
    · intro hlater
      rcases hwaits with ⟨m, -, hm, hswaps, hcycles⟩ | ⟨hgone, -⟩
      · rcases hlater with hlt | hlt
        · omega
        · omega
      · exact hgone

/-- Without roots nothing is reachable. -/
theorem Sound.not_reachable_of_roots (h : c.Sound) (hroots : c.roots = []) (id : PairId) :
    ¬c.graph.Reachable id := by
  intro hid
  rw [← h.reaches_iff] at hid
  induction hid with
  | root hroot hmem =>
    have hmem' := Store.mem_roots.2 ⟨_, hroot, hmem⟩
    rw [show c.store.roots = [] from hroots] at hmem'
    exact absurd hmem' List.not_mem_nil
  | edge _ _ _ ih => exact ih

/-- A pair was scanned, and then its only root was given up. -/
def abandoned : Collector :=
  ((manualTwo.after (.make .nil (.integer 7))).after .step).after (.unroot ⟨0⟩)

/-- The pair survives the swap that ends its generation. Until the next swap it has the `from`
color; that swap disposes of it, and so does a full cycle. -/
theorem garbage_disposed_scanned : ∃ past s between c d, Run Op.LiveArgs manualTwo past s ∧
    s.IsLive ⟨0⟩ ∧ ¬s.graph.Reachable ⟨0⟩ ∧ Run Op.ReachableArgs s [s] c ∧
    Run Op.ReachableArgs s between d ∧
    s.stats.generationSwaps + 2 ≤ d.stats.generationSwaps ∧
    (∃ e ∈ d :: between, e.IsDisposed ⟨0⟩) ∧
    (∃ n c' es', cycle ⟨s, #[]⟩ = .ok n ⟨c', es'⟩ ∧ ∃ e ∈ [c', s], e.IsDisposed ⟨0⟩) ∧
    (∃ x, s.slot ⟨0⟩ = .ok x ∧ x.color = s.generation.fromColor) ∧
    Later s c ∧ ∃ e ∈ [c, s], e.IsDisposed ⟨0⟩ := by
  have allowed : ∀ c op, Op.ReachableArgs c op → op.LiveArgs c := fun _ _ hargs => hargs.1
  have hstep : ∀ c, Op.ReachableArgs c .step :=
    fun c => ⟨trivial, fun id hid => absurd hid List.not_mem_nil⟩
  have made := Run.start.live (.make .nil (.integer 7)) (by decide +kernel)
  have unrooted : Run Op.LiveArgs manualTwo _ abandoned :=
    (made.live .step trivial).live (.unroot ⟨0⟩) (by decide +kernel)
  have swapped := unrooted.live .step trivial
  have hsound := swapped.sound sound_manualTwo fun _ _ hargs => hargs
  have live : (abandoned.after .step).IsLive ⟨0⟩ := by decide +kernel
  have dead := hsound.not_reachable_of_roots (by decide +kernel) ⟨0⟩
  have once := Run.start.after hsound allowed .step (hstep _)
  have twice := once.after hsound allowed .step (hstep _)
  -- the state itself, the one after the next swap, and the one after two swaps
  obtain ⟨-, hcycle, hfrom⟩ := Run.garbage_disposed create_manualTwo swapped live dead .start
  obtain ⟨-, -, hgone⟩ := Run.garbage_disposed create_manualTwo swapped live dead once
  obtain ⟨hgone', -, -⟩ := Run.garbage_disposed create_manualTwo swapped live dead twice
  obtain ⟨n, ⟨c', es'⟩, hdone, -⟩ : cycle.Yields ⟨_, #[]⟩ _ := hsound.cycle
  have hlater : Later (abandoned.after .step) ((abandoned.after .step).after .step) :=
    .inl (by decide +kernel)
  have htwo : (abandoned.after .step).stats.generationSwaps + 2 ≤
    (((abandoned.after .step).after .step).after .step).stats.generationSwaps := by decide +kernel
  exact ⟨_, _, _, _, _, swapped, live, dead, once, twice, htwo, hgone' (.inl htwo),
    ⟨n, c', es', hdone, hcycle _ n c' es' hdone⟩,
    (hfrom _ _ #[] _ _ unrooted rfl).1 not_later_self, hlater,
    (hgone _ _ #[] _ _ unrooted rfl).2 hlater⟩

end Collector

end ConsHeap
