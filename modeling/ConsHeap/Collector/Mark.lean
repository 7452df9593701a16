import ConsHeap.Collector.Basic

/-!
# Marking and recycling

The bounded work of the collector. A marking step takes one unscanned pair, recolors it into the
`to` generation and greys what it holds; rooted pairs come first. When nothing is left to scan, the
pairs that still carry the `from` color are unreachable: they are disposed of, and white and black
change roles. Disposed pairs wait in the free class until they are recycled.

* `Collector.unscanned_step` — a step that scans leaves one unscanned pair less, so a generation
  ends; `Collector.finish` is defined by recursion on that number.
-/

namespace ConsHeap

namespace Collector

/-! ### Greying -/

/-- A pair of the `from` generation becomes grey, or grey root if it is rooted. Every edge has to
lead to a live pair. -/
def greyChild (child : PairId) : Action Collector Unit := do
  let slot ← Action.query (·.slot child)
  Action.require (slot.color.isLive = true) (.deadEdge slot.color child)
  let generation ← Action.ask (·.generation)
  -- a pair that is grey or scanned already stays as it is
  if slot.color = generation.fromColor then onStore (Store.move child .grey)
  else if slot.color = generation.fromRoot then onStore (Store.move child .greyRoot)
  else pure ()

/-- Grey each of some pairs in turn. -/
def greyAll : List PairId → Action Collector Unit
  | [] => pure ()
  | child :: rest => do
    greyChild child
    greyAll rest

/-- Grey the pairs that a pair holds, car first. -/
def greyChildren (id : PairId) : Action Collector Unit := do
  let slot ← Action.query (·.slot id)
  greyAll slot.children

/-! ### Steps -/

/-- The outcome of a marking step. -/
inductive StepResult where
  /-- A pair was recolored into the `to` generation and its children were greyed. -/
  | scanned (id : PairId)
  /-- Nothing was left to scan; `disposed` pairs were, and the roles changed. -/
  | swapped (disposed : Nat)
  deriving DecidableEq, Repr

/-- Where a step looks for a pair to scan, and the color it gives it. -/
def scanOrder (g : Generation) : List (Color × Color) :=
  [(g.fromRoot, g.toRoot), (.greyRoot, g.toRoot), (.grey, g.toColor)]

/-- Scan the last member of a class, if there is one. It is recolored before its children are
greyed, so a pair that holds itself is already scanned. -/
def scanFrom (source target : Color) : Action Collector (Option PairId) := do
  match ← onStore (Store.popInto source target) with
  | none => return none
  | some id =>
    greyChildren id
    Action.report (.scanned id source target)
    return some id

/-- Scan one pair from the first class of a list that has one. -/
def scanFirst : List (Color × Color) → Action Collector (Option PairId)
  | [] => return none
  | (source, target) :: rest => do
    match ← scanFrom source target with
    | some id => return some id
    | none => scanFirst rest

/-- The roles of white and black exchanged. -/
def flip : Action Collector Unit :=
  Action.update fun ⟨store, objects, generation, options, stats⟩ =>
    ⟨store, objects, generation.flip, options, stats⟩

/-- Dispose of the pairs that carry the `from` color and exchange the roles of white and black. -/
def swapGenerations : Action Collector Nat := do
  let generation ← Action.ask (·.generation)
  -- the rooted twin of the `from` color has no members here: rooted pairs are scanned first
  let disposed ← onStore (Store.moveAll generation.fromColor .free)
  flip
  tally fun s =>
    { s with
      generationSwaps := s.generationSwaps + 1
      pairsDisposed := s.pairsDisposed + disposed }
  Action.report (.swapped disposed generation.flip.fromColor)
  return disposed

/-- One unit of marking work: scan a pair, or swap the generations if none is left to scan. -/
def step : Action Collector StepResult := do
  tally fun s => { s with steps := s.steps + 1 }
  let generation ← Action.ask (·.generation)
  match ← scanFirst (scanOrder generation) with
  | some id => return .scanned id
  | none => return .swapped (← swapGenerations)

/-- The marking work that one event pays for. -/
def runGarbage : Action Collector Unit := do
  let steps ← Action.ask (·.options.garbageSteps)
  Action.times steps do
    let _ ← step
    pure ()

/-! ### Recycling -/

/-- Return a slot to the arena. The managed objects that its cells hold lose a reference. -/
def recycleSlot (id : PairId) : Action Collector Unit := do
  -- the cells are read first, since the arena blanks the slot
  let slot ← Action.query (·.slot id)
  onArena (Arena.recycle id)
  discard slot.car
  discard slot.cdr

/-- Return the pair disposed of last to the arena, if there is one. -/
def recycle : Action Collector (Option PairId) := do
  match ← onStore (Store.classPop .free) with
  | none => return none
  | some id =>
    recycleSlot id
    tally fun s => { s with pairsRecycled := s.pairsRecycled + 1 }
    Action.report (.recycled id)
    return some id

/-- Recycle up to a number of pairs; the first attempt that finds none is the last. -/
def recycleUpTo : Nat → Action Collector Unit
  | 0 => pure ()
  | n + 1 => do
    match ← recycle with
    | none => pure ()
    | some _ => recycleUpTo n

/-- The recycling that one event pays for. -/
def runRecycle : Action Collector Unit := do
  let steps ← Action.ask (·.options.recycleSteps)
  recycleUpTo steps

/-! ### A whole generation -/

/-- Whether pairs of a color are live and not scanned by the current generation. -/
def isUnscanned (g : Generation) (c : Color) : Bool :=
  g.isFrom c || c == .grey || c == .greyRoot

theorem isUnscanned_fromColor (g : Generation) : isUnscanned g g.fromColor = true := by
  cases g <;> rfl

theorem isUnscanned_fromRoot (g : Generation) : isUnscanned g g.fromRoot = true := by
  cases g <;> rfl

theorem isUnscanned_grey (g : Generation) : isUnscanned g .grey = true := by
  cases g <;> rfl

theorem isUnscanned_greyRoot (g : Generation) : isUnscanned g .greyRoot = true := by
  cases g <;> rfl

/-- The number of live pairs that the current generation has not scanned. -/
def unscanned (c : Collector) : Nat :=
  c.store.size c.generation.fromColor + c.store.size c.generation.fromRoot +
    c.store.size .grey + c.store.size .greyRoot

/-- The four unscanned classes are four different ones. -/
private theorem unscanned_indicator (g : Generation) (c : Color) :
    (if isUnscanned g c then 1 else 0) =
      (if g.fromColor = c then 1 else 0) + (if g.fromRoot = c then 1 else 0) +
        (if Color.grey = c then 1 else 0) + (if Color.greyRoot = c then 1 else 0) := by
  cases g <;> cases c <;> rfl

/-- When one member goes from class `a` to class `b`, the number of unscanned pairs follows. -/
theorem unscanned_of_shift {c : Collector} {s : Store} {a b : Color}
    (h : ∀ d, s.size d + (if d = a then 1 else 0) = c.store.size d + (if d = b then 1 else 0)) :
    ({ c with store := s } : Collector).unscanned + (if isUnscanned c.generation a then 1 else 0) =
      c.unscanned + (if isUnscanned c.generation b then 1 else 0) := by
  have hg := h .grey
  have hr := h .greyRoot
  have hf := h c.generation.fromColor
  have hfr := h c.generation.fromRoot
  rw [unscanned_indicator, unscanned_indicator]
  simp only [unscanned]
  omega

/-- A pair that moves between two unscanned classes leaves their common size as it was. -/
theorem unscanned_move {t u : Traced Collector} {child : PairId} {slot : Slot} {target : Color}
    {x : Unit} (hslot : t.state.slot child = .ok slot)
    (hsource : isUnscanned t.state.generation slot.color = true)
    (htarget : isUnscanned t.state.generation target = true)
    (h : onStore (Store.move child target) t = .ok x u) :
    u.state.unscanned = t.state.unscanned ∧ u.state.generation = t.state.generation := by
  obtain ⟨m, hm, rfl⟩ := onStore_eq_ok.1 h
  obtain ⟨slot', hslot', _, hsize⟩ := Store.size_of_move hm
  obtain rfl : slot = slot' := Except.ok.inj (hslot.symm.trans hslot')
  have hshift := unscanned_of_shift hsize
  rw [hsource, htarget] at hshift
  exact ⟨Nat.add_right_cancel hshift, rfl⟩

/-- Greying takes pairs from unscanned classes to unscanned classes. -/
theorem unscanned_greyChild {t u : Traced Collector} {child : PairId} {x : Unit}
    (h : greyChild child t = .ok x u) :
    u.state.unscanned = t.state.unscanned ∧ u.state.generation = t.state.generation := by
  obtain ⟨slot, _, hquery, hrest⟩ := Action.bind_eq_ok.1 h
  obtain ⟨hslot, rfl⟩ := Action.query_eq_ok.1 hquery
  obtain ⟨_, _, hreq, hask⟩ := Action.bind_eq_ok.1 hrest
  obtain ⟨_, rfl⟩ := Action.require_eq_ok.1 hreq
  obtain ⟨generation, _, hgen, hmove⟩ := Action.bind_eq_ok.1 hask
  obtain ⟨rfl, rfl⟩ := Action.ask_eq_ok.1 hgen
  -- the pair becomes grey, becomes grey root, or was greyed or scanned before
  split at hmove
  · rename_i hc
    have hsource := hc ▸ isUnscanned_fromColor _
    exact unscanned_move hslot hsource (isUnscanned_grey _) hmove
  · split at hmove
    · rename_i hc
      have hsource := hc ▸ isUnscanned_fromRoot _
      exact unscanned_move hslot hsource (isUnscanned_greyRoot _) hmove
    · obtain ⟨_, rfl⟩ := Action.pure_eq_ok.1 hmove
      exact ⟨rfl, rfl⟩

theorem unscanned_greyAll {ids : List PairId} {t u : Traced Collector} {x : Unit}
    (h : greyAll ids t = .ok x u) :
    u.state.unscanned = t.state.unscanned ∧ u.state.generation = t.state.generation := by
  induction ids generalizing t with
  | nil =>
    obtain ⟨_, rfl⟩ := Action.pure_eq_ok.1 h
    exact ⟨rfl, rfl⟩
  | cons id ids ih =>
    obtain ⟨_, m, h₁, h₂⟩ := Action.bind_eq_ok.1 h
    have hm := unscanned_greyChild h₁
    have hu := ih h₂
    exact ⟨hu.1.trans hm.1, hu.2.trans hm.2⟩

theorem unscanned_greyChildren {id : PairId} {t u : Traced Collector} {x : Unit}
    (h : greyChildren id t = .ok x u) :
    u.state.unscanned = t.state.unscanned ∧ u.state.generation = t.state.generation := by
  obtain ⟨slot, _, hquery, hall⟩ := Action.bind_eq_ok.1 h
  obtain ⟨_, rfl⟩ := Action.query_eq_ok.1 hquery
  exact unscanned_greyAll hall

/-- A scan takes one pair out of the unscanned classes. -/
theorem unscanned_scanFrom {source target : Color} {t u : Traced Collector} {id : PairId}
    (hsource : isUnscanned t.state.generation source = true)
    (htarget : isUnscanned t.state.generation target = false)
    (h : scanFrom source target t = .ok (some id) u) :
    u.state.unscanned < t.state.unscanned := by
  obtain ⟨found, m, hpop, hrest⟩ := Action.bind_eq_ok.1 h
  obtain ⟨m', hm', rfl⟩ := onStore_eq_ok.1 hpop
  cases found with
  | none => simp [pure, EStateM.pure] at hrest
  | some last =>
    -- the recoloring pays for the scan; the greying that follows is free
    have hshift := unscanned_of_shift (Store.size_of_popInto hm').2
    obtain ⟨_, m₂, hgrey, hrest⟩ := Action.bind_eq_ok.1 hrest
    obtain ⟨_, m₃, hreport, hpure⟩ := Action.bind_eq_ok.1 hrest
    obtain rfl := Action.report_eq_ok.1 hreport
    obtain ⟨_, rfl⟩ := Action.pure_eq_ok.1 hpure
    have hgrey := (unscanned_greyChildren hgrey).1
    simp only [hsource, htarget] at hshift
    simp only at hgrey hshift ⊢
    rw [hgrey]
    simp at hshift
    omega

/-- An attempt to scan a class without members changes nothing. -/
theorem scanFrom_eq_none {source target : Color} {t u : Traced Collector}
    (h : scanFrom source target t = .ok none u) : u = t := by
  obtain ⟨found, m, hpop, hrest⟩ := Action.bind_eq_ok.1 h
  obtain ⟨m', hm', rfl⟩ := onStore_eq_ok.1 hpop
  cases found with
  | none =>
    obtain ⟨_, rfl⟩ := Action.pure_eq_ok.1 hrest
    rw [Store.popInto_eq_none hm']
  | some last =>
    obtain ⟨_, _, _, hrest⟩ := Action.bind_eq_ok.1 hrest
    obtain ⟨_, _, _, hpure⟩ := Action.bind_eq_ok.1 hrest
    exact absurd (Action.pure_eq_ok.1 hpure).1 (by simp)

/-- Whatever class the scanned pair comes from, it leaves the unscanned ones. -/
theorem unscanned_scanFirst {order : List (Color × Color)} {t u : Traced Collector} {id : PairId}
    (horder : ∀ p ∈ order, isUnscanned t.state.generation p.1 = true ∧
      isUnscanned t.state.generation p.2 = false)
    (h : scanFirst order t = .ok (some id) u) : u.state.unscanned < t.state.unscanned := by
  induction order with
  | nil => exact absurd (Action.pure_eq_ok.1 h).1 (by simp)
  | cons p order ih =>
    obtain ⟨hp₁, hp₂⟩ := horder p (by simp)
    obtain ⟨found, m, hscan, hrest⟩ := Action.bind_eq_ok.1 h
    cases found with
    | none =>
      -- the class was empty, so the rest of the order starts from the same state
      obtain rfl := scanFrom_eq_none hscan
      exact ih (fun q hq => horder q (by simp [hq])) hrest
    | some last =>
      obtain ⟨_, rfl⟩ := Action.pure_eq_ok.1 hrest
      exact unscanned_scanFrom hp₁ hp₂ hscan

theorem unscanned_scanOrder (g : Generation) (p : Color × Color) (h : p ∈ scanOrder g) :
    isUnscanned g p.1 = true ∧ isUnscanned g p.2 = false := by
  revert h
  cases g <;> simp only [scanOrder, List.mem_cons, List.not_mem_nil, or_false] <;>
    rintro (rfl | rfl | rfl) <;> decide

/-- A step that scans leaves fewer unscanned pairs. -/
theorem unscanned_step {t u : Traced Collector} {id : PairId}
    (h : step t = .ok (.scanned id) u) : u.state.unscanned < t.state.unscanned := by
  obtain ⟨_, m, htally, hrest⟩ := Action.bind_eq_ok.1 h
  obtain rfl := Action.update_eq_ok.1 htally
  obtain ⟨generation, _, hgen, hscan⟩ := Action.bind_eq_ok.1 hrest
  obtain ⟨rfl, rfl⟩ := Action.ask_eq_ok.1 hgen
  obtain ⟨found, m, hfirst, hend⟩ := Action.bind_eq_ok.1 hscan
  cases found with
  | none =>
    obtain ⟨_, _, _, hpure⟩ := Action.bind_eq_ok.1 hend
    exact absurd (Action.pure_eq_ok.1 hpure).1 (by simp)
  | some last =>
    obtain ⟨_, rfl⟩ := Action.pure_eq_ok.1 hend
    exact Nat.lt_of_lt_of_eq (unscanned_scanFirst (unscanned_scanOrder _) hfirst) rfl

/-- Steps until the generation is swapped; the answer is the number of pairs disposed of by the
swap. -/
def finish : Action Collector Nat := fun t =>
  match _hstep : step t with
  | .ok (.swapped disposed) u => .ok disposed u
  | .ok (.scanned _) u => finish u
  | .error f u => .error f u
termination_by t => t.state.unscanned
decreasing_by exact unscanned_step _hstep

end Collector

end ConsHeap
