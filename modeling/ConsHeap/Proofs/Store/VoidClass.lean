import ConsHeap.Proofs.Store.Order
import ConsHeap.Proofs.Store.Stamps

/-!
# The class of void slots

Void slots belong to the arena, so the class of `void` is to have no members. One guard sees to
that: it stands where a pair is added to a class. Pairs come into classes in other ways, too, and
there the guard is late or missing.

* A pair that moves, or that is popped into another class, is taken out of its class first. If the
  other class is that of `void`, the guard then stops the call, and the pair is in no class.
* The members of a class that moves as a whole pass no guard. They become the members of `void`.

`Store.Calls s₀ past s` says that any calls on the classes lead from `s₀` to `s`, also calls that
fault. `Store.keeps_void_perform` is the step: a call makes the class of `void` larger only if it
moves a whole class there.

* `Store.Calls.void_guarded` — when the class of `void` stays empty, and what each kind of call that
  would put a pair into it does;
* `Store.Sound.solePlace` — a pair has one place in a store that is in order, so there it is lost if
  it has left its class;
* `Store.not_void_refused` — not all of these calls are refused, and not all that are leave the
  classes as they were.
-/

namespace ConsHeap

namespace Store

variable {s s₀ : Store} {past : List Op} {loose : List PairId} {id : PairId} {c d e : Color}
  {x : Slot} {i n : Nat} {op : Op} {es : Array Event}

/-! ### Calls -/

namespace Op

/-- The operation takes nothing out of a single class for its caller to put back. -/
def IsWhole : Op → Prop
  | .add _ _ | .remove _ | .move _ _ | .popInto _ _ | .moveAll _ _ => True
  | .pop _ | .take _ => False

/-- The ids that are given to an operation. -/
def ids : Op → List PairId
  | .add id _ | .remove id | .move id _ => [id]
  | .popInto _ _ | .moveAll _ _ | .pop _ | .take _ => []

/-- The operation moves a whole class into that of `void`. -/
def FillsVoid (op : Op) : Prop :=
  ∃ c, op = .moveAll c .void

end Op

/-- `s` is reached from `s₀` by calls on slots that were handed out, the latest first in `past`. A
call may fault; the next one then starts from where it stopped. In between the arena hands out
slots. -/
inductive Calls (s₀ : Store) : List Op → Store → Prop where
  | start : Calls s₀ [] s₀
  | handed {past : List Op} {s : Store} {b : Arena} {r : Except HeapError PairId}
    {es' : Array Event} (calls : Calls s₀ past s) (es : Array Event)
    (done : Arena.next ⟨s.arena, es⟩ = .ok r ⟨b, es'⟩) : Calls s₀ past ⟨b, s.classes⟩
  | called {past : List Op} {s : Store} (calls : Calls s₀ past s) (op : Op) (whole : op.IsWhole)
    (carved : ∀ id ∈ op.ids, s.IsCarved id) (es : Array Event) :
    Calls s₀ (op :: past) ((perform op).ending ⟨s, es⟩)

/-! ### What keeps the class of void slots small -/

theorem keeps_void_add : (Store.add id c).Keeps fun s => s.size .void ≤ n := by
  refine Action.keeps_require.bind_of_ok fun t x u _ hx hu => ?_
  obtain ⟨hc, -⟩ := Action.require_eq_ok.1 hx
  -- a pair enters a class other than that of void slots
  have henlist : (classAdd id c).Keeps fun s => s.size .void ≤ n := by
    refine Action.keeps_query.bind fun _ => Action.keeps_update fun s hs => ?_
    rw [size_enlist, if_neg (Ne.symm hc)]
    exact hs
  exact henlist u hu

theorem keeps_void_remove : (Store.remove id).Keeps fun s => s.size .void ≤ n := by
  have hdelist : ∀ (s : Store) (c : Color) (i : Nat), s.size .void ≤ n →
      (s.delist c i).size .void ≤ n := by
    intro s c i hs
    rw [size_delist]
    split
    · rename_i hc
      rw [← hc]
      omega
    · exact hs
  exact Action.keeps_query.bind fun _ => Action.keeps_query.bind fun _ =>
    Action.keeps_require.bind fun _ => Action.keeps_ask.bind fun _ =>
      Action.keeps_require.bind fun _ => Action.keeps_update fun s hs => hdelist s _ _ hs

theorem keeps_void_classPop : (classPop c).Keeps fun s => s.size .void ≤ n := by
  refine Action.keeps_updateGet fun s hs => ?_
  obtain ⟨arena, classes⟩ := s
  dsimp only [Classes.pop]
  cases (classes.members c).back? with
  | none => exact hs
  | some id =>
    show Classes.size _ _ ≤ n
    rw [Classes.size_modify]
    split
    · rename_i hc
      rw [Array.size_pop, ← hc]
      exact Nat.le_trans (Nat.sub_le _ 1) hs
    · exact hs

/-! ### A class that moves as a whole -/

theorem members_foldl_enlist_ne {ids : List PairId} (h : e ≠ d) :
    (ids.foldl (fun s id => s.enlist d id) s).classes.members e = s.classes.members e := by
  induction ids generalizing s with
  | nil => rfl
  | cons id ids ih => rw [List.foldl_cons, ih, members_enlist, if_neg h]

/-- The members of one class come behind those of another one, and all other classes stay. -/
theorem members_drain (hcd : c ≠ d) : (s.drain c d).2.classes.members e =
    if e = d then s.classes.members d ++ s.classes.members c
    else if e = c then #[] else s.classes.members e := by
  rw [drain_eq]
  split
  · rename_i he
    rw [he, members_foldl_enlist, Classes.members_modify_ne (Ne.symm hcd)]
  · rename_i he
    rw [members_foldl_enlist_ne he, Classes.members_modify]

theorem keeps_void_moveAll (hd : d ≠ .void) :
    (Store.moveAll c d).Keeps fun s => s.size .void ≤ n := by
  refine Action.keeps_require.bind_of_ok fun t x u _ hx hu => ?_
  obtain ⟨hcd, -⟩ := Action.require_eq_ok.1 hx
  have hdrain : (Action.updateGet (·.drain c d) : Action Store Nat).Keeps
      fun s => s.size .void ≤ n := by
    refine Action.keeps_updateGet fun s hs => ?_
    show ((s.drain c d).2.classes.members .void).size ≤ n
    rw [members_drain hcd, if_neg (Ne.symm hd)]
    split
    · exact Nat.zero_le n
    · exact hs
  exact hdrain u hu

/-! ### Every call -/

/-- **The step.** Whatever comes of a call, it does not make the class of void slots larger, unless
it moves a whole class there. -/
theorem keeps_void_perform (hwhole : op.IsWhole) (hfills : ¬op.FillsVoid) :
    (perform op).Keeps fun s => s.size .void ≤ n := by
  cases op with
  | add id c => exact keeps_void_add.bind fun _ => Action.keeps_pure
  | remove id => exact keeps_void_remove.bind fun _ => Action.keeps_pure
  | move id c =>
    exact (keeps_void_remove.bind fun _ => keeps_void_add).bind fun _ => Action.keeps_pure
  | popInto c d =>
    refine (keeps_void_classPop.bind fun r => ?_).bind fun _ => Action.keeps_pure
    cases r with
    | none => exact Action.keeps_pure
    | some id => exact keeps_void_add.bind fun _ => Action.keeps_pure
  | moveAll c d =>
    have hd : d ≠ .void := by
      rintro rfl
      exact hfills ⟨c, rfl⟩
    exact (keeps_void_moveAll hd).bind fun _ => Action.keeps_pure
  | pop c => exact hwhole.elim
  | take c => exact hwhole.elim

/-- As long as no whole class was moved there, the class of void slots is as small as it was. -/
theorem Calls.size_void_le (calls : Calls s₀ past s) (hpast : ∀ op ∈ past, ¬op.FillsVoid) :
    s.size .void ≤ s₀.size .void := by
  induction calls with
  | start => exact Nat.le_refl _
  | handed _ _ _ ih => exact ih hpast
  | called _ op whole _ _ ih =>
    obtain ⟨hop, hpast⟩ := List.forall_mem_cons.1 hpast
    exact keeps_void_perform whole hop _ (ih hpast)

/-! ### Calls that would put a pair into the class of void slots -/

/-- A pair is looked for where its slot says, and taken out of its class if it is found there. -/
theorem remove_eq (hx : s.slot id = .ok x) : Store.remove id ⟨s, es⟩ =
    if (s.classes.members x.color)[x.index]? = some id then .ok () ⟨s.delist x.color x.index, es⟩
    else .error (.wrongPosition id x.index x.color) ⟨s, es⟩ := by
  unfold Store.remove classRemove
  rw [Action.query_bind hx, Action.query_bind hx, Action.require_bind, if_pos rfl, Action.ask_bind,
    Action.require_bind]
  rfl

/-- The guard is reached when the pair is out of its class. -/
theorem move_void (hx : s.slot id = .ok x)
    (hfound : (s.classes.members x.color)[x.index]? = some id) :
    Store.move id .void ⟨s, es⟩ = .error .voidClass ⟨s.delist x.color x.index, es⟩ := by
  unfold Store.move
  rw [Action.bind_apply, remove_eq hx, if_pos hfound]
  rfl

theorem move_refuses_of_misplaced (hx : s.slot id = .ok x)
    (hfound : (s.classes.members x.color)[x.index]? ≠ some id) :
    (Store.move id c).Refuses ⟨s, es⟩ := by
  refine ⟨.wrongPosition id x.index x.color, ⟨s, es⟩, ?_, rfl⟩
  unfold Store.move
  rw [Action.bind_apply, remove_eq hx, if_neg hfound]

/-- The guard is reached when the last member is out of its class. -/
theorem popInto_void (hlast : (s.classes.members c).back? = some id) :
    Store.popInto c .void ⟨s, es⟩ =
      .error .voidClass ⟨⟨s.arena, s.classes.modify c (·.pop)⟩, es⟩ := by
  have hpop : classPop c ⟨s, es⟩ =
      .ok (some id) ⟨⟨s.arena, s.classes.modify c (·.pop)⟩, es⟩ := by
    unfold classPop Action.updateGet Classes.pop
    simp only [hlast]
  unfold Store.popInto
  rw [Action.bind_apply, hpop]
  rfl

theorem popInto_of_empty (hempty : s.classes.members c = #[]) :
    Store.popInto c d ⟨s, es⟩ = .ok none ⟨s, es⟩ := by
  have hpop : classPop c ⟨s, es⟩ = .ok none ⟨s, es⟩ := by
    unfold classPop Action.updateGet Classes.pop
    simp only [hempty, Array.back?_empty]
  unfold Store.popInto
  rw [Action.bind_apply, hpop]
  rfl

/-! ### Pairs that are lost -/

/-- A pair is at this position of this class, and nowhere else in the classes. -/
def SolePlace (s : Store) (id : PairId) (c : Color) (i : Nat) : Prop :=
  ∀ d k, (s.classes.members d)[k]? = some id ↔ d = c ∧ k = i

/-- In a store that is in order a pair has one place. -/
theorem Sound.solePlace (h : s.Sound loose) (hi : (s.classes.members c)[i]? = some id) :
    s.SolePlace id c i := by
  intro d k
  refine ⟨fun hk => h.position_unique hk hi, ?_⟩
  rintro ⟨rfl, rfl⟩
  exact hi

theorem SolePlace.not_listed_delist (h : s.SolePlace id c i) : ¬(s.delist c i).IsListed id := by
  rintro ⟨d, hd⟩
  obtain ⟨k, hk⟩ := Array.mem_iff_getElem?.1 hd
  have hi : (s.classes.members c)[i]? = some id := (h c i).2 ⟨rfl, rfl⟩
  rw [delist, classes_patch] at hk
  by_cases hdc : d = c
  · subst hdc
    rw [Classes.getElem?_swapRemove (Array.getElem?_eq_some_iff.1 hi).1] at hk
    split at hk
    · split at hk
      · -- the pair that fills the gap was the last member, and so was another one
        have := ((h d _).1 hk).2
        omega
      · rename_i hne
        exact hne ((h d k).1 hk).2
    · exact absurd hk (by simp)
  · have hk' : (s.classes.members d)[k]? = some id := by
      rwa [Classes.swapRemove, Classes.members_modify_ne hdc] at hk
    exact hdc ((h d k).1 hk').1

theorem SolePlace.not_listed_pop (h : s.SolePlace id c (s.size c - 1)) :
    ¬(⟨s.arena, s.classes.modify c (·.pop)⟩ : Store).IsListed id := by
  rintro ⟨d, hd⟩
  obtain ⟨k, hk⟩ := Array.mem_iff_getElem?.1 hd
  change ((s.classes.modify c (·.pop)).members d)[k]? = some id at hk
  rw [Classes.members_modify] at hk
  split at hk
  · rw [Array.getElem?_pop] at hk
    split at hk
    · have hlast : k = (s.classes.members c).size - 1 := ((h c k).1 hk).2
      omega
    · exact absurd hk (by simp)
  · rename_i hdc
    exact hdc ((h d k).1 hk).1

/-! ### Any calls -/

/-- **The guard of the class of void slots.** After any calls on slots that were handed out, whether
they faulted or not, the class has no members, unless a whole class was moved there; no other call
makes it larger. A pair that is to be added to it is refused, and nothing changes. A pair that is to
move there, or to be popped into it, is refused, but it has left its class by then: if that was its
only place, it is in no class any more. All members of a class that is to move there do so. -/
theorem Calls.void_guarded {pageSize : Nat} {maxPages : Option Nat} (hsize : 0 < pageSize)
    (calls : Calls ⟨Arena.empty pageSize maxPages hsize, {}⟩ past s) (es : Array Event) :
    ((∀ op ∈ past, ¬op.FillsVoid) → s.classes.members .void = #[]) ∧
    (∀ op : Op, op.IsWhole → ¬op.FillsVoid →
      ((perform op).ending ⟨s, es⟩).size .void ≤ s.size .void) ∧
    (∀ id, Store.add id .void ⟨s, es⟩ = .error .voidClass ⟨s, es⟩) ∧
    (∀ id x, s.slot id = .ok x → (s.classes.members x.color)[x.index]? = some id →
      Store.move id .void ⟨s, es⟩ = .error .voidClass ⟨s.delist x.color x.index, es⟩ ∧
        (s.SolePlace id x.color x.index → ¬(s.delist x.color x.index).IsListed id)) ∧
    (∀ id x, s.slot id = .ok x → (s.classes.members x.color)[x.index]? ≠ some id →
      (Store.move id .void).Refuses ⟨s, es⟩) ∧
    (∀ c id, (s.classes.members c).back? = some id →
      Store.popInto c .void ⟨s, es⟩ =
          .error .voidClass ⟨⟨s.arena, s.classes.modify c (·.pop)⟩, es⟩ ∧
        (s.SolePlace id c (s.size c - 1) →
          ¬(⟨s.arena, s.classes.modify c (·.pop)⟩ : Store).IsListed id)) ∧
    (∀ c, s.classes.members c = #[] → Store.popInto c .void ⟨s, es⟩ = .ok none ⟨s, es⟩) ∧
    ∀ c, c ≠ .void → (Store.moveAll c .void).Yields ⟨s, es⟩ fun n u => n = s.size c ∧
      ∀ d, u.state.classes.members d =
        if d = .void then s.classes.members .void ++ s.classes.members c
        else if d = c then #[] else s.classes.members d := by
  refine ⟨fun hpast => ?_, fun op hwhole hfills => ?_, fun id => rfl,
    fun id x hx hfound => ⟨move_void hx hfound, fun hsole => hsole.not_listed_delist⟩,
    fun id x hx hfound => move_refuses_of_misplaced hx hfound,
    fun c id hlast => ⟨popInto_void hlast, fun hsole => hsole.not_listed_pop⟩,
    fun c hempty => popInto_of_empty hempty, fun c hc => ?_⟩
  · have hle := calls.size_void_le hpast
    have hzero : (⟨Arena.empty pageSize maxPages hsize, {}⟩ : Store).size .void = 0 := by
      show (({} : Classes).members .void).size = 0
      rw [Classes.members_default]
      rfl
    rw [hzero] at hle
    exact Array.eq_empty_of_size_eq_zero (Nat.le_zero.1 hle)
  · exact keeps_void_perform hwhole hfills ⟨s, es⟩ (Nat.le_refl _)
  · unfold Store.moveAll
    rw [Action.yields_bind, Action.yields_require, Action.yields_updateGet]
    exact ⟨hc, rfl, fun d => members_drain hc⟩

/-- Of two members of a class the first is to move to the class of void slots, the last is to be
popped into it, and then the whole class is to move there. -/
theorem void_guarded_halfway : 0 < 4 ∧ ∃ past s,
    Calls ⟨Arena.empty 4 none (by decide), {}⟩ past s ∧
    (∀ d, s.classes.members d = if d = .white then #[⟨0⟩, ⟨1⟩] else #[]) ∧
    ((perform (.move ⟨0⟩ .grey)).ending ⟨s, #[]⟩).size .void ≤ s.size .void ∧
    Store.add ⟨0⟩ .void ⟨s, #[]⟩ = .error .voidClass ⟨s, #[]⟩ ∧
    Store.move ⟨0⟩ .void ⟨s, #[]⟩ = .error .voidClass ⟨s.delist .white 0, #[]⟩ ∧
    ¬(s.delist .white 0).IsListed ⟨0⟩ ∧
    Store.popInto .white .void ⟨s, #[]⟩ =
      .error .voidClass ⟨⟨s.arena, s.classes.modify .white (·.pop)⟩, #[]⟩ ∧
    Store.popInto .grey .void ⟨s, #[]⟩ = .ok none ⟨s, #[]⟩ ∧
    (Store.moveAll .white .void).Yields ⟨s, #[]⟩ fun n u => n = s.size .white ∧
      ∀ d, u.state.classes.members d =
        if d = .void then s.classes.members .void ++ s.classes.members .white
        else if d = .white then #[] else s.classes.members d := by
  -- the state is given by what the theorem asks about it
  have hreached : ∃ past s, Calls ⟨Arena.empty 4 none (by decide), {}⟩ past s ∧
      (∀ d, s.classes.members d = if d = .white then #[⟨0⟩, ⟨1⟩] else #[]) ∧
      s.slot ⟨0⟩ = .ok { color := .white, index := 0 } := by
    have fresh : Calls ⟨Arena.empty 4 none (by decide), {}⟩ _ _ := .start
    have first := fresh.handed #[] rfl
    have second := first.handed #[] rfl
    have added := second.called (.add ⟨0⟩ .white) trivial (by decide +kernel) #[]
    have added' := added.called (.add ⟨1⟩ .white) trivial (by decide +kernel) #[]
    exact ⟨_, _, added', fun d => by cases d <;> decide +kernel, by decide +kernel⟩
  obtain ⟨past, s, calls, hmembers, hslot⟩ := hreached
  have hwhite : s.classes.members .white = #[⟨0⟩, ⟨1⟩] := hmembers .white
  -- the other member is another pair, and all other classes are empty
  have hsole : s.SolePlace ⟨0⟩ .white 0 := by
    intro d k
    rw [hmembers]
    split
    · rename_i hd
      rcases k with _ | _ | k <;> simp [hd]
    · rename_i hd
      simp [hd]
  obtain ⟨-, hstep, hadd, hmove, -, hpop, hnone, hall⟩ := Calls.void_guarded (by decide) calls #[]
  obtain ⟨hmoved, hlost⟩ := hmove ⟨0⟩ _ hslot (by rw [hwhite]; rfl)
  exact ⟨by decide, past, s, calls, hmembers, hstep (.move ⟨0⟩ .grey) trivial nofun, hadd ⟨0⟩,
    hmoved, hlost hsole, (hpop .white ⟨1⟩ (by rw [hwhite]; rfl)).1, hnone .grey (hmembers .grey),
    hall .white (by decide)⟩

/-- **Not every call that would put a pair into the class of void slots is refused**: a whole class
moves there. And a call that is refused may have changed the classes: a pair that was to move there
has left its class. -/
theorem not_void_refused :
    (¬∀ past s, Calls ⟨Arena.empty 4 none (by decide), {}⟩ past s →
      s.classes.members .void = #[]) ∧
    ¬∀ past s, Calls ⟨Arena.empty 4 none (by decide), {}⟩ past s →
      ∀ op : Op, op.IsWhole → (∀ id ∈ op.ids, s.IsCarved id) →
        ∀ f u, perform op ⟨s, #[]⟩ = .error f u → u.state.classes = s.classes := by
  have fresh : Calls ⟨Arena.empty 4 none (by decide), {}⟩ _ _ := .start
  have first := fresh.handed #[] rfl
  have added := first.called (.add ⟨0⟩ .white) trivial (by decide +kernel) #[]
  constructor
  · intro hall
    have filled := added.called (.moveAll .white .void) trivial nofun #[]
    have hnone := congrArg Array.size (hall _ _ filled)
    revert hnone
    decide +kernel
  · intro hall
    have hkept := hall _ _ added (.move ⟨0⟩ .void) trivial (by decide +kernel) .voidClass _ rfl
    have hsize := congrArg (fun cs => Classes.size cs .white) hkept
    revert hsize
    decide +kernel

end Store

end ConsHeap
