import ConsHeap.Proofs.Store.Repaint
import ConsHeap.Store.Op

/-!
# Stamps are exact

A member of a class carries the color of the class and its position. In between, pairs may be in no
class at all: `pop` and `take` leave them so, with the stamps that they had. Such stale stamps do no
harm, since a pair is taken out of a class only after its stamp was found to be right.

`Store.Run s₀ s` says that operations that are allowed lead from `s₀` to `s`, while the arena hands
out slots and takes back those of pairs in no class. Every state of a run is in order, with the
pairs in no class loose (`Store.Run.sound`). What an operation changes is stated for all operations
alike, by the pairs that it names and the class that they are put into (`Store.Relocates`).

* `Store.checkAll_eq_ok` — what the check of all classes asks for;
* `Store.Sound.perform` — the step of a run;
* `Store.remove_refuses` — a pair in no class cannot be taken out of one, whatever its slot says;
* `Store.Run.stamps_exact` — what holds of every run.
-/

namespace ConsHeap

/-! ### Sequences of checks -/

section Checks

variable {α β : Type} {a : Except Fault α} {f : α → Except Fault β} {b : β}

/-- A check passes exactly when both of its halves do. -/
theorem except_bind_eq_ok : (a >>= f) = .ok b ↔ ∃ x, a = .ok x ∧ f x = .ok b := by
  cases a with
  | ok x =>
    show f x = _ ↔ _
    simp
  | error e =>
    show Except.error e = _ ↔ _
    simp

/-- A list of checks passes exactly when each of them does. -/
theorem except_forM_eq_ok {g : α → Except Fault Unit} {l : List α} {u : Unit} :
    l.forM g = .ok u ↔ ∀ x ∈ l, g x = .ok () := by
  induction l with
  | nil => exact iff_of_true rfl nofun
  | cons x l ih =>
    show (g x >>= fun _ => l.forM g) = _ ↔ _
    rw [except_bind_eq_ok, List.forall_mem_cons, ← ih]
    exact ⟨fun ⟨_, hx, hl⟩ => ⟨hx, hl⟩, fun ⟨hx, hl⟩ => ⟨_, hx, hl⟩⟩

end Checks

namespace Store

variable {s : Store} {c : Color} {ids : List PairId} {position : Nat} {u : Unit}

/-- The members from a position on pass when each of them carries the color and its position. -/
theorem checkMembers_eq_ok : s.checkMembers c position ids = .ok () ↔
    ∀ i id, ids[i]? = some id →
      ∃ x, s.slot id = .ok x ∧ x.color = c ∧ x.index = position + i := by
  induction ids generalizing position with
  | nil => exact iff_of_true rfl nofun
  | cons id ids ih =>
    unfold checkMembers
    rw [except_bind_eq_ok]
    constructor
    · -- both guards of the head were passed, and the rest starts one position later
      rintro ⟨x, hx, hrest⟩ i j hj
      split at hrest
      · exact absurd hrest nofun
      rename_i hcolor
      split at hrest
      · exact absurd hrest nofun
      rename_i hindex
      cases i with
      | zero =>
        obtain rfl := Option.some.inj hj
        exact ⟨x, hx, not_not.1 hcolor, not_not.1 hindex⟩
      | succ i =>
        obtain ⟨y, hy, hyc, hyi⟩ := ih.1 hrest i j hj
        exact ⟨y, hy, hyc, by omega⟩
    · -- both guards of the head hold, and the rest is the induction hypothesis
      intro h
      obtain ⟨x, hx, hcolor, hindex⟩ := h 0 id rfl
      refine ⟨x, hx, ?_⟩
      rw [if_neg (not_not.2 hcolor), if_neg (not_not.2 (show x.index = position from hindex))]
      refine ih.2 fun i j hj => ?_
      obtain ⟨y, hy, hyc, hyi⟩ := h (i + 1) j hj
      exact ⟨y, hy, hyc, by omega⟩

/-- All classes pass when every member of every class carries its color and its position. -/
theorem checkAll_eq_ok : s.checkAll = .ok u ↔
    ∀ c i id, (s.classes.members c)[i]? = some id →
      ∃ x, s.slot id = .ok x ∧ x.color = c ∧ x.index = i := by
  unfold checkAll
  rw [except_forM_eq_ok]
  unfold check
  simp only [checkMembers_eq_ok, Array.getElem?_toList, Nat.zero_add]
  exact ⟨fun h c => h c c.mem_all, fun h c _ => h c⟩

end Store

namespace Store

variable {s s' s₀ : Store} {loose loose' ids : List PairId} {id j : PairId} {c d : Color}
  {x : Slot} {es : Array Event} {op : Op} {target : Option Color}

/-! ### Pairs in a class, and pairs in none -/

/-- A slot that the arena has handed out. -/
def IsCarved (s : Store) (id : PairId) : Prop :=
  (s.arena.slot? id).isSome = true ∧ id ∉ s.arena.voidSlots

/-- A member of some class. -/
def IsListed (s : Store) (id : PairId) : Prop :=
  ∃ c, id ∈ s.classes.members c

/-- The loose pairs are those in no class. -/
theorem Sound.mem_loose_iff (h : s.Sound loose) : id ∈ loose ↔ s.IsCarved id ∧ ¬s.IsListed id := by
  constructor
  · intro hid
    refine ⟨(h.loose_slot id hid).symm, ?_⟩
    rintro ⟨c, hc⟩
    exact (h.mem_members_iff.1 hc).2.1 hid
  · -- a slot handed out that is not loose is in the class whose color it carries
    rintro ⟨⟨hsome, hvoid⟩, hlisted⟩
    by_contra hid
    obtain ⟨x, hx⟩ := Option.isSome_iff_exists.1 hsome
    by_cases hcolor : x.color = .void
    · exact hvoid (h.vacant hx hid hcolor)
    · exact hlisted ⟨x.color, h.mem_members_iff.2 ⟨hcolor, hid, _, look_of_slot? hx, rfl⟩⟩

/-! ### What an operation changes -/

/-- `s'` is `s` with the pairs `ids` in the class `target`, or in none; all others are where they
were. -/
def Relocates (s : Store) (ids : List PairId) (target : Option Color) (s' : Store) : Prop :=
  ∀ j d, j ∈ s'.classes.members d ↔ if j ∈ ids then target = some d else j ∈ s.classes.members d

/-- Where a pair is can be seen from its slot and from whether it is loose. -/
theorem Sound.relocates (h : s.Sound loose) (h' : s'.Sound loose')
    (hnone : target = none → ∀ j ∈ ids, j ∈ loose')
    (hsome : ∀ c, target = some c →
      c ≠ .void ∧ ∀ j ∈ ids, j ∉ loose' ∧ ∃ x, s'.look j = some x ∧ x.color = c)
    (hother : ∀ j, j ∉ ids → s'.look j = s.look j ∧ (j ∈ loose' ↔ j ∈ loose)) :
    s.Relocates ids target s' := by
  intro j d
  -- membership after the operation, read off slot and looseness
  rw [h'.mem_members_iff]
  split
  · rename_i hj
    cases target with
    | none => exact iff_of_false (fun hd => hd.2.1 (hnone rfl j hj)) nofun
    | some c =>
      obtain ⟨hc, hids⟩ := hsome c rfl
      obtain ⟨hloose, x, hx, rfl⟩ := hids j hj
      rw [hx]
      constructor
      · rintro ⟨-, -, y, hy, rfl⟩
        rw [Option.some.inj hy]
      · intro hd
        rw [← Option.some.inj hd]
        exact ⟨hc, hloose, x, rfl, rfl⟩
  · rename_i hj
    rw [(hother j hj).1, (hother j hj).2, ← h.mem_members_iff]

/-! ### Operations as steps -/

namespace Op

/-- The operation names pairs that are where it looks for them, and classes that a pair may be put
into. -/
def Allowed (s : Store) : Op → Prop
  | .add id target => s.IsCarved id ∧ ¬s.IsListed id ∧ target ≠ .void
  | .remove id => s.IsListed id
  | .move id target => s.IsListed id ∧ target ≠ .void
  | .popInto _ target => target ≠ .void
  | .moveAll source target => source ≠ target ∧ source ≠ .void ∧ target ≠ .void
  | .pop _ | .take _ => True

/-- The pairs that an operation puts into a class or takes out of one. -/
def named (s : Store) : Op → List PairId
  | .add id _ | .remove id | .move id _ => [id]
  | .popInto source _ | .pop source => (s.classes.members source).back?.toList
  | .moveAll source _ | .take source => (s.classes.members source).toList

/-- The class that an operation puts pairs into. -/
def target? : Op → Option Color
  | .add _ target | .move _ target | .popInto _ target | .moveAll _ target => some target
  | .remove _ | .pop _ | .take _ => none

/-- The answer of an operation: the pairs that it names, unless these are given to it. -/
def answer (s : Store) : Op → Reply
  | .add _ _ | .remove _ | .move _ _ => .done
  | .popInto source _ | .pop source => .popped (s.classes.members source).back?
  | .moveAll source _ => .moved (s.classes.members source).size
  | .take source => .taken (s.classes.members source)

/-- Whether a pair is in some class can be looked up. -/
instance (s : Store) (id : PairId) : Decidable (s.IsListed id) :=
  decidable_of_iff (∃ c ∈ Color.all, id ∈ s.classes.members c)
    ⟨fun ⟨c, _, hc⟩ => ⟨c, hc⟩, fun ⟨c, hc⟩ => ⟨c, c.mem_all, hc⟩⟩

instance (s : Store) (id : PairId) : Decidable (s.IsCarved id) :=
  inferInstanceAs (Decidable (_ ∧ _))

/-- What is allowed can be checked. -/
instance decidableAllowed (s : Store) : (op : Op) → Decidable (op.Allowed s)
  | .add _ _ | .move _ _ | .moveAll _ _ => inferInstanceAs (Decidable (_ ∧ _))
  | .remove id => inferInstanceAs (Decidable (s.IsListed id))
  | .popInto _ target => inferInstanceAs (Decidable (target ≠ .void))
  | .pop _ | .take _ => .isTrue trivial

end Op

/-- A pair in a class is found there. -/
theorem Sound.look_of_listed (h : s.Sound loose) (hid : s.IsListed id) :
    id ∉ loose ∧ ∃ x, s.look id = some x ∧ x.color ≠ .void := by
  obtain ⟨c, hc⟩ := hid
  obtain ⟨hv, hloose, x, hx, rfl⟩ := h.mem_members_iff.1 hc
  exact ⟨hloose, x, hx, hv⟩

/-- A loose pair put into a class, as a change of places. -/
theorem Sound.enlist_relocates (h : s.Sound loose) (hm : s'.Sound (id :: loose'))
    (hc : c ≠ .void) (hlook : ∀ j, j ≠ id → s'.look j = s.look j)
    (hloose : ∀ j, j ≠ id → (j ∈ loose' ↔ j ∈ loose)) :
    s.Relocates [id] (some c) (s'.enlist c id) := by
  have h' := hm.enlist hc
  refine h.relocates h' nofun (fun d hd => ?_) fun j hj => ?_
  · obtain rfl := Option.some.inj hd
    refine ⟨hc, fun j hj => ?_⟩
    rw [List.mem_singleton.1 hj]
    -- the pair was loose, so it has a slot
    obtain ⟨y, hy⟩ := Option.isSome_iff_exists.1 (hm.loose_slot id List.mem_cons_self).2
    refine ⟨(List.nodup_cons.1 hm.loose_nodup).1, { y with index := 0, color := c }, ?_, rfl⟩
    rw [look_enlist, if_pos rfl, look_of_slot? hy]
    rfl
  · rw [List.mem_singleton] at hj
    rw [look_enlist, if_neg hj]
    exact ⟨hlook j hj, hloose j hj⟩

/-- A pair in no class is added to one. -/
theorem Sound.add_relocates (h : s.Sound loose) (hid : id ∈ loose) (hc : c ≠ .void) :
    (Store.add id c).Yields ⟨s, es⟩ fun _ u =>
      u.state.Sound (loose.erase id) ∧ s.Relocates [id] (some c) u.state := by
  have hm : s.Sound (id :: loose.erase id) := h.perm (List.perm_cons_erase hid)
  refine (hm.add hc).mono fun _ u hu => ?_
  rw [hu]
  refine ⟨hm.enlist hc, h.enlist_relocates hm hc (fun _ _ => rfl) fun j hj => ?_⟩
  rw [List.mem_erase_of_ne hj]

/-- A pair is taken out of its class. -/
theorem Sound.remove_relocates (h : s.Sound loose) (hid : s.IsListed id) :
    (Store.remove id).Yields ⟨s, es⟩ fun _ u =>
      u.state.Sound (id :: loose) ∧ (∀ j, u.state.look j = s.look j) ∧
        s.Relocates [id] none u.state := by
  obtain ⟨hloose, x, hx, hcol⟩ := h.look_of_listed hid
  refine (h.remove hx hloose hcol).mono fun _ u hu => ?_
  obtain ⟨hsound, -, hlook, -⟩ := hu
  refine ⟨hsound, hlook, h.relocates hsound (fun _ j hj => ?_) nofun fun j hj => ⟨hlook j, ?_⟩⟩
  · rw [List.mem_singleton.1 hj]
    exact List.mem_cons_self
  · rw [List.mem_singleton] at hj
    simp [hj]

/-- A pair goes from its class to another one, or to the end of its own. -/
theorem Sound.move_relocates (h : s.Sound loose) (hid : s.IsListed id) (hc : c ≠ .void) :
    (Store.move id c).Yields ⟨s, es⟩ fun _ u =>
      u.state.Sound loose ∧ s.Relocates [id] (some c) u.state := by
  unfold Store.move
  rw [Action.yields_bind]
  refine (h.remove_relocates hid).mono fun _ m hm => ?_
  obtain ⟨hsound, hlook, -⟩ := hm
  refine (hsound.add hc).mono fun _ u hu => ?_
  rw [hu]
  exact ⟨hsound.enlist hc,
    h.enlist_relocates hsound hc (fun j _ => hlook j) fun _ _ => Iff.rfl⟩

/-- The last member of a class goes to a class, if there is one. -/
theorem Sound.popInto_relocates (h : s.Sound loose) (hd : d ≠ .void) :
    (Store.popInto c d).Yields ⟨s, es⟩ fun r u => r = (s.classes.members c).back? ∧
      u.state.Sound loose ∧ s.Relocates r.toList (some d) u.state := by
  unfold Store.popInto
  rw [Action.yields_bind]
  refine h.classPop.mono fun r m hm => ?_
  obtain ⟨-, hm⟩ := hm
  cases r with
  | none =>
    obtain ⟨hstate, hempty⟩ := hm
    rw [Action.yields_pure, hstate, hempty]
    exact ⟨rfl, h, fun j e => by simp⟩
  | some id =>
    obtain ⟨hstate, hback, hsound⟩ := hm
    rw [Action.yields_bind]
    refine (hsound.add hd).mono fun _ u hu => ?_
    rw [Action.yields_pure, hu]
    have hlook : ∀ j, m.state.look j = s.look j := fun j => by rw [hstate]; rfl
    exact ⟨hback.symm, hsound.enlist hd,
      h.enlist_relocates hsound hd (fun j _ => hlook j) fun _ _ => Iff.rfl⟩

/-- All members of a class go to another one. -/
theorem Sound.moveAll_relocates (h : s.Sound loose) (hcd : c ≠ d) (hd : d ≠ .void) :
    (Store.moveAll c d).Yields ⟨s, es⟩ fun n u => n = (s.classes.members c).size ∧
      u.state.Sound loose ∧ s.Relocates (s.classes.members c).toList (some d) u.state := by
  unfold Store.moveAll
  simp only [Action.yields_bind, Action.yields_require, Action.yields_updateGet]
  refine ⟨hcd, rfl, ?_⟩
  have htake := h.take (c := c)
  obtain ⟨hsound, -, hlook⟩ := htake.foldl_enlist hd (s.classes.members c).toList
  rw [drain_eq]
  refine ⟨hsound, h.relocates hsound (fun he => absurd he (by simp)) (fun e he => ?_)
    fun j hj => ⟨?_, Iff.rfl⟩⟩
  · obtain rfl := Option.some.inj he
    refine ⟨hd, fun j hj => ?_⟩
    obtain ⟨-, hloose, x, hx, -⟩ := h.mem_members_iff.1 (Array.mem_toList_iff.1 hj)
    refine ⟨hloose, { x with color := d }, ?_, rfl⟩
    have hx' : ({ s with classes := s.classes.modify c fun _ => #[] } : Store).look j = some x := hx
    rw [hlook, hx', Option.map_some, if_pos hj]
  · rw [hlook]
    simp only [if_neg hj]
    exact Option.map_id'

/-- The last member of a class is taken out, if there is one. -/
theorem Sound.pop_relocates (h : s.Sound loose) :
    (Store.classPop c).Yields ⟨s, es⟩ fun r u => r = (s.classes.members c).back? ∧
      u.state.Sound (r.toList ++ loose) ∧ s.Relocates r.toList none u.state := by
  refine h.classPop.mono fun r u hu => ?_
  obtain ⟨-, hu⟩ := hu
  cases r with
  | none =>
    rw [hu.1, hu.2]
    exact ⟨rfl, h, fun j e => by simp⟩
  | some id =>
    obtain ⟨hstate, hback, hsound⟩ := hu
    refine ⟨hback.symm, hsound, h.relocates hsound (fun _ j hj => ?_) nofun fun j hj => ⟨?_, ?_⟩⟩
    · exact List.mem_append_left loose hj
    · rw [hstate]
      rfl
    · exact ⟨fun hl => (List.mem_append.1 hl).resolve_left hj, List.mem_cons_of_mem id⟩

/-- All members of a class are taken out. -/
theorem Sound.take_relocates (h : s.Sound loose) :
    (Store.classTake c).Yields ⟨s, es⟩ fun r u => r = s.classes.members c ∧
      u.state.Sound (r.toList ++ loose) ∧ s.Relocates r.toList none u.state := by
  have htake := h.take (c := c)
  refine Action.yields_updateGet.2 ⟨rfl, htake, h.relocates htake (fun _ j hj => ?_) nofun
    fun j hj => ⟨rfl, ?_⟩⟩
  · exact List.mem_append_left loose hj
  · exact ⟨fun hl => (List.mem_append.1 hl).resolve_left hj, List.mem_append_right _⟩

/-- **The step of a run.** An operation that is allowed does not fault. It answers what it names,
and changes the classes by the pairs that it names. -/
theorem Sound.perform (h : s.Sound loose) (allowed : op.Allowed s) :
    (Store.perform op).Yields ⟨s, es⟩ fun reply u => reply = op.answer s ∧
      (∃ loose', u.state.Sound loose') ∧ s.Relocates (op.named s) op.target? u.state := by
  -- the answer was fixed beforehand; what moved where is stated for each operation apart
  cases op with
  | add id c =>
    -- a carved pair in no class is loose
    obtain ⟨hcarved, hlisted, hc⟩ := allowed
    have hloose := h.mem_loose_iff.2 ⟨hcarved, hlisted⟩
    refine Action.Yields.answer ((h.add_relocates hloose hc).mono fun _ u hu => ?_)
    exact ⟨rfl, ⟨_, hu.1⟩, hu.2⟩
  | remove id =>
    refine Action.Yields.answer ((h.remove_relocates allowed).mono fun _ u hu => ?_)
    exact ⟨rfl, ⟨_, hu.1⟩, hu.2.2⟩
  | move id c =>
    refine Action.Yields.answer ((h.move_relocates allowed.1 allowed.2).mono fun _ u hu => ?_)
    exact ⟨rfl, ⟨_, hu.1⟩, hu.2⟩
  | popInto c d =>
    refine Action.Yields.answer ((h.popInto_relocates allowed).mono fun r u hu => ?_)
    obtain ⟨rfl, hsound, hrelocates⟩ := hu
    exact ⟨rfl, ⟨_, hsound⟩, hrelocates⟩
  | moveAll c d =>
    obtain ⟨hcd, -, hd⟩ := allowed
    refine Action.Yields.answer ((h.moveAll_relocates hcd hd).mono fun n u hu => ?_)
    obtain ⟨rfl, hsound, hrelocates⟩ := hu
    exact ⟨rfl, ⟨_, hsound⟩, hrelocates⟩
  | pop c =>
    refine Action.Yields.answer (h.pop_relocates.mono fun r u hu => ?_)
    obtain ⟨rfl, hsound, hrelocates⟩ := hu
    exact ⟨rfl, ⟨_, hsound⟩, hrelocates⟩
  | take c =>
    refine Action.Yields.answer (h.take_relocates.mono fun r u hu => ?_)
    obtain ⟨rfl, hsound, hrelocates⟩ := hu
    exact ⟨rfl, ⟨_, hsound⟩, hrelocates⟩

/-! ### Pairs in no class -/

/-- **A pair in no class cannot be taken out of one**, whatever color and position its slot carries:
the class is looked at before anything is changed. -/
theorem remove_refuses (hid : ¬s.IsListed id) : (Store.remove id).Refuses ⟨s, es⟩ := by
  unfold Store.remove
  refine Action.refuses_query_bind fun x _ => ?_
  unfold classRemove
  refine Action.refuses_query_bind fun y _ => Action.refuses_require_bind fun _ => ?_
  refine Action.Yields.bind_refuses (Action.yields_ask.2 ⟨rfl, ?_⟩)
  -- the position that the slot records holds another pair, or none
  refine Action.refuses_require_bind fun hfound => absurd ⟨x.color, ?_⟩ hid
  exact Array.mem_iff_getElem?.2 ⟨_, hfound⟩

theorem move_refuses (hid : ¬s.IsListed id) : (Store.move id c).Refuses ⟨s, es⟩ :=
  (remove_refuses hid).bind

/-! ### Runs -/

/-- `s` is reached from `s₀` by operations that are allowed when they are done, while the arena hands
out slots and takes back those of pairs in no class. What such a slot says may change in any way. -/
inductive Run (s₀ : Store) : Store → Prop where
  | start : Run s₀ s₀
  | handed {s : Store} {b : Arena} {r : Except HeapError PairId} {es' : Array Event}
    (run : Run s₀ s) (es : Array Event) (done : Arena.next ⟨s.arena, es⟩ = .ok r ⟨b, es'⟩) :
    Run s₀ ⟨b, s.classes⟩
  | returned {s : Store} {b : Arena} {es' : Array Event} (run : Run s₀ s) (id : PairId)
    (carved : s.IsCarved id) (unlisted : ¬s.IsListed id) (es : Array Event)
    (done : Arena.recycle id ⟨s.arena, es⟩ = .ok () ⟨b, es'⟩) : Run s₀ ⟨b, s.classes⟩
  | written {s : Store} (run : Run s₀ s) (id : PairId) (carved : s.IsCarved id)
    (unlisted : ¬s.IsListed id) (f : Slot → Slot) : Run s₀ ⟨s.arena.modify id f, s.classes⟩
  | performed {s s' : Store} {reply : Reply} {es' : Array Event} (run : Run s₀ s) (op : Op)
    (allowed : op.Allowed s) (es : Array Event)
    (done : perform op ⟨s, es⟩ = .ok reply ⟨s', es'⟩) : Run s₀ s'

/-- Along a run every slot is in its place, or of a pair in no class. -/
theorem Run.sound (run : Run s₀ s) (h : s₀.Sound []) : ∃ loose, s.Sound loose := by
  -- the induction is on the run; who is loose changes with it
  induction run with
  | start => exact ⟨[], h⟩
  | @handed s b r _ _ _ done ih =>
    obtain ⟨loose, hs⟩ := ih
    have hr := hs.arena.next.elim done
    cases r with
    | ok id => exact ⟨id :: loose, hs.hands hr⟩
    | error e =>
      -- nothing was handed out
      obtain ⟨rfl, -⟩ := hr
      exact ⟨loose, hs⟩
  | @returned s _ _ _ id carved unlisted _ done ih =>
    obtain ⟨loose, hs⟩ := ih
    have hb := (Arena.recycle_yields carved.1).elim done
    obtain rfl := congrArg Traced.state hb
    -- what is returned is carved and in no class
    have hid : id ∈ loose := hs.mem_loose_iff.2 ⟨carved, unlisted⟩
    exact ⟨loose.erase id, (hs.perm (List.perm_cons_erase hid)).retire⟩
  | written _ id carved unlisted _ ih =>
    obtain ⟨loose, hs⟩ := ih
    exact ⟨loose, hs.modify_loose (hs.mem_loose_iff.2 ⟨carved, unlisted⟩)⟩
  | performed _ op allowed _ done ih =>
    obtain ⟨loose, hs⟩ := ih
    exact ((hs.perform allowed).elim done).2.1

/-- **Stamps stay exact.** After any allowed operations, whatever the slots of pairs in no class say,
no pair is in two classes or twice in one, a member of a class carries its color and its position,
and so all classes pass their check. A further operation that is allowed does not fault, answers
what it names, and changes the classes by exactly that. A pair in no class cannot be removed or
moved: this faults before anything is changed. -/
theorem Run.stamps_exact {pageSize : Nat} {maxPages : Option Nat} (hsize : 0 < pageSize)
    (run : Run ⟨Arena.empty pageSize maxPages hsize, {}⟩ s) :
    (∀ (c d : Color) (i k : Nat) (id : PairId), (s.classes.members c)[i]? = some id →
      (s.classes.members d)[k]? = some id → c = d ∧ i = k) ∧
    (∀ (c : Color) (i : Nat) (id : PairId), (s.classes.members c)[i]? = some id →
      ∃ x, s.slot id = .ok x ∧ x.color = c ∧ x.index = i) ∧
    s.checkAll = .ok () ∧
    (∀ op, op.Allowed s → ∀ es, (Store.perform op).Yields ⟨s, es⟩ fun reply u =>
      reply = op.answer s ∧ s.Relocates (op.named s) op.target? u.state) ∧
    ∀ id, ¬s.IsListed id → ∀ es,
      (Store.remove id).Refuses ⟨s, es⟩ ∧ ∀ c, (Store.move id c).Refuses ⟨s, es⟩ := by
  obtain ⟨loose, h⟩ := run.sound (.empty hsize)
  have hstamped : ∀ (c : Color) (i : Nat) (id : PairId), (s.classes.members c)[i]? = some id →
      ∃ x, s.slot id = .ok x ∧ x.color = c ∧ x.index = i := by
    intro c i id hid
    obtain ⟨-, x, hx, hcolor, hindex⟩ := h.stamped hid
    exact ⟨x, Arena.slot_eq_ok.2 hx, hcolor, hindex⟩
  refine ⟨fun c d i k id hi hk => h.position_unique hi hk, hstamped, checkAll_eq_ok.2 hstamped,
    fun op allowed es => (h.perform allowed).mono fun reply u hu => ⟨hu.1, hu.2.2⟩,
    fun id hid es => ⟨remove_refuses hid, fun c => move_refuses hid⟩⟩

/-- Of three members the first is taken out, and the last one fills the gap. The slot of the pair
taken out still claims the position, and the member that stands there now moves inside its class. -/
theorem stamps_exact_stale : 0 < 4 ∧ ∃ s, Run ⟨Arena.empty 4 none (by decide), {}⟩ s ∧
    s.classes.members .white = #[⟨2⟩, ⟨1⟩] ∧ s.slot ⟨0⟩ = .ok { color := .white, index := 0 } ∧
    (∃ x, s.slot ⟨2⟩ = .ok x ∧ x.color = .white ∧ x.index = 0) ∧
    s.checkAll = .ok () ∧
    ((Store.perform (.move ⟨2⟩ .white)).Yields ⟨s, #[]⟩ fun reply u =>
      reply = .done ∧ s.Relocates [⟨2⟩] (some .white) u.state) ∧
    (Store.remove ⟨0⟩).Refuses ⟨s, #[]⟩ ∧ ∀ c, (Store.move ⟨0⟩ c).Refuses ⟨s, #[]⟩ := by
  have fresh : Run ⟨Arena.empty 4 none (by decide), {}⟩ _ := .start
  have first := fresh.handed #[] rfl
  have second := first.handed #[] rfl
  have third := second.handed #[] rfl
  have added := third.performed (.add ⟨0⟩ .white) (by decide +kernel) #[] rfl
  have added' := added.performed (.add ⟨1⟩ .white) (by decide +kernel) #[] rfl
  have added'' := added'.performed (.add ⟨2⟩ .white) (by decide +kernel) #[] rfl
  have removed := added''.performed (.remove ⟨0⟩) (by decide +kernel) #[] rfl
  obtain ⟨-, hstamped, hcheck, hperform, hrefuses⟩ := Run.stamps_exact (by decide) removed
  exact ⟨by decide, _, removed, by decide +kernel, by decide +kernel,
    hstamped .white 0 ⟨2⟩ (by decide +kernel), hcheck,
    hperform (.move ⟨2⟩ .white) (by decide +kernel) #[],
    hrefuses ⟨0⟩ (by decide +kernel) #[]⟩

end Store

end ConsHeap
