import ConsHeap.Heap.Session
import ConsHeap.Proofs.Heap.Parallel
import Mathlib.Data.List.ReduceOption
import Mathlib.Data.Set.Function

/-!
# Sessions that differ in names only

What a program can reach in a session is what its handles lead to (`Session.Reaches`).
`Session.Renames φ ψ s t` says that `t` looks like `s` with every pair renamed by `φ` and every
object by `ψ`: the renaming is a bijection between what is reached, it maps every entry of the one
table to the entry of the other and every field to the field, and all that can be observed without
looking at names is the same.

Between two operations, two sessions are related by one table of paired handles,
`Session.Twinned T s t`. Such sessions are renamings of each other (`Twinned.exists_renames`): the
pair that is met together with a given one is the new name of it.
-/

namespace ConsHeap

/-! ### Renaming -/

/-- A cell with its pair or object renamed. -/
def Cell.rename (φ : PairId → PairId) (ψ : ObjectId → ObjectId) : Cell → Cell
  | nil => nil
  | integer value => integer value
  | pair id => pair (φ id)
  | managed o => managed (ψ o)

namespace Session

variable {s t : Session} {T : List (Option (Handle × Handle))} {ps : Multiset (Handle × Handle)}
  {a b : Cell} {f g : Handle} {id : PairId} {o : ObjectId} {i j : Int} {x : Slot} {n : Nat}
  {φ : PairId → PairId} {ψ : ObjectId → ObjectId}

/-- The cells that the handles of a session lead to. -/
inductive Reaches (s : Session) : Cell → Prop where
  | handle {f : Handle} (entry : some f ∈ s.handles.toList) : Reaches s f.cell
  | side {id : PairId} {x : Slot} (reached : Reaches s (.pair id)) (slot : s.heap.slot id = .ok x)
    (side : Collector.Side) : Reaches s (side.get x)

/-- What can be observed of a handle without its name agrees with that of another handle. -/
structure Observed (s t : Session) (f g : Handle) : Prop where
  isPair_eq : g.cell.isPair = f.cell.isPair
  integer?_eq : g.cell.integer? = f.cell.integer?
  object?_eq : g.cell.object? t.heap.objects = f.cell.object? s.heap.objects
  rootCount_eq : t.heap.rootCount g = s.heap.rootCount f

/-- `t` looks like `s` with pairs renamed by `φ` and objects by `ψ`. -/
structure Renames (φ : PairId → PairId) (ψ : ObjectId → ObjectId) (s t : Session) : Prop where
  pairs : Set.BijOn φ {id | s.Reaches (.pair id)} {id | t.Reaches (.pair id)}
  objects : Set.BijOn ψ {o | s.Reaches (.managed o)} {o | t.Reaches (.managed o)}
  size_eq : t.handles.size = s.handles.size
  /-- The same entries of the two tables have a handle. -/
  isSome_eq : ∀ i, (t.handle? i).isSome = (s.handle? i).isSome
  /-- Every handle is mapped to its counterpart, and looks like it. -/
  handle : ∀ {i f g}, s.handle? i = some f → t.handle? i = some g →
    g.cell = f.cell.rename φ ψ ∧ Observed s t f g
  /-- Handles are equal in the one session if they are in the other. -/
  eq_iff : ∀ {i j f g f' g'}, s.handle? i = some f → t.handle? i = some g →
    s.handle? j = some f' → t.handle? j = some g' → (f = f' ↔ g = g')
  /-- The fields of a pair are mapped to those of its counterpart. -/
  slot : ∀ {id}, s.Reaches (.pair id) → ∃ x y, s.heap.slot id = .ok x ∧
    t.heap.slot (φ id) = .ok y ∧ y.car = x.car.rename φ ψ ∧ y.cdr = x.cdr.rename φ ψ ∧
      y.rootCount = x.rootCount
  value : ∀ {o}, s.Reaches (.managed o) →
    t.heap.objects.value? (ψ o) = s.heap.objects.value? o

/-! ### Tables of paired handles -/

/-- The tables of two sessions are the two sides of one table, and the heaps look the same to
whoever holds the handles `ps`. -/
structure Paired (T : List (Option (Handle × Handle))) (ps : Multiset (Handle × Handle))
    (s t : Session) : Prop where
  left : s.handles.toList = T.map (Option.map Prod.fst)
  right : t.handles.toList = T.map (Option.map Prod.snd)
  twin : s.heap.Twin t.heap ps

/-- Two sessions between operations: all handles are in the tables. -/
def Twinned (T : List (Option (Handle × Handle))) (s t : Session) : Prop :=
  Paired T T.reduceOption s t

/-- The cells that are met together in the two sessions. -/
def Joint (ps : Multiset (Handle × Handle)) (s t : Session) : Cell → Cell → Prop :=
  Heap.Joint s.heap.graph t.heap.graph ps

theorem mem_reduceOption (h : T[n]? = some (some (f, g))) : (f, g) ∈ T.reduceOption :=
  List.reduceOption_mem_iff.2 (List.mem_of_getElem? h)

namespace Paired

theorem size_left (h : Paired T ps s t) : s.handles.size = T.length := by
  rw [← Array.length_toList, h.left, List.length_map]

theorem size_right (h : Paired T ps s t) : t.handles.size = T.length := by
  rw [← Array.length_toList, h.right, List.length_map]

/-- Numbers of entries mean the same in both tables. -/
theorem place?_eq (h : Paired T ps s t) (i : Int) : t.place? i = s.place? i := by
  unfold place?
  rw [h.size_left, h.size_right]

theorem getElem?_left (h : Paired T ps s t) (n : Nat) :
    s.handles[n]? = T[n]?.map (Option.map Prod.fst) := by
  rw [← Array.getElem?_toList, h.left, List.getElem?_map]

theorem getElem?_right (h : Paired T ps s t) (n : Nat) :
    t.handles[n]? = T[n]?.map (Option.map Prod.snd) := by
  rw [← Array.getElem?_toList, h.right, List.getElem?_map]

/-- An entry is empty on both sides or holds paired handles. -/
theorem handle? (h : Paired T ps s t) (i : Int) :
    (s.handle? i = none ∧ t.handle? i = none) ∨
      ∃ n f g, s.place? i = some n ∧ T[n]? = some (some (f, g)) ∧
        s.handle? i = some f ∧ t.handle? i = some g := by
  unfold Session.handle?
  rw [h.place?_eq]
  cases hn : s.place? i with
  | none => exact .inl ⟨rfl, rfl⟩
  | some n =>
    rw [Option.bind_some, Option.bind_some, h.getElem?_left, h.getElem?_right]
    cases hT : T[n]? with
    | none => exact .inl ⟨rfl, rfl⟩
    | some e =>
      cases e with
      | none => exact .inl ⟨rfl, rfl⟩
      | some p => exact .inr ⟨n, p.1, p.2, rfl, hT, rfl, rfl⟩

/-- Several numbers lead to handles on both sides, which are paired, or on none. -/
theorem mapM_handle? (h : Paired T ps s t) (is : List Int) :
    (is.mapM s.handle? = none ∧ is.mapM t.handle? = none) ∨
      ∃ items : List (Handle × Handle), (∀ p ∈ items, p ∈ T.reduceOption) ∧
        is.mapM s.handle? = some (items.map Prod.fst) ∧
        is.mapM t.handle? = some (items.map Prod.snd) := by
  induction is with
  | nil => exact .inr ⟨[], fun _ hp => absurd hp List.not_mem_nil, rfl, rfl⟩
  | cons i is ih =>
    rw [List.mapM_cons, List.mapM_cons]
    rcases h.handle? i with ⟨hs, ht⟩ | ⟨n, f, g, -, hT, hs, ht⟩
    · -- one entry without a handle is enough
      rw [hs, ht]
      exact .inl ⟨rfl, rfl⟩
    · rw [hs, ht]
      rcases ih with ⟨hs', ht'⟩ | ⟨items, hitems, hs', ht'⟩
      · rw [hs', ht']
        exact .inl ⟨rfl, rfl⟩
      · rw [hs', ht']
        refine .inr ⟨(f, g) :: items, fun p hp => ?_, rfl, rfl⟩
        rcases List.mem_cons.1 hp with rfl | hp
        · exact mem_reduceOption hT
        · exact hitems p hp

/-- Several entries have handles on both sides, which are paired, or on none. An entry that is named
twice is so on both sides. -/
theorem handles? (h : Paired T ps s t) (is : List Int) :
    (s.handles? is = none ∧ t.handles? is = none) ∨
      ∃ items : List (Handle × Handle), (∀ p ∈ items, p ∈ T.reduceOption) ∧
        s.handles? is = some (items.map Prod.fst) ∧ t.handles? is = some (items.map Prod.snd) := by
  have hplaces : is.map t.place? = is.map s.place? := List.map_congr_left fun i _ => h.place?_eq i
  unfold Session.handles?
  rw [hplaces]
  by_cases hnodup : (is.map s.place?).Nodup
  · rw [if_pos hnodup, if_pos hnodup]
    exact h.mapM_handle? is
  · rw [if_neg hnodup, if_neg hnodup]
    exact .inl ⟨rfl, rfl⟩

end Paired

namespace Twinned

/-- Two sessions are related in both directions. -/
theorem symm (h : Twinned T s t) : Twinned (T.map (Option.map Prod.swap)) t s where
  left := by
    rw [List.map_map, h.right]
    exact List.map_congr_left fun e _ => by cases e <;> rfl
  right := by
    rw [List.map_map, h.left]
    exact List.map_congr_left fun e _ => by cases e <;> rfl
  twin := by
    rw [List.reduceOption_map, ← Multiset.map_coe]
    exact h.twin.symm

/-- What is reached in the first session is met together with something in the second. -/
theorem reaches_iff (h : Twinned T s t) :
    s.Reaches a ↔ ∃ b, Joint T.reduceOption s t a b := by
  constructor
  · -- the way to what is reached is gone through the second session, too
    intro ha
    induction ha with
    | @handle f entry =>
      rw [h.left] at entry
      obtain ⟨e, he, hf⟩ := List.mem_map.1 entry
      obtain ⟨p, rfl, rfl⟩ := Option.map_eq_some_iff.1 hf
      exact ⟨p.2.cell, .handle (List.reduceOption_mem_iff.2 he)⟩
    | @side id x reached slot side ih =>
      obtain ⟨b, hb⟩ := ih
      obtain ⟨j, rfl⟩ := (h.twin.alike hb).pair_inv
      obtain ⟨m, hm⟩ : ∃ m, s.heap.graph id = some m := h.twin.has_left hb
      obtain ⟨n, hn⟩ : ∃ n, t.heap.graph j = some n := h.twin.has_right hb
      obtain ⟨x', hx', hget⟩ := Heap.slot_of_graph hm
      -- the side taken in the first session is taken in the second one as well
      obtain rfl := Except.ok.inj (slot.symm.trans hx')
      rw [hget]
      exact ⟨side.getNode n, .side hb hm hn side⟩
  · -- what is met together is met on a way from a handle
    rintro ⟨b, hb⟩
    induction hb with
    | @handle f g mem =>
      have hentry := List.mem_map_of_mem (f := Option.map Prod.fst)
        (List.reduceOption_mem_iff.1 mem)
      rw [← h.left] at hentry
      exact .handle hentry
    | @side i j m n joint left right side ih =>
      obtain ⟨x, hx, hget⟩ := Heap.slot_of_graph left
      rw [← hget]
      exact .side ih hx side

theorem reaches_right_iff (h : Twinned T s t) :
    t.Reaches b ↔ ∃ a, Joint T.reduceOption s t a b := by
  rw [h.symm.reaches_iff]
  refine exists_congr fun a => ?_
  unfold Joint
  rw [List.reduceOption_map, ← Multiset.map_coe]
  exact Heap.Joint.swap_iff

/-! ### The new names -/

instance : Nonempty ObjectId :=
  ⟨⟨0⟩⟩

/-- The pair that is met together with a pair. -/
noncomputable def partner (ps : Multiset (Handle × Handle)) (s t : Session) (id : PairId) :
    PairId :=
  Classical.epsilon fun j => Joint ps s t (.pair id) (.pair j)

/-- The object that is met together with an object. -/
noncomputable def partnerObject (ps : Multiset (Handle × Handle)) (s t : Session) (o : ObjectId) :
    ObjectId :=
  Classical.epsilon fun o' => Joint ps s t (.managed o) (.managed o')

/-- What is met together with a cell is the cell renamed. -/
theorem eq_rename (h : Twinned T s t) (hab : Joint T.reduceOption s t a b) :
    b = a.rename (partner T.reduceOption s t) (partnerObject T.reduceOption s t) := by
  cases h.twin.alike hab with
  | nil => rfl
  | integer value => rfl
  | pair i j =>
    -- no two pairs are met together with the same one
    have hspec : Joint T.reduceOption s t (.pair i) (.pair (partner T.reduceOption s t i)) :=
      Classical.epsilon_spec (p := fun j => Joint T.reduceOption s t (.pair i) (.pair j)) ⟨j, hab⟩
    exact (h.twin.unique hab hspec).1 rfl
  | @managed o o' _ _ _ =>
    have hspec : Joint T.reduceOption s t (.managed o)
        (.managed (partnerObject T.reduceOption s t o)) :=
      Classical.epsilon_spec (p := fun o' => Joint T.reduceOption s t (.managed o) (.managed o'))
        ⟨o', hab⟩
    exact (h.twin.unique hab hspec).1 rfl

/-- A renaming that is met everywhere is a bijection on what is reached. -/
theorem bijOn {ι : Type} {κ : ι → Cell} {ρ : ι → ι} (h : Twinned T s t)
    (hκ : Function.Injective κ)
    (hρ : ∀ {k}, s.Reaches (κ k) → Joint T.reduceOption s t (κ k) (κ (ρ k)))
    (hinv : ∀ {a k}, Joint T.reduceOption s t a (κ k) → ∃ l, a = κ l) :
    Set.BijOn ρ {k | s.Reaches (κ k)} {k | t.Reaches (κ k)} := by
  refine ⟨fun k hk => ?_, fun k hk l hl he => ?_, fun l hl => ?_⟩
  · exact h.reaches_right_iff.2 ⟨_, hρ hk⟩
  · -- two things with one new name are one
    have hkl := h.twin.unique (hρ hk) (hρ hl)
    rw [he] at hkl
    exact hκ (hkl.2 rfl)
  · -- what is reached in the second session is the new name of what it is met together with
    obtain ⟨a, ha⟩ := h.reaches_right_iff.1 hl
    obtain ⟨k, rfl⟩ := hinv ha
    have hk : s.Reaches (κ k) := h.reaches_iff.2 ⟨_, ha⟩
    have hkl : κ (ρ k) = κ l := (h.twin.unique (hρ hk) ha).1 rfl
    exact ⟨k, hk, hκ hkl⟩

/-- What is reached is met together with its new name. -/
theorem joint_rename (h : Twinned T s t) (ha : s.Reaches a) :
    Joint T.reduceOption s t a
      (a.rename (partner T.reduceOption s t) (partnerObject T.reduceOption s t)) := by
  obtain ⟨b, hab⟩ := h.reaches_iff.1 ha
  rw [← h.eq_rename hab]
  exact hab

/-! ### Observations -/

/-- Pairs that are met together have slots with the same number of roots. -/
theorem slots (h : Twinned T s t) {i j : PairId}
    (hij : Joint T.reduceOption s t (.pair i) (.pair j)) :
    ∃ x y, s.heap.slot i = .ok x ∧ t.heap.slot j = .ok y ∧ y.rootCount = x.rootCount ∧
      ∀ side : Collector.Side, Joint T.reduceOption s t (side.get x) (side.get y) := by
  -- what is met is in use, so it has a node and a slot on both sides
  obtain ⟨m, hm⟩ : ∃ m, s.heap.graph i = some m := h.twin.has_left hij
  obtain ⟨n, hn⟩ : ∃ n, t.heap.graph j = some n := h.twin.has_right hij
  obtain ⟨x, hx, hgetx⟩ := Heap.slot_of_graph hm
  obtain ⟨y, hy, hgety⟩ := Heap.slot_of_graph hn
  refine ⟨x, y, hx, hy, ?_, fun side => ?_⟩
  · calc y.rootCount = n.roots := Heap.rootCount_of_graph hy hn
      _ = t.heap.graph.roots j := (Graph.roots_of_node hn).symm
      _ = s.heap.graph.roots i := (h.twin.roots_eq hij).symm
      _ = m.roots := Graph.roots_of_node hm
      _ = x.rootCount := (Heap.rootCount_of_graph hx hm).symm
  · rw [hgetx, hgety]
    exact .side hij hm hn side

theorem observed (h : Twinned T s t) (hfg : Joint T.reduceOption s t f.cell g.cell) :
    Observed s t f g where
  isPair_eq := (h.twin.alike hfg).isPair_eq
  integer?_eq := (h.twin.alike hfg).integer?_eq
  object?_eq := (h.twin.alike hfg).object?_eq
  rootCount_eq := by
    unfold Heap.rootCount
    cases hi : f.cell.pair? with
    | none => rw [(h.twin.alike hfg).pair?_eq_none hi]
    | some i =>
      -- the root count of a pair is the number of its handles, and these are paired
      rw [Cell.pair?_eq_some.1 hi] at hfg
      obtain ⟨j, hj⟩ := (h.twin.alike hfg).pair_inv
      rw [hj] at hfg ⊢
      obtain ⟨x, y, hx, hy, hroots, -⟩ := h.slots hfg
      change (t.heap.slot j).map _ = (s.heap.slot i).map _
      rw [hx, hy]
      exact congrArg Except.ok hroots

/-- The handles of an entry are paired. -/
theorem mem_of_handle? (h : Twinned T s t) (hf : s.handle? i = some f)
    (hg : t.handle? i = some g) : (f, g) ∈ T.reduceOption := by
  rcases h.handle? i with ⟨hnone, -⟩ | ⟨n, f', g', -, hT, hf', hg'⟩
  · rw [hf] at hnone
    exact absurd hnone (by simp)
  · obtain rfl := Option.some.inj (hf.symm.trans hf')
    obtain rfl := Option.some.inj (hg.symm.trans hg')
    exact mem_reduceOption hT

/-- **Sessions with paired tables are renamings of each other**, by one renaming that maps cells met
together to each other. -/
theorem exists_renames (h : Twinned T s t) :
    ∃ φ ψ, Renames φ ψ s t ∧
      ∀ {f g}, (f, g) ∈ T.reduceOption → g.cell = f.cell.rename φ ψ := by
  refine ⟨partner T.reduceOption s t, partnerObject T.reduceOption s t, ?_, fun hfg =>
    h.eq_rename (.handle hfg)⟩
  -- what is met together is mapped to each other, and nothing else is reached
  constructor
  case pairs =>
    refine h.bijOn (fun _ _ => Cell.pair.inj) (fun hk => h.joint_rename hk) fun ha => ?_
    exact (h.twin.alike ha).symm.pair_inv
  case objects =>
    refine h.bijOn (fun _ _ => Cell.managed.inj) (fun hk => h.joint_rename hk) fun ha => ?_
    -- an object is only met with an object
    obtain ⟨o, ho, -⟩ := (h.twin.alike ha).symm.managed_inv
    exact ⟨o, ho⟩
  case size_eq => rw [h.size_left, h.size_right]
  case isSome_eq =>
    intro i
    rcases h.handle? i with ⟨hs, ht⟩ | ⟨n, f, g, -, -, hs, ht⟩
    · rw [hs, ht]
    · rw [hs, ht]
      rfl
  case handle =>
    intro i f g hf hg
    have hfg : Joint T.reduceOption s t f.cell g.cell := .handle (h.mem_of_handle? hf hg)
    exact ⟨h.eq_rename hfg, h.observed hfg⟩
  case eq_iff =>
    intro i j f g f' g' hf hg hf' hg'
    have hfg := h.mem_of_handle? hf hg
    have hfg' := h.mem_of_handle? hf' hg'
    -- handles of one heap are told apart by their cells, and these agree
    have hunique := h.twin.unique (.handle hfg) (.handle hfg')
    rw [(h.twin.eq_mk hfg).1, (h.twin.eq_mk hfg).2, (h.twin.eq_mk hfg').1, (h.twin.eq_mk hfg').2,
      Handle.mk.injEq, Handle.mk.injEq]
    exact and_congr (iff_of_true rfl rfl) hunique
  case slot =>
    intro id hid
    obtain ⟨x, y, hx, hy, hroots, hsides⟩ := h.slots (h.joint_rename hid)
    exact ⟨x, y, hx, hy, h.eq_rename (hsides .car), h.eq_rename (hsides .cdr), hroots⟩
  case value =>
    intro o ho
    obtain ⟨o', ho', hvalue⟩ := (h.twin.alike (h.joint_rename ho)).managed_inv
    rw [Cell.managed.inj ho']
    exact hvalue

end Twinned

end Session

end ConsHeap
