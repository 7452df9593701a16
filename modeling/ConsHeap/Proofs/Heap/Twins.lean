import ConsHeap.Proofs.Heap.Operations

/-!
# Two heaps that look the same

Two heaps are compared through a multiset of paired handles. `Heap.Joint G K ps a b` says that the
cells `a` and `b` are met on one path: it starts at two paired handles and goes the same way through
both graphs. `Heap.Twin H K ps` says that `H` and `K` look the same to whoever holds these handles:

* all handles of both heaps are among the pairs, so the books of both are right;
* cells that are met together are of one kind and have the same content (`Heap.Alike`);
* cells met at two places are equal in one heap exactly when they are in the other (`unique`).

The last clause makes the relation a bijection between what is reachable in the two heaps, and it is
the one that needs care: an operation keeps it because what it adds is new to both heaps or was met
already. All operations come down to `Twin.grow`, where at most one pair of cells is added. What a
collector does on one side alone adds nothing (`Twin.left_becomes`), since a graph that lost pairs
has fewer paths.
-/

namespace ConsHeap

namespace Heap

variable {H H' K K' : Heap} {E F G G' L L' : Graph} {ps ps' : Multiset (Handle × Handle)}
  {a b c d : Cell} {i j : PairId} {m n : Node} {f g : Handle} {os os' : Objects}
  {o o' : ObjectId} {side : Collector.Side}

/-! ### Cells met together -/

/-- The cells of the first handles. -/
def lefts (ps : Multiset (Handle × Handle)) : Multiset Cell :=
  ps.map fun p => p.1.cell

/-- The cells of the second handles. -/
def rights (ps : Multiset (Handle × Handle)) : Multiset Cell :=
  ps.map fun p => p.2.cell

theorem lefts_cons : lefts ((f, g) ::ₘ ps) = f.cell ::ₘ lefts ps :=
  Multiset.map_cons _ _ _

theorem rights_cons : rights ((f, g) ::ₘ ps) = g.cell ::ₘ rights ps :=
  Multiset.map_cons _ _ _

/-- Two cells met on one path from two paired handles. -/
inductive Joint (G L : Graph) (ps : Multiset (Handle × Handle)) : Cell → Cell → Prop where
  | handle {f g : Handle} (mem : (f, g) ∈ ps) : Joint G L ps f.cell g.cell
  | side {i j : PairId} {m n : Node} (joint : Joint G L ps (.pair i) (.pair j))
    (left : G i = some m) (right : L j = some n) (side : Collector.Side) :
    Joint G L ps (side.getNode m) (side.getNode n)

/-- Two cells of one kind with the same content. -/
inductive Alike (os os' : Objects) : Cell → Cell → Prop where
  | nil : Alike os os' .nil .nil
  | integer (value : Int64) : Alike os os' (.integer value) (.integer value)
  | pair (i j : PairId) : Alike os os' (.pair i) (.pair j)
  | managed {o o' : ObjectId} {m : Managed} (left : os.value? o = some m)
    (right : os'.value? o' = some m) : Alike os os' (.managed o) (.managed o')

/-- The two heaps look the same to whoever holds the handles. -/
structure Twin (H K : Heap) (ps : Multiset (Handle × Handle)) : Prop where
  left : H.Owned (lefts ps) 0
  right : K.Owned (rights ps) 0
  ident : ∀ {f g}, (f, g) ∈ ps → f.heap = H.ident ∧ g.heap = K.ident
  alike : ∀ {a b}, Joint H.graph K.graph ps a b → Alike H.objects K.objects a b
  unique : ∀ {a b c d}, Joint H.graph K.graph ps a b → Joint H.graph K.graph ps c d →
    (a = c ↔ b = d)

/-- In graphs with fewer pairs, fewer cells are met. -/
theorem Joint.mono (h : Joint G L ps a b) (hG : G.Within G') (hL : L.Within L') :
    Joint G' L' ps a b := by
  induction h with
  | handle mem => exact .handle mem
  | side joint left right side ih =>
    obtain ⟨m, hm, hcar, hcdr⟩ := hG _ _ left
    obtain ⟨n, hn, hcar', hcdr'⟩ := hL _ _ right
    have hside := Joint.side ih hm hn side
    cases side with
    | car =>
      rw [Collector.Side.getNode, Collector.Side.getNode, hcar, hcar']
      exact hside
    | cdr =>
      rw [Collector.Side.getNode, Collector.Side.getNode, hcdr, hcdr']
      exact hside

theorem Joint.symm (h : Joint G L ps a b) : Joint L G (ps.map Prod.swap) b a := by
  induction h with
  | handle mem => exact .handle (Multiset.mem_map_of_mem Prod.swap mem)
  | side joint left right side ih => exact .side ih right left side

theorem Joint.swap_iff : Joint L G (ps.map Prod.swap) b a ↔ Joint G L ps a b := by
  refine ⟨fun h => ?_, Joint.symm⟩
  have hswap := h.symm
  rwa [Multiset.map_map, show Prod.swap ∘ Prod.swap = id from rfl, Multiset.map_id] at hswap

theorem Alike.symm (h : Alike os os' a b) : Alike os' os b a := by
  cases h with
  | nil => exact .nil
  | integer value => exact .integer value
  | pair i j => exact .pair j i
  | managed left right => exact .managed right left

/-- What was alike stays so as long as no object changes. -/
theorem Alike.mono {os₁ os₁' : Objects} (h : Alike os os' a b)
    (hos : ∀ {o m}, os.value? o = some m → os₁.value? o = some m)
    (hos' : ∀ {o m}, os'.value? o = some m → os₁'.value? o = some m) : Alike os₁ os₁' a b := by
  cases h with
  | nil => exact .nil
  | integer value => exact .integer value
  | pair i j => exact .pair i j
  | managed left right => exact .managed (hos left) (hos' right)

/-- Without handles, nothing is met. -/
theorem Joint.not_zero : ¬Joint G L 0 a b := by
  intro h
  induction h with
  | handle mem => exact Multiset.notMem_zero _ mem
  | side _ _ _ _ ih => exact ih

/-- With more handles, more cells are met. -/
theorem Joint.of_subset (h : Joint G L ps a b) (hps : ps ⊆ ps') : Joint G L ps' a b := by
  induction h with
  | handle mem => exact .handle (hps mem)
  | side joint left right side ih => exact .side ih left right side

/-- A handle of a value without sides leads to that value only. -/
theorem Joint.of_cons_atom (h : Joint G L ((f, g) ::ₘ ps) a b) (hf : f.cell.pair? = none) :
    Joint G L ps a b ∨ a = f.cell ∧ b = g.cell := by
  induction h with
  | handle mem =>
    rcases Multiset.mem_cons.1 mem with he | mem
    · obtain ⟨rfl, rfl⟩ := Prod.mk.inj he
      exact .inr ⟨rfl, rfl⟩
    · exact .inl (.handle mem)
  | side joint left right side ih =>
    rcases ih with ih | ⟨he, -⟩
    · exact .inl (.side ih left right side)
    · -- a path goes on from pairs only
      exact absurd he (Cell.ne_pair hf _)

/-- A further handle of what is met already leads nowhere else. -/
theorem Joint.of_cons_joint (h : Joint G L ((f, g) ::ₘ ps) a b)
    (hfg : Joint G L ps f.cell g.cell) : Joint G L ps a b := by
  induction h with
  | handle mem =>
    rcases Multiset.mem_cons.1 mem with he | mem
    · obtain ⟨rfl, rfl⟩ := Prod.mk.inj he
      exact hfg
    · exact .handle mem
  | side joint left right side ih => exact .side ih left right side

/-- A value that is no pair and no object is alike to itself only. -/
theorem Alike.plain (hp : c.pair? = none) (hm : c.managed? = none) : Alike os os' c c := by
  cases c with
  | nil => exact .nil
  | integer value => exact .integer value
  | pair i => exact absurd rfl (Cell.ne_pair hp i)
  | managed o => exact absurd rfl (Cell.ne_managed hm o)

theorem Alike.eq_plain_iff (h : Alike os os' a b) (hp : c.pair? = none) (hm : c.managed? = none) :
    a = c ↔ b = c := by
  cases h with
  | nil => rfl
  | integer value => rfl
  | pair i j => exact iff_of_false (Cell.ne_pair hp i) (Cell.ne_pair hp j)
  | managed left right => exact iff_of_false (Cell.ne_managed hm _) (Cell.ne_managed hm _)

/-- What is no pair is alike to no pair. -/
theorem Alike.pair?_eq_none (h : Alike os os' a b) (ha : a.pair? = none) : b.pair? = none := by
  cases h with
  | pair i j => exact absurd rfl (Cell.ne_pair ha i)
  | _ => rfl

/-- A pair is alike to pairs only. -/
theorem Alike.pair_inv (h : Alike os os' (.pair i) b) : ∃ j, b = .pair j := by
  cases h with
  | pair i j => exact ⟨j, rfl⟩

theorem Alike.managed_inv (h : Alike os os' (.managed o) b) :
    ∃ o', b = .managed o' ∧ os'.value? o' = os.value? o := by
  cases h with
  | managed left right => exact ⟨_, rfl, right.trans left.symm⟩

/-! What is alike cannot be told apart by its kind and content. -/

theorem Alike.isPair_eq (h : Alike os os' a b) : b.isPair = a.isPair := by
  cases h <;> rfl

theorem Alike.integer?_eq (h : Alike os os' a b) : b.integer? = a.integer? := by
  cases h <;> rfl

theorem Alike.object?_eq (h : Alike os os' a b) : b.object? os' = a.object? os := by
  cases h with
  | managed left right => exact right.trans left.symm
  | _ => rfl

namespace Twin

/-- Two heaps just created, of any options. -/
theorem create {opts opts' : Options} (hH : Heap.create opts = .ok H)
    (hK : Heap.create opts' = .ok K) : Twin H K 0 where
  left := .create hH
  right := .create hK
  ident := fun hmem => absurd hmem (Multiset.notMem_zero _)
  alike := fun hab => absurd hab Joint.not_zero
  unique := fun hab _ => absurd hab Joint.not_zero

theorem symm (h : Twin H K ps) : Twin K H (ps.map Prod.swap) where
  left := by
    have hright := h.right
    unfold rights at hright
    unfold lefts
    rwa [Multiset.map_map]
  right := by
    have hleft := h.left
    unfold lefts at hleft
    unfold rights
    rwa [Multiset.map_map]
  ident := by
    intro f g hmem
    obtain ⟨⟨g', f'⟩, hpair, he⟩ := Multiset.mem_map.1 hmem
    obtain ⟨rfl, rfl⟩ := Prod.mk.inj he
    exact (h.ident hpair).symm
  alike := fun hab => (h.alike (Joint.swap_iff.1 hab)).symm
  unique := fun hab hcd => (h.unique (Joint.swap_iff.1 hab) (Joint.swap_iff.1 hcd)).symm

/-! ### What is met is in use -/

theorem has_left (h : Twin H K ps) (hab : Joint H.graph K.graph ps a b) : H.Has a := by
  cases hab with
  | handle mem => exact h.left.has_of_mem (Multiset.mem_map_of_mem _ mem)
  | side joint left right side => exact h.left.has_getNode left side

theorem has_right (h : Twin H K ps) (hab : Joint H.graph K.graph ps a b) : K.Has b :=
  h.symm.has_left hab.symm

/-- Two pairs that are met together have the same number of roots: a handle of the one is paired
with a handle of the other. -/
theorem roots_eq (h : Twin H K ps) (hij : Joint H.graph K.graph ps (.pair i) (.pair j)) :
    H.graph.roots i = K.graph.roots j := by
  have hcount : (lefts ps).count (.pair i) = (rights ps).count (.pair j) := by
    unfold lefts rights
    rw [Multiset.count_map, Multiset.count_map]
    congr 1
    refine Multiset.filter_congr fun p hp => ?_
    exact h.unique hij (.handle hp)
  calc H.graph.roots i = (lefts ps).count (.pair i) := (h.left.roots i).symm
    _ = (rights ps).count (.pair j) := hcount
    _ = K.graph.roots j := h.right.roots j

/-- Room for a root on the one side is room on the other. -/
theorem room (h : Twin H K ps) (hab : Joint H.graph K.graph ps a b) (hroom : H.Room a) :
    K.Room b := by
  rintro j n rfl hn
  obtain ⟨i, rfl⟩ := (h.alike hab).symm.pair_inv
  obtain ⟨m, hm⟩ : ∃ m, H.graph i = some m := h.has_left hab
  calc n.roots = K.graph.roots j := (Graph.roots_of_node hn).symm
    _ = H.graph.roots i := (h.roots_eq hab).symm
    _ = m.roots := Graph.roots_of_node hm
    _ < Collector.maxRoots := hroom i m rfl hm

/-! ### One pair of cells more -/

/-- **What must be shown of an operation on both heaps**: no cells are met together that were not
before, except for one pair of cells that are alike and new to both sides, or met already. -/
theorem grow (a₀ b₀ : Cell) (h : Twin H K ps) (hH : H.Becomes E (lefts ps') 0 H')
    (hK : K.Becomes F (rights ps') 0 K')
    (hident : ∀ {f g}, (f, g) ∈ ps' → f.heap = H.ident ∧ g.heap = K.ident)
    (hjoint : ∀ {a b}, Joint E F ps' a b → Joint H.graph K.graph ps a b ∨ a = a₀ ∧ b = b₀)
    (halike : Alike H'.objects K'.objects a₀ b₀)
    (hapart : ∀ {a b}, Joint H.graph K.graph ps a b → (a = a₀ ↔ b = b₀)) : Twin H' K' ps' where
  left := hH.owned
  right := hK.owned
  ident := fun hmem => by
    rw [hH.ident_eq, hK.ident_eq]
    exact hident hmem
  alike := by
    intro a b hab
    rcases hjoint (hab.mono hH.within hK.within) with hab | ⟨rfl, rfl⟩
    · exact (h.alike hab).mono hH.value hK.value
    · exact halike
  unique := by
    -- each of the two places is one of before or the new one
    intro a b c d hab hcd
    rcases hjoint (hab.mono hH.within hK.within) with hab | ⟨rfl, rfl⟩
    · rcases hjoint (hcd.mono hH.within hK.within) with hcd | ⟨rfl, rfl⟩
      · exact h.unique hab hcd
      · exact hapart hab
    · rcases hjoint (hcd.mono hH.within hK.within) with hcd | ⟨rfl, rfl⟩
      · rw [eq_comm, hapart hcd, eq_comm]
      · exact iff_of_true rfl rfl

/-- The case in which no cells are met that were not met before. -/
theorem keep (h : Twin H K ps) (hH : H.Becomes E (lefts ps') 0 H')
    (hK : K.Becomes F (rights ps') 0 K')
    (hident : ∀ {f g}, (f, g) ∈ ps' → f.heap = H.ident ∧ g.heap = K.ident)
    (hjoint : ∀ {a b}, Joint E F ps' a b → Joint H.graph K.graph ps a b) : Twin H' K' ps' :=
  -- nil is alike to nil only, so it can always be the new cell
  h.grow .nil .nil hH hK hident (fun hab => .inl (hjoint hab)) .nil
    fun hab => (h.alike hab).eq_plain_iff rfl rfl

/-- **What one side does on its own account is not seen.** -/
theorem left_becomes (h : Twin H K ps) (hH : H.Becomes H.graph (lefts ps) 0 H') :
    Twin H' K ps :=
  h.keep hH h.right.becomes h.ident fun hab => hab

theorem right_becomes (h : Twin H K ps) (hK : K.Becomes K.graph (rights ps) 0 K') :
    Twin H K' ps :=
  h.keep h.left.becomes hK h.ident fun hab => hab

/-! ### Operations on both sides -/

/-- The handles of one operation on both sides carry the identities of their heaps. -/
theorem ident_cons (h : Twin H K ps) :
    ∀ {f g}, (f, g) ∈ ((⟨H.ident, a⟩, ⟨K.ident, b⟩) : Handle × Handle) ::ₘ ps →
      f.heap = H.ident ∧ g.heap = K.ident := by
  intro f g hmem
  rcases Multiset.mem_cons.1 hmem with he | hmem
  · obtain ⟨rfl, rfl⟩ := Prod.mk.inj he
    exact ⟨rfl, rfl⟩
  · exact h.ident hmem

/-- One more handle of what is met already. -/
theorem share (h : Twin H K ps) (hab : Joint H.graph K.graph ps a b)
    (hH : H.Becomes H.graph (a ::ₘ lefts ps) 0 H')
    (hK : K.Becomes K.graph (b ::ₘ rights ps) 0 K') :
    Twin H' K' ((⟨H.ident, a⟩, ⟨K.ident, b⟩) ::ₘ ps) := by
  refine h.keep ?_ ?_ h.ident_cons fun hcd => hcd.of_cons_joint hab
  · rwa [lefts_cons]
  · rwa [rights_cons]

/-- A value that is no pair and no object, on both sides. -/
theorem plain (h : Twin H K ps) (hp : c.pair? = none) (hm : c.managed? = none) :
    Twin H K ((⟨H.ident, c⟩, ⟨K.ident, c⟩) ::ₘ ps) := by
  refine h.grow c c (Owned.becomes ?_) (Owned.becomes ?_) h.ident_cons
    (fun hab => hab.of_cons_atom hp) (.plain hp hm) fun hab => (h.alike hab).eq_plain_iff hp hm
  · rw [lefts_cons]
    exact h.left.plain hp hm
  · rw [rights_cons]
    exact h.right.plain hp hm

/-- An object of one kind and text, on both sides: if it is a symbol that is met already, it is so
in both heaps. -/
theorem supply {v : Managed} (h : Twin H K ps) (hH : H.Supplies v (lefts ps) 0 o H')
    (hK : K.Supplies v (rights ps) 0 o' K') :
    Twin H' K' ((⟨H.ident, .managed o⟩, ⟨K.ident, .managed o'⟩) ::ₘ ps) := by
  refine h.grow (.managed o) (.managed o') ?_ ?_ h.ident_cons
    (fun hab => hab.of_cons_atom rfl) (.managed hH.value hK.value) fun {a b} hab => ?_
  · rw [lefts_cons]
    exact hH.becomes
  · rw [rights_cons]
    exact hK.becomes
  · -- the values tell whether an object met before is the one supplied, on both sides alike
    have hleft := h.has_left hab
    have hright := h.has_right hab
    cases h.alike hab with
    | managed left right =>
      rw [Cell.managed.injEq, Cell.managed.injEq, hH.eq_iff hleft, hK.eq_iff hright, left, right]
    | _ => exact iff_of_false (by simp) (by simp)

/-- A new pair of what paired handles hold. Its ids were not in use, so it is met nowhere else. -/
theorem cons {car car' cdr cdr' : Handle} (h : Twin H K ps) (hcar : (car, car') ∈ ps)
    (hcdr : (cdr, cdr') ∈ ps) (hi : H.graph i = none) (hj : K.graph j = none)
    (hH : H.Becomes (H.graph.insert i ⟨car.cell, cdr.cell, 1⟩) (.pair i ::ₘ lefts ps) 0 H')
    (hK : K.Becomes (K.graph.insert j ⟨car'.cell, cdr'.cell, 1⟩) (.pair j ::ₘ rights ps) 0 K') :
    Twin H' K' ((⟨H.ident, .pair i⟩, ⟨K.ident, .pair j⟩) ::ₘ ps) := by
  -- what is met was in use, and the new ids were not
  have hleft : ∀ {i' b}, Joint H.graph K.graph ps (.pair i') b → i' ≠ i := by
    rintro i' b hab rfl
    obtain ⟨m, hm⟩ : ∃ m, H.graph i' = some m := h.has_left hab
    rw [hi] at hm
    exact absurd hm (by simp)
  have hright : ∀ {a j'}, Joint H.graph K.graph ps a (.pair j') → j' ≠ j := by
    rintro a j' hab rfl
    obtain ⟨m, hm⟩ : ∃ m, K.graph j' = some m := h.has_right hab
    rw [hj] at hm
    exact absurd hm (by simp)
  rw [← lefts_cons (f := ⟨H.ident, .pair i⟩) (g := ⟨K.ident, .pair j⟩)] at hH
  rw [← rights_cons (f := ⟨H.ident, .pair i⟩) (g := ⟨K.ident, .pair j⟩)] at hK
  refine h.grow (.pair i) (.pair j) hH hK h.ident_cons (fun {a b} hab => ?_)
    (.pair i j) fun {a b} hab => ?_
  · -- what is met after the allocation was met before, or it is the new pair
    induction hab with
    | handle mem =>
      -- the new handles, or ones that were there
      rcases Multiset.mem_cons.1 mem with he | mem
      · obtain ⟨rfl, rfl⟩ := Prod.mk.inj he
        exact .inr ⟨rfl, rfl⟩
      · exact .inl (.handle mem)
    | side joint left right side ih =>
      rcases ih with ih | ⟨he, he'⟩
      · rw [Graph.insert_ne (hleft ih)] at left
        rw [Graph.insert_ne (hright ih)] at right
        exact .inl (.side ih left right side)
      · -- the sides of the new pair are what the handles hold
        rw [Cell.pair.inj he, Graph.insert_self] at left
        rw [Cell.pair.inj he', Graph.insert_self] at right
        obtain rfl := Option.some.inj left
        obtain rfl := Option.some.inj right
        cases side with
        | car => exact .inl (.handle hcar)
        | cdr => exact .inl (.handle hcdr)
  · -- so the new pair is not among what was met before
    refine iff_of_false ?_ ?_
    · rintro rfl
      exact hleft hab rfl
    · rintro rfl
      exact hright hab rfl

/-- A write to what paired handles hold, of cells that are met already or of nil. -/
theorem write {v w : Cell} (h : Twin H K ps) (hij : Joint H.graph K.graph ps (.pair i) (.pair j))
    (hvw : Joint H.graph K.graph ps v w ∨ v = .nil ∧ w = .nil)
    (hH : H.Becomes (H.graph.alter i (side.setNode v)) (lefts ps) 0 H')
    (hK : K.Becomes (K.graph.alter j (side.setNode w)) (rights ps) 0 K') : Twin H' K' ps := by
  refine h.grow .nil .nil hH hK h.ident (fun {a b} hab => ?_) .nil
    fun hab => (h.alike hab).eq_plain_iff rfl rfl
  induction hab with
  | handle mem => exact .inl (.handle mem)
  | @side i' j' m n joint left right other ih =>
    rcases ih with ih | ⟨he, -⟩
    · -- the pairs written to are met together only, so the same step is taken on both sides
      by_cases hi : i' = i
      · have hj : j' = j := by
          rw [hi] at ih
          exact Cell.pair.inj ((h.unique ih hij).1 rfl)
        rw [hi, Graph.alter_self] at left
        rw [hj, Graph.alter_self] at right
        obtain ⟨m₀, hm₀, rfl⟩ := Option.map_eq_some_iff.1 left
        obtain ⟨n₀, hn₀, rfl⟩ := Option.map_eq_some_iff.1 right
        rw [Collector.Side.getNode_setNode, Collector.Side.getNode_setNode]
        split
        · exact hvw
        · exact .inl (.side hij hm₀ hn₀ other)
      · -- any other pair holds what it held
        have hj : j' ≠ j := by
          rintro rfl
          have hsame := (h.unique ih hij).2 rfl
          exact hi (Cell.pair.inj hsame)
        rw [Graph.alter_ne hi] at left
        rw [Graph.alter_ne hj] at right
        exact .inl (.side ih left right other)
    · -- nil has no sides
      exact absurd he (by simp)

/-- Paired handles are given up. -/
theorem drop (h : Twin H K ((f, g) ::ₘ ps)) (hH : H.Becomes H.graph (lefts ps) 0 H')
    (hK : K.Becomes K.graph (rights ps) 0 K') : Twin H' K' ps :=
  h.keep hH hK (fun hmem => h.ident (Multiset.mem_cons_of_mem hmem))
    fun hab => hab.of_subset (Multiset.subset_cons _ _)

end Twin

end Heap

end ConsHeap
