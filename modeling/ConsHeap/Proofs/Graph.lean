import ConsHeap.Cell
import Mathlib.Logic.Function.Basic

/-!
# Graphs of pairs

What a program can see of the pairs in use: which ones there are, what each holds on either side,
and how many roots it has. Colors, positions and the arena are left out.

A pair is reachable when it has a root or a reachable pair holds it. `Graph.Trims G H` says that `H`
is `G` without some pairs that are not reachable; this is all that a collector may do to a graph on
its own account, and it is closed under repetition (`Graph.Trims.trans`), because what is reachable
does not change (`Graph.Trims.reachable_iff`). Of a graph that was also edited, `Graph.Keeps G H`
says that what was reachable in `G` is as it was.
-/

namespace ConsHeap

/-- A pair as a program sees it: the cells on its two sides and the number of its roots. -/
@[ext]
structure Node where
  car : Cell
  cdr : Cell
  roots : Nat

/-- The pairs that a pair holds, car first. -/
def Node.children (n : Node) : List PairId :=
  n.car.pair?.toList ++ n.cdr.pair?.toList

/-- The pairs in use. -/
abbrev Graph :=
  PairId → Option Node

namespace Graph

variable {G H K : Graph} {id child j : PairId} {n : Node}

/-- The pairs with a root, and all that they lead to. -/
inductive Reachable (G : Graph) : PairId → Prop where
  | root {id : PairId} {n : Node} (node : G id = some n) (rooted : 0 < n.roots) : Reachable G id
  | edge {id child : PairId} {n : Node} (reachable : Reachable G id) (node : G id = some n)
    (mem : child ∈ n.children) : Reachable G child

/-- No pair holds one that is not there. -/
def Closed (G : Graph) : Prop :=
  ∀ {id n child}, G id = some n → child ∈ n.children → ∃ m, G child = some m

theorem Reachable.exists_node (hG : G.Closed) (h : G.Reachable id) : ∃ n, G id = some n := by
  cases h with
  | root node _ => exact ⟨_, node⟩
  | edge _ node mem => exact hG node mem

/-! ### Edits -/

/-- A graph with one more pair. -/
def insert (G : Graph) (id : PairId) (n : Node) : Graph :=
  fun j => if j = id then some n else G j

/-- A graph with one pair changed. -/
def alter (G : Graph) (id : PairId) (f : Node → Node) : Graph :=
  fun j => if j = id then (G id).map f else G j

theorem insert_self : G.insert id n id = some n :=
  if_pos rfl

theorem insert_ne (h : j ≠ id) : G.insert id n j = G j :=
  if_neg h

theorem alter_self {f : Node → Node} : G.alter id f id = (G id).map f :=
  if_pos rfl

theorem alter_ne {f : Node → Node} (h : j ≠ id) : G.alter id f j = G j :=
  if_neg h

/-! ### Trimming -/

/-- `H` is `G` without some pairs, none of which is reachable. -/
structure Trims (G H : Graph) : Prop where
  old : ∀ {id n}, H id = some n → G id = some n
  kept : ∀ {id}, G.Reachable id → H id = G id

theorem Trims.refl (G : Graph) : G.Trims G :=
  ⟨fun h => h, fun _ => rfl⟩

/-- What is reachable stays reachable, and nothing else becomes so. -/
theorem Trims.reachable_iff (h : G.Trims H) : H.Reachable id ↔ G.Reachable id := by
  constructor
  · -- what is left was there before
    intro hid
    induction hid with
    | root node rooted => exact .root (h.old node) rooted
    | edge _ node mem ih => exact .edge ih (h.old node) mem
  · -- no pair on the way from a root was taken away
    intro hid
    induction hid with
    | root node rooted =>
      have hnode := (h.kept (.root node rooted)).trans node
      exact .root hnode rooted
    | edge reachable node mem ih =>
      have hnode := (h.kept reachable).trans node
      exact .edge ih hnode mem

theorem Trims.trans (h : G.Trims H) (h' : H.Trims K) : G.Trims K where
  old := fun hK => h.old (h'.old hK)
  kept := fun hid => (h'.kept (h.reachable_iff.2 hid)).trans (h.kept hid)

/-- How many roots a pair has; a pair that is not there has none. -/
def roots (G : Graph) (id : PairId) : Nat :=
  (G id).elim 0 (·.roots)

/-- Without roots nothing is reachable. -/
theorem not_reachable_of_roots (h : ∀ id, G.roots id = 0) : ¬G.Reachable id := by
  intro hid
  induction hid with
  | @root id n node rooted =>
    have hzero := h id
    unfold roots at hzero
    rw [node, Option.elim_some] at hzero
    omega
  | edge _ _ _ ih => exact ih

theorem roots_of_node (h : G id = some n) : G.roots id = n.roots := by
  unfold roots
  rw [h, Option.elim_some]

theorem exists_node_of_roots (h : 0 < G.roots id) : ∃ n, G id = some n ∧ 0 < n.roots := by
  unfold roots at h
  cases hn : G id with
  | none =>
    rw [hn] at h
    exact absurd h (Nat.lt_irrefl 0)
  | some n =>
    rw [hn] at h
    exact ⟨n, rfl, h⟩

/-- Rooted pairs are reachable. -/
theorem reachable_of_roots (h : 0 < G.roots id) : G.Reachable id := by
  obtain ⟨n, hn, hrooted⟩ := exists_node_of_roots h
  exact .root hn hrooted

theorem roots_insert : (G.insert id n).roots j = if j = id then n.roots else G.roots j := by
  unfold roots insert
  split <;> rfl

theorem roots_alter {f : Node → Node} (hn : G id = some n) :
    (G.alter id f).roots j = if j = id then (f n).roots else G.roots j := by
  unfold roots alter
  split
  · rw [hn, Option.map_some, Option.elim_some]
  · rfl

/-- A pair that was taken away had no roots. -/
theorem Trims.roots_eq (h : G.Trims H) (id : PairId) : H.roots id = G.roots id := by
  unfold roots
  cases hH : H id with
  | some n => rw [h.old hH]
  | none =>
    cases hG : G id with
    | none => rfl
    | some n =>
      by_contra hne
      -- with a root it would be reachable, and so it would still be there
      have hroots : 0 < n.roots := Nat.pos_of_ne_zero (Ne.symm hne)
      have hkept := h.kept (.root hG hroots)
      rw [hH, hG] at hkept
      exact absurd hkept (by simp)

/-! ### Graphs with fewer pairs -/

/-- The pairs of `H` are there in `G` and hold the same; their roots do not matter. -/
def Within (H G : Graph) : Prop :=
  ∀ id n, H id = some n → ∃ m, G id = some m ∧ n.car = m.car ∧ n.cdr = m.cdr

theorem Within.refl (G : Graph) : G.Within G :=
  fun _ _ hn => ⟨_, hn, rfl, rfl⟩

theorem Within.trans (h : K.Within H) (h' : H.Within G) : K.Within G := by
  intro id n hn
  obtain ⟨m, hm, hcar, hcdr⟩ := h id n hn
  obtain ⟨l, hl, hcar', hcdr'⟩ := h' id m hm
  exact ⟨l, hl, hcar.trans hcar', hcdr.trans hcdr'⟩

theorem Trims.within (h : G.Trims H) : H.Within G :=
  fun _ _ hn => ⟨_, h.old hn, rfl, rfl⟩

/-- A change of roots alone. -/
theorem alter_within {f : Node → Node} (hcar : ∀ n, (f n).car = n.car)
    (hcdr : ∀ n, (f n).cdr = n.cdr) : (G.alter id f).Within G := by
  intro j n hn
  by_cases hj : j = id
  · rw [hj, alter_self] at hn
    obtain ⟨m, hm, rfl⟩ := Option.map_eq_some_iff.1 hn
    rw [hj]
    exact ⟨m, hm, hcar m, hcdr m⟩
  · rw [alter_ne hj] at hn
    exact ⟨n, hn, rfl, rfl⟩

/-! ### What stays as it is -/

/-- What is reachable in `G` is the same in `H`. The rest of `H` may be anything. -/
def Keeps (G H : Graph) : Prop :=
  ∀ id, G.Reachable id → H id = G id

theorem Keeps.refl (G : Graph) : G.Keeps G :=
  fun _ _ => rfl

theorem Trims.keeps (h : G.Trims H) : G.Keeps H :=
  fun _ => h.kept

theorem Keeps.insert (h : G.Keeps H) (hid : ¬G.Reachable id) : G.Keeps (H.insert id n) := by
  intro j hj
  have hne : j ≠ id := by
    rintro rfl
    exact hid hj
  exact (insert_ne hne).trans (h j hj)

/-- **Nothing that is reachable is lost from a graph without dangling edges**, as long as its roots
stay. -/
theorem Keeps.within (h : G.Keeps H) (hK : K.Within H) (hclosed : K.Closed)
    (hroots : ∀ {j}, G.Reachable j → K.roots j = G.roots j) : G.Keeps K := by
  -- a pair of `K` holds what it holds in `H`, so it is enough that no reachable pair is missing
  have hsame : ∀ {j m}, G.Reachable j → K j = some m → K j = G j := by
    intro j m hj hm
    obtain ⟨n, hn, hcar, hcdr⟩ := hK j m hm
    have hG : G j = some n := (h j hj).symm.trans hn
    have hcount : m.roots = n.roots := by
      rw [← roots_of_node hm, hroots hj, roots_of_node hG]
    rw [hm, hG]
    exact congrArg some (Node.ext hcar hcdr hcount)
  intro j hj
  induction hj with
  | @root id n node rooted =>
    have hid : G.Reachable id := .root node rooted
    have hpos : 0 < K.roots id := by
      rw [hroots hid, roots_of_node node]
      exact rooted
    obtain ⟨m, hm, -⟩ := exists_node_of_roots hpos
    exact hsame hid hm
  | edge reachable node mem ih =>
    obtain ⟨m, hm⟩ := hclosed (ih.trans node) mem
    exact hsame (.edge reachable node mem) hm

/-- Where no roots were added, nothing new is reachable. -/
theorem Keeps.reachable (h : G.Keeps H) (hroots : ∀ j, H.roots j = G.roots j)
    (hid : H.Reachable id) : G.Reachable id := by
  induction hid with
  | @root id n node rooted =>
    have hpos : 0 < G.roots id := by
      rw [← hroots, roots_of_node node]
      exact rooted
    exact reachable_of_roots hpos
  | @edge id _ _ _ node mem ih => exact .edge ih ((h id ih).symm.trans node) mem

/-! ### Pairs that nothing leads to -/

/-- The pairs of `D` are in use and have no roots, and only pairs of `D` hold them. -/
structure Shuns (G : Graph) (D : PairId → Prop) : Prop where
  unrooted : ∀ {j}, D j → ∃ n, G j = some n ∧ n.roots = 0
  holders : ∀ {j n child}, G j = some n → child ∈ n.children → D child → D j

/-- What is reachable is not shunned. -/
theorem Shuns.not_reachable {D : PairId → Prop} (h : G.Shuns D) (hid : D id) :
    ¬G.Reachable id := by
  intro hreach
  -- a way from a root ends outside `D`: its first pair has a root, and the others are held from
  -- outside
  induction hreach with
  | root node rooted =>
    obtain ⟨n, hn, hzero⟩ := h.unrooted hid
    obtain rfl := Option.some.inj (node.symm.trans hn)
    omega
  | edge _ node mem ih => exact ih (h.holders node mem hid)

/-- The pairs in use that are not reachable are shunned by all others, also where they hold each
other. -/
theorem shuns_unreachable (G : Graph) :
    G.Shuns fun j => (∃ n, G j = some n) ∧ ¬G.Reachable j where
  unrooted := by
    rintro j ⟨⟨n, hn⟩, hj⟩
    refine ⟨n, hn, ?_⟩
    by_contra hroots
    exact hj (.root hn (by omega))
  holders := by
    rintro j n child hn hchild ⟨-, hdead⟩
    exact ⟨⟨n, hn⟩, fun hj => hdead (.edge hj hn hchild)⟩

/-- A pair that is not shunned may come to hold other such pairs. -/
theorem Shuns.insert {D : PairId → Prop} (h : G.Shuns D) (hid : ¬D id)
    (hchildren : ∀ child ∈ n.children, ¬D child) : (G.insert id n).Shuns D where
  unrooted := by
    intro j hj
    have hne : j ≠ id := by
      rintro rfl
      exact hid hj
    rw [insert_ne hne]
    exact h.unrooted hj
  holders := by
    intro j m child hm hchild hD
    by_cases hj : j = id
    · -- the new pair holds nothing that is shunned
      rw [hj, insert_self] at hm
      obtain rfl := Option.some.inj hm
      exact absurd hD (hchildren child hchild)
    · rw [insert_ne hj] at hm
      exact h.holders hm hchild hD

end Graph

end ConsHeap
