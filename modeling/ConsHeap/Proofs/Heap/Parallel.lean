import ConsHeap.Proofs.Heap.Lists
import ConsHeap.Proofs.Heap.Refusals
import ConsHeap.Proofs.Heap.Twins

/-!
# One operation on two heaps

Two heaps that look the same still look the same after an operation on paired handles, whatever the
two collectors do meanwhile. Each statement is of the form `Action.Guides`: if the first heap gets
through the operation then so does the second, with the same outcome, and the handles that are
answered are paired.

That the second heap gets through is not clear from the books alone, since a root count may be at
its limit. But paired pairs have the same number of roots, so the room that the first heap must have
had is there in the second (`Heap.Twin.room`).

An allocation may fail on one side only. So about `cons` and `list` there are two statements:
neither faults, and where both have an answer, the answers are paired (`Heap.Twin.Allocated`).
-/

namespace ConsHeap

namespace Heap

variable {H K : Heap} {ps : Multiset (Handle × Handle)} {f g f' g' v w : Handle} {i : PairId}
  {es es' : Array Event} {side : Collector.Side} {m : Managed} {u z : Traced Heap}

namespace Twin

/-- What two operations answered is paired. -/
def Made (ps : Multiset (Handle × Handle)) (f : Handle) (u : Traced Heap) (g : Handle)
    (z : Traced Heap) : Prop :=
  Twin u.state z.state ((f, g) ::ₘ ps)

/-- If the one handle holds a pair, the other one does. -/
theorem exists_pair (h : Twin H K ps) (hfg : (f, g) ∈ ps) (hi : f.cell.pair? = some i) :
    ∃ j, g.cell.pair? = some j ∧ Joint H.graph K.graph ps (.pair i) (.pair j) := by
  have hjoint : Joint H.graph K.graph ps f.cell g.cell := .handle hfg
  rw [Cell.pair?_eq_some.1 hi] at hjoint
  obtain ⟨j, hj⟩ := (h.alike hjoint).pair_inv
  rw [hj] at hjoint
  exact ⟨j, Cell.pair?_eq_some.2 hj, hjoint⟩

theorem mem_lefts (hfg : (f, g) ∈ ps) : f.cell ∈ lefts ps :=
  Multiset.mem_map_of_mem _ hfg

theorem mem_rights (hfg : (f, g) ∈ ps) : g.cell ∈ rights ps :=
  Multiset.mem_map_of_mem (fun p : Handle × Handle => p.2.cell) hfg

/-! ### New values -/

theorem guides_adopt (h : Twin H K ps) {c : Cell} (hp : c.pair? = none) (hm : c.managed? = none) :
    (adopt c).Guides ⟨H, es⟩ (adopt c) ⟨K, es'⟩ (Made ps) := by
  intro f u hok
  obtain ⟨rfl, rfl⟩ := Action.ask_eq_ok.1 hok
  rw [yields_adopt]
  exact h.plain hp hm

theorem guides_string (h : Twin H K ps) (text : String) :
    (Heap.string text).Guides ⟨H, es⟩ (Heap.string text) ⟨K, es'⟩ (Made ps) := by
  refine ((h.left.string text).guides (h.right.string text)).mono fun f u g z hR => ?_
  obtain ⟨⟨o, rfl, hH⟩, ⟨o', rfl, hK⟩⟩ := hR
  exact h.supply hH hK

theorem guides_symbol (h : Twin H K ps) (name : String) :
    (Heap.symbol name).Guides ⟨H, es⟩ (Heap.symbol name) ⟨K, es'⟩ (Made ps) := by
  refine ((h.left.symbol name).guides (h.right.symbol name)).mono fun f u g z hR => ?_
  obtain ⟨⟨o, rfl, hH⟩, ⟨o', rfl, hK⟩⟩ := hR
  exact h.supply hH hK

/-! ### Handles -/

/-- A handle is told by its heap and its cell. -/
theorem eq_mk (h : Twin H K ps) (hfg : (f, g) ∈ ps) :
    f = ⟨H.ident, f.cell⟩ ∧ g = ⟨K.ident, g.cell⟩ := by
  obtain ⟨hf, hg⟩ := h.ident hfg
  rw [← hf, ← hg]
  exact ⟨rfl, rfl⟩

theorem guides_clone (h : Twin H K ps) (hfg : (f, g) ∈ ps) :
    (Heap.clone f).Guides ⟨H, es⟩ (Heap.clone g) ⟨K, es'⟩ (Made ps) := by
  intro r u hok
  -- the first side had room for the root, so the second side has it too
  have hroom := room_of_clone hok
  have hclone : (Heap.clone f).Yields ⟨H, es⟩ _ := h.left.clone (mem_lefts hfg) hroom
  obtain ⟨rfl, hH⟩ := hclone.elim hok
  have hroom' : K.Room g.cell := h.room (.handle hfg) hroom
  refine (h.right.clone (mem_rights hfg) hroom').mono fun r' z hz => ?_
  obtain ⟨rfl, hK⟩ := hz
  unfold Made
  rw [(h.eq_mk hfg).1, (h.eq_mk hfg).2]
  exact h.share (.handle hfg) hH hK

/-- A handle of the cell of a handle. -/
theorem guides_object (h : Twin H K ps) (hfg : (f, g) ∈ ps) :
    (do Heap.object (← Heap.cellOf f) : Action Heap Handle).Guides ⟨H, es⟩
      (do Heap.object (← Heap.cellOf g)) ⟨K, es'⟩ (Made ps) := by
  have hhasf := h.left.has_of_mem (mem_lefts hfg)
  have hhasg := h.right.has_of_mem (mem_rights hfg)
  have hcopyf := h.left.acquire hhasf
  have hcopyg := h.right.acquire hhasg
  refine ((h.left.cellOf (mem_lefts hfg)).guides (h.right.cellOf (mem_rights hfg))).bind
    fun c u c' z hR => ?_
  obtain ⟨⟨rfl, rfl⟩, ⟨rfl, rfl⟩⟩ := hR
  -- the first side has room for the root, since it did not fault, and so has the second
  intro r u hok
  have hroom : H.Room f.cell := hcopyf.owned.room_of_object hok
  have hroom' : K.Room g.cell := h.room (.handle hfg) hroom
  have hpairf : ∀ id, f.cell = .pair id → H.Has (.pair id) := fun id he => he ▸ hhasf
  have hpairg : ∀ id, g.cell = .pair id → K.Has (.pair id) := fun id he => he ▸ hhasg
  have hobject : (Heap.object f.cell).Yields ⟨_, es⟩ _ := hcopyf.owned.object hpairf hroom
  obtain ⟨rfl, hH⟩ := hobject.elim hok
  refine (hcopyg.owned.object hpairg hroom').mono fun r' z hz => ?_
  obtain ⟨rfl, hK⟩ := hz
  exact h.share (.handle hfg) (hcopyf.trans hH) (hcopyg.trans hK)

/-- Both sides have something there, or neither has. -/
def Found (ps : Multiset (Handle × Handle)) (r : Option Handle) (u : Traced Heap)
    (r' : Option Handle) (z : Traced Heap) : Prop :=
  match r, r' with
  | some f, some g => Made ps f u g z
  | none, none => Twin u.state z.state ps
  | _, _ => False

theorem guides_get (h : Twin H K ps) (hfg : (f, g) ∈ ps) :
    (Heap.get f side).Guides ⟨H, es⟩ (Heap.get g side) ⟨K, es'⟩ (Found ps) := by
  cases hi : f.cell.pair? with
  | none =>
    rw [get_of_none hi, get_of_none ((h.alike (.handle hfg)).pair?_eq_none hi)]
    exact Action.guides_pure h
  | some i =>
    -- the two pairs are met together, and so are their sides
    obtain ⟨j, hj, hij⟩ := h.exists_pair hfg hi
    obtain ⟨m, hm⟩ : ∃ m, H.graph i = some m := h.has_left hij
    obtain ⟨n, hn⟩ : ∃ n, K.graph j = some n := h.has_right hij
    have hf := Cell.pair?_eq_some.1 hi
    have hside := hij.side hm hn side
    intro r u hok
    have hroom := h.left.room_of_get hf hm hok
    have hget : (Heap.get f side).Yields ⟨H, es⟩ _ := h.left.get hf hm hroom
    obtain ⟨rfl, hH⟩ := hget.elim hok
    have hroom' : K.Room (side.getNode n) := h.room hside hroom
    refine (h.right.get (Cell.pair?_eq_some.1 hj) hn hroom').mono fun r' z hz => ?_
    obtain ⟨rfl, hK⟩ := hz
    exact h.share hside hH hK

theorem guides_drop (h : Twin H K ((f, g) ::ₘ ps)) :
    (Heap.drop f).Guides ⟨H, es⟩ (Heap.drop g) ⟨K, es'⟩ fun _ u _ z =>
      Twin u.state z.state ps := by
  have hleft := h.left
  have hright := h.right
  rw [lefts_cons] at hleft
  rw [rights_cons] at hright
  exact (hleft.drop.guides hright.drop).mono fun _ _ _ _ hR => h.drop hR.1 hR.2

/-! ### Writes -/

/-- A write succeeds on both sides or on none, and then for the same reason. -/
def Same (ps : Multiset (Handle × Handle)) (r : Except HeapError Unit) (u : Traced Heap)
    (r' : Except HeapError Unit) (z : Traced Heap) : Prop :=
  r = r' ∧ (∀ e, r = .error e → e.isOutOfMemory = false) ∧ Twin u.state z.state ps

/-- What is written through paired handles goes to two pairs that are met together, or it fails on
both sides since there are no sides to write to. -/
theorem guides_side {a b : Action Heap (Except HeapError Unit)} (h : Twin H K ps)
    (hfg : (f, g) ∈ ps) (ha : f.cell.pair? = none → a = return .error (notAPair side))
    (hb : g.cell.pair? = none → b = return .error (notAPair side))
    (hpair : ∀ i j, f.cell = .pair i → g.cell = .pair j →
      Joint H.graph K.graph ps (.pair i) (.pair j) → a.Guides ⟨H, es⟩ b ⟨K, es'⟩ (Same ps)) :
    a.Guides ⟨H, es⟩ b ⟨K, es'⟩ (Same ps) := by
  cases hi : f.cell.pair? with
  | none =>
    rw [ha hi, hb ((h.alike (.handle hfg)).pair?_eq_none hi)]
    refine Action.guides_pure ⟨rfl, fun e he => ?_, h⟩
    rw [← Except.error.inj he]
    cases side <;> rfl
  | some i =>
    obtain ⟨j, hj, hij⟩ := h.exists_pair hfg hi
    exact hpair i j (Cell.pair?_eq_some.1 hi) (Cell.pair?_eq_some.1 hj) hij

theorem guides_set (h : Twin H K ps) (hfg : (f, g) ∈ ps) (hvw : (v, w) ∈ ps) :
    (Heap.set f side v).Guides ⟨H, es⟩ (Heap.set g side w) ⟨K, es'⟩ (Same ps) := by
  refine h.guides_side hfg set_of_none set_of_none fun i j hi hj hij => ?_
  have hleft : (Heap.set f side v).Yields ⟨H, es⟩ _ :=
    h.left.set hi (mem_lefts hfg) (mem_lefts hvw)
  have hright : (Heap.set g side w).Yields ⟨K, es'⟩ _ :=
    h.right.set hj (mem_rights hfg) (mem_rights hvw)
  refine (hleft.guides hright).mono fun r u r' z hR => ?_
  obtain ⟨⟨rfl, hH⟩, ⟨rfl, hK⟩⟩ := hR
  have htwin := h.write hij (.inl (.handle hvw)) hH hK
  exact ⟨rfl, fun e he => absurd he (by simp), htwin⟩

theorem guides_unset (h : Twin H K ps) (hfg : (f, g) ∈ ps) :
    (Heap.unset f side).Guides ⟨H, es⟩ (Heap.unset g side) ⟨K, es'⟩ (Same ps) := by
  refine h.guides_side hfg unset_of_none unset_of_none fun i j hi hj hij => ?_
  have hleft : (Heap.unset f side).Yields ⟨H, es⟩ _ := h.left.unset hi (mem_lefts hfg)
  have hright : (Heap.unset g side).Yields ⟨K, es'⟩ _ := h.right.unset hj (mem_rights hfg)
  refine (hleft.guides hright).mono fun r u r' z hR => ?_
  obtain ⟨⟨rfl, hH⟩, ⟨rfl, hK⟩⟩ := hR
  -- nil is written on both sides
  have htwin := h.write hij (.inr ⟨rfl, rfl⟩) hH hK
  exact ⟨rfl, fun e he => absurd he (by simp), htwin⟩

/-! ### Allocation -/

/-- An allocation fails for want of room only, and where both sides have an answer, the answers are
paired. -/
structure Allocated (ps : Multiset (Handle × Handle)) (r : Except HeapError Handle)
    (u : Traced Heap) (r' : Except HeapError Handle) (z : Traced Heap) : Prop where
  left : ∀ {e}, r = .error e → e.isOutOfMemory = true
  right : ∀ {e}, r' = .error e → e.isOutOfMemory = true
  made : ∀ {f g}, r = .ok f → r' = .ok g → Made ps f u g z

theorem guides_cons (h : Twin H K ps) (hfg : (f, g) ∈ ps) (hvw : (v, w) ∈ ps) :
    (Heap.cons f v).Guides ⟨H, es⟩ (Heap.cons g w) ⟨K, es'⟩ (Allocated ps) := by
  have hleft : (Heap.cons f v).Yields ⟨H, es⟩ _ := h.left.cons (mem_lefts hfg) (mem_lefts hvw)
  have hright : (Heap.cons g w).Yields ⟨K, es'⟩ _ := h.right.cons (mem_rights hfg) (mem_rights hvw)
  refine (hleft.guides hright).mono fun r u r' z hR => ?_
  obtain ⟨hH, hK⟩ := hR
  constructor
  case left =>
    rintro e rfl
    exact hH.1
  case right =>
    rintro e rfl
    exact hK.1
  case made =>
    rintro f' g' rfl rfl
    obtain ⟨i, rfl, hi, hH⟩ := hH
    obtain ⟨j, rfl, hj, hK⟩ := hK
    exact h.cons hfg hvw hi hj hH hK

/-- A list that was built was built pair by pair. -/
theorem prepend_cons_ok {item tail front : Handle} {rest : List Handle} {t u : Traced Heap}
    (hok : Heap.prepend (item :: rest) tail t = .ok (.ok front) u) :
    ∃ next m m', Heap.cons item tail t = .ok (.ok next) m ∧ Heap.drop tail m = .ok () m' ∧
      Heap.prepend rest next m' = .ok (.ok front) u := by
  unfold Heap.prepend at hok
  obtain ⟨r, m, hcons, hok⟩ := Action.bind_eq_ok.1 hok
  have hcons := Action.onFault_eq_ok hcons
  cases r with
  | error e =>
    obtain ⟨_, m', -, hok⟩ := Action.bind_eq_ok.1 hok
    exact absurd (Action.pure_eq_ok.1 hok).1 (by simp)
  | ok next =>
    obtain ⟨_, m', hdrop, hok⟩ := Action.bind_eq_ok.1 hok
    exact ⟨next, m, m', hcons, Action.onFault_eq_ok hdrop, hok⟩

/-- Two lists of paired values are paired, by induction on the values that are still to come. -/
theorem prepend_ok (items : List (Handle × Handle)) (h : Twin H K ((f, g) ::ₘ ps))
    (hitems : ∀ p ∈ items, p ∈ ps)
    (hleft : Heap.prepend (items.map Prod.fst) f ⟨H, es⟩ = .ok (.ok f') u)
    (hright : Heap.prepend (items.map Prod.snd) g ⟨K, es'⟩ = .ok (.ok g') z) :
    Made ps f' u g' z := by
  induction items generalizing H K f g es es' with
  | nil =>
    obtain ⟨hf, rfl⟩ := Action.pure_eq_ok.1 hleft
    obtain ⟨hg, rfl⟩ := Action.pure_eq_ok.1 hright
    rw [Except.ok.inj hf, Except.ok.inj hg]
    exact h
  | cons item rest ih =>
    obtain ⟨a, b⟩ := item
    obtain ⟨next, ⟨H₁, es₁⟩, ⟨H₂, es₂⟩, hcons, hdrop, hrest⟩ := prepend_cons_ok hleft
    obtain ⟨next', ⟨K₁, es₁'⟩, ⟨K₂, es₂'⟩, hcons', hdrop', hrest'⟩ := prepend_cons_ok hright
    have hab : (a, b) ∈ (f, g) ::ₘ ps :=
      Multiset.mem_cons_of_mem (hitems _ List.mem_cons_self)
    have hmade : Twin H₁ K₁ ((next, next') ::ₘ (f, g) ::ₘ ps) :=
      ((h.guides_cons hab (Multiset.mem_cons_self _ _) _ _ hcons).elim hcons').made rfl rfl
    -- the old front is given up once the new one holds it
    rw [Multiset.cons_swap] at hmade
    have hdropped : Twin H₂ K₂ ((next, next') ::ₘ ps) :=
      (hmade.guides_drop _ _ hdrop).elim hdrop'
    exact ih hdropped (fun p hp => hitems p (List.mem_cons_of_mem _ hp)) hrest hrest'

theorem guides_list (items : List (Handle × Handle)) (h : Twin H K ps)
    (hitems : ∀ p ∈ items, p ∈ ps) :
    (Heap.list (items.map Prod.fst)).Guides ⟨H, es⟩ (Heap.list (items.map Prod.snd)) ⟨K, es'⟩
      (Allocated ps) := by
  -- either side alone ends, with a list or for want of room
  have hfirst : ∀ f ∈ items.map Prod.fst, f.cell ∈ lefts ps := by
    intro f hf
    obtain ⟨p, hp, rfl⟩ := List.mem_map.1 hf
    exact mem_lefts (hitems p hp)
  have hsecond : ∀ g ∈ items.map Prod.snd, g.cell ∈ rights ps := by
    intro g hg
    obtain ⟨p, hp, rfl⟩ := List.mem_map.1 hg
    exact mem_rights (hitems p hp)
  intro r u hok
  have hH := (h.left.list _ hfirst).elim hok
  obtain ⟨r', z, hok', hK⟩ : (Heap.list (items.map Prod.snd)).Yields ⟨K, es'⟩ _ :=
    h.right.list _ hsecond
  refine ⟨r', z, hok', ?_⟩
  constructor
  case left =>
    rintro e rfl
    exact hH.1
  case right =>
    rintro e rfl
    exact hK.1
  case made =>
    rintro f' g' rfl rfl
    -- both lists start with nil
    unfold Heap.list at hok hok'
    obtain ⟨f, ⟨H₁, es₁⟩, hleft, hok⟩ := Action.bind_eq_ok.1 hok
    obtain ⟨g, ⟨K₁, es₁'⟩, hright, hok'⟩ := Action.bind_eq_ok.1 hok'
    have hnil : Twin H₁ K₁ ((f, g) ::ₘ ps) := (h.guides_adopt rfl rfl _ _ hleft).elim hright
    rw [← List.map_reverse] at hok hok'
    exact hnil.prepend_ok items.reverse (fun p hp => hitems p (List.mem_reverse.1 hp)) hok hok'

end Twin

end Heap

end ConsHeap
