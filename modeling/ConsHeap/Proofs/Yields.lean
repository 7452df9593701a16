import ConsHeap.Action

/-!
# Answers

`Action.Yields a t Q` says that the action `a`, run from `t`, ends without a fault, and that what it
answers and where it ends satisfy `Q`. It is a statement of total correctness: a proof of it is also
a proof that no check of the action fails.

Every primitive action has one lemma that says what it yields, and `Action.yields_bind` takes a
sequence apart, so that `simp only` with these lemmas runs an action symbolically. An action that
is specified once is used through `Action.Yields.mono`.

* `Action.Yields.elim` — what an action yields is what it does, since actions are deterministic;
* `Action.Yields.times` — an invariant of one round is an invariant of a number of rounds.

`Action.Refuses a t` says that `a` faults and has changed nothing until then. An action that checks
its arguments before anything else leaves nothing half done.

`Action.Leaves a t Q` is the statement of partial correctness: if `a` ends without a fault, then `Q`
holds of its answer and of where it ends. It is for operations whose arguments are not known to be
in order, where the checks that they passed are part of what is known afterwards.

`Action.Faults a t P` is about the other outcome: if `a` faults, its fault satisfies `P`.

`Action.Keeps P a` says that `a` keeps the invariant `P` of states, whatever comes of it: an action
that faults has kept it until then. It does not depend on where the action starts, so a program keeps
what its parts keep.

`Action.Guides a t b t' R` compares two actions: if `a` ends without a fault, then so does `b`, with
answers and states related by `R`. Sequences are compared step by step (`Action.Guides.bind`).
-/

namespace ConsHeap

namespace Action

variable {σ τ α β : Type} {t u : Traced σ}

/-- The action ends without a fault, and its answer and the state reached satisfy `Q`. -/
def Yields (a : Action σ α) (t : Traced σ) (Q : α → Traced σ → Prop) : Prop :=
  ∃ x u, a t = .ok x u ∧ Q x u

theorem Yields.mono {a : Action σ α} {Q R : α → Traced σ → Prop} (h : a.Yields t Q)
    (hQR : ∀ x u, Q x u → R x u) : a.Yields t R := by
  obtain ⟨x, u, ha, hQ⟩ := h
  exact ⟨x, u, ha, hQR x u hQ⟩

/-- What an action yields holds of what it answered. -/
theorem Yields.elim {a : Action σ α} {Q : α → Traced σ → Prop} {x : α} (h : a.Yields t Q)
    (ha : a t = .ok x u) : Q x u := by
  obtain ⟨y, v, hy, hQ⟩ := h
  rw [ha] at hy
  obtain ⟨rfl, rfl⟩ := EStateM.Result.ok.inj hy
  exact hQ

/-- What matters of an action is what it does from where it starts. -/
theorem Yields.congr {a b : Action σ α} {Q : α → Traced σ → Prop} (h : b.Yields t Q)
    (hab : a t = b t) : a.Yields t Q := by
  unfold Yields
  rw [hab]
  exact h

/-! ### Sequences and choices -/

/-- A sequence goes on from where its first half ended, unless that was a fault. -/
theorem bind_apply {a : Action σ α} {k : α → Action σ β} : (a >>= k) t =
    match a t with
    | .ok x u => k x u
    | .error f u => .error f u := by
  change EStateM.bind a k t = _
  unfold EStateM.bind
  cases a t <;> rfl

theorem yields_bind {a : Action σ α} {k : α → Action σ β} {Q : β → Traced σ → Prop} :
    Yields (a >>= k) t Q ↔ Yields a t fun x u => Yields (k x) u Q := by
  constructor
  · rintro ⟨b, u, h, hQ⟩
    obtain ⟨x, m, ha, hk⟩ := bind_eq_ok.1 h
    exact ⟨x, m, ha, b, u, hk, hQ⟩
  · rintro ⟨x, m, ha, b, u, hk, hQ⟩
    exact ⟨b, u, bind_eq_ok.2 ⟨x, m, ha, hk⟩, hQ⟩

theorem yields_ite {p : Prop} [Decidable p] {a b : Action σ α} {Q : α → Traced σ → Prop} :
    Yields (if p then a else b) t Q ↔ (p → Yields a t Q) ∧ (¬p → Yields b t Q) := by
  split
  · rename_i h
    exact ⟨fun ha => ⟨fun _ => ha, fun hn => absurd h hn⟩, fun hab => hab.1 h⟩
  · rename_i h
    exact ⟨fun hb => ⟨fun hp => absurd hp h, fun _ => hb⟩, fun hab => hab.2 h⟩

/-! ### Primitive actions -/

theorem yields_pure {a : α} {Q : α → Traced σ → Prop} :
    Yields (pure a : Action σ α) t Q ↔ Q a t := by
  constructor
  · rintro ⟨x, u, h, hQ⟩
    obtain ⟨rfl, rfl⟩ := pure_eq_ok.1 h
    exact hQ
  · intro hQ
    exact ⟨a, t, rfl, hQ⟩

/-- An answer that is made of that of an action changes nothing else. -/
theorem Yields.answer {a : Action σ α} {f : α → β} {Q : β → Traced σ → Prop}
    (h : a.Yields t fun x u => Q (f x) u) : Yields (do return f (← a)) t Q :=
  yields_bind.2 (h.mono fun _ _ hu => yields_pure.2 hu)

theorem yields_require {p : Prop} [Decidable p] {f : Fault} {Q : Unit → Traced σ → Prop} :
    Yields (require p f) t Q ↔ p ∧ Q () t := by
  constructor
  · rintro ⟨x, u, h, hQ⟩
    obtain ⟨hp, rfl⟩ := require_eq_ok.1 h
    exact ⟨hp, hQ⟩
  · rintro ⟨hp, hQ⟩
    exact ⟨(), t, require_eq_ok.2 ⟨hp, rfl⟩, hQ⟩

theorem yields_ask {f : σ → α} {Q : α → Traced σ → Prop} :
    Yields (ask f) t Q ↔ Q (f t.state) t := by
  constructor
  · rintro ⟨x, u, h, hQ⟩
    obtain ⟨rfl, rfl⟩ := ask_eq_ok.1 h
    exact hQ
  · intro hQ
    exact ⟨f t.state, t, rfl, hQ⟩

/-- A reading is available to what comes after it. -/
theorem ask_bind {f : σ → α} {k : α → Action σ β} : (ask f >>= k) t = k (f t.state) t :=
  rfl

theorem query_bind {f : σ → Except Fault α} {k : α → Action σ β} {x : α}
    (h : f t.state = .ok x) : (query f >>= k) t = k x t := by
  rw [bind_apply]
  unfold query
  rw [h]

/-- A check stops the sequence, or changes nothing. -/
theorem require_bind {p : Prop} [Decidable p] {f : Fault} {k : Unit → Action σ β} :
    (require p f >>= k) t = if p then k () t else .error f t := by
  rw [bind_apply]
  unfold require
  by_cases hp : p
  · rw [if_pos hp, if_pos hp]
    rfl
  · rw [if_neg hp, if_neg hp]
    rfl

theorem yields_query {f : σ → Except Fault α} {Q : α → Traced σ → Prop} :
    Yields (query f) t Q ↔ ∃ x, f t.state = .ok x ∧ Q x t := by
  constructor
  · rintro ⟨x, u, h, hQ⟩
    obtain ⟨hf, rfl⟩ := query_eq_ok.1 h
    exact ⟨x, hf, hQ⟩
  · rintro ⟨x, hf, hQ⟩
    exact ⟨x, t, query_eq_ok.2 ⟨hf, rfl⟩, hQ⟩

theorem yields_update {f : σ → σ} {Q : Unit → Traced σ → Prop} :
    Yields (update f) t Q ↔ Q () ⟨f t.state, t.events⟩ := by
  constructor
  · rintro ⟨x, u, h, hQ⟩
    obtain rfl := update_eq_ok.1 h
    exact hQ
  · intro hQ
    exact ⟨(), _, rfl, hQ⟩

theorem yields_updateGet {f : σ → α × σ} {Q : α → Traced σ → Prop} :
    Yields (updateGet f) t Q ↔ Q (f t.state).1 ⟨(f t.state).2, t.events⟩ := by
  constructor
  · rintro ⟨x, u, h, hQ⟩
    obtain ⟨rfl, rfl⟩ := EStateM.Result.ok.inj h
    exact hQ
  · intro hQ
    exact ⟨_, _, rfl, hQ⟩

theorem yields_report {e : Event} {Q : Unit → Traced σ → Prop} :
    Yields (report e) t Q ↔ Q () ⟨t.state, t.events.push e⟩ := by
  constructor
  · rintro ⟨x, u, h, hQ⟩
    obtain rfl := report_eq_ok.1 h
    exact hQ
  · intro hQ
    exact ⟨(), _, rfl, hQ⟩

theorem yields_focus {split : σ → τ × (τ → σ)} {a : Action τ α} {Q : α → Traced σ → Prop} :
    Yields (focus split a) t Q ↔
      Yields a ⟨(split t.state).1, t.events⟩ fun x m =>
        Q x ⟨(split t.state).2 m.state, m.events⟩ := by
  constructor
  · rintro ⟨x, u, h, hQ⟩
    obtain ⟨m, ha, rfl⟩ := focus_eq_ok.1 h
    exact ⟨x, m, ha, hQ⟩
  · rintro ⟨x, m, ha, hQ⟩
    exact ⟨x, _, focus_eq_ok.2 ⟨m, ha, rfl⟩, hQ⟩

theorem onFault_eq_ok {a : Action σ α} {cleanup : Action σ Unit} {x : α}
    (h : onFault a cleanup t = .ok x u) : a t = .ok x u := by
  unfold onFault at h
  split at h
  · rename_i ha
    rw [ha]
    exact h
  · split at h <;> exact absurd h (by simp)

/-- An action that does not fault is never cleaned up after. -/
theorem Yields.onFault {a : Action σ α} {cleanup : Action σ Unit} {Q : α → Traced σ → Prop}
    (h : a.Yields t Q) : (onFault a cleanup).Yields t Q := by
  obtain ⟨x, u, ha, hQ⟩ := h
  refine ⟨x, u, ?_, hQ⟩
  unfold Action.onFault
  rw [ha]

/-- An invariant of one round is an invariant of a number of rounds. -/
theorem Yields.times {a : Action σ Unit} {I : Traced σ → Prop}
    (round : ∀ t, I t → a.Yields t fun _ u => I u) (n : Nat) (ht : I t) :
    (times n a).Yields t fun _ u => I u := by
  induction n generalizing t with
  | zero => exact yields_pure.2 ht
  | succ n ih =>
    unfold Action.times
    rw [yields_bind]
    exact (round t ht).mono fun _ u hu => ih hu

/-! ### Faults that change nothing -/

/-- The action faults, and the state is the one that it began with. -/
def Refuses (a : Action σ α) (t : Traced σ) : Prop :=
  ∃ f u, a t = .error f u ∧ u.state = t.state

theorem Refuses.ne_ok {a : Action σ α} {x : α} (h : a.Refuses t) : a t ≠ .ok x u := by
  obtain ⟨f, v, ha, -⟩ := h
  rw [ha]
  exact nofun

/-- What comes after a fault is not done. -/
theorem Refuses.bind {a : Action σ α} {k : α → Action σ β} (h : a.Refuses t) :
    Refuses (a >>= k) t := by
  obtain ⟨f, u, ha, hu⟩ := h
  refine ⟨f, u, ?_, hu⟩
  change EStateM.bind a k t = _
  unfold EStateM.bind
  rw [ha]

/-- A fault after something that changed nothing. -/
theorem Yields.bind_refuses {a : Action σ α} {k : α → Action σ β}
    (h : a.Yields t fun x u => u.state = t.state ∧ (k x).Refuses u) : Refuses (a >>= k) t := by
  obtain ⟨x, u, ha, hu, f, v, hk, hv⟩ := h
  refine ⟨f, v, ?_, hv.trans hu⟩
  change EStateM.bind a k t = _
  unfold EStateM.bind
  rw [ha]
  exact hk

theorem refuses_require {p : Prop} [Decidable p] {f : Fault} (h : ¬p) :
    (require p f : Action σ Unit).Refuses t := by
  refine ⟨f, t, ?_, rfl⟩
  unfold require
  rw [if_neg h]
  rfl

/-- A check that fails, or one after it does. -/
theorem refuses_require_bind {p : Prop} [Decidable p] {f : Fault} {k : Unit → Action σ β}
    (h : p → (k ()).Refuses t) : Refuses (require p f >>= k) t := by
  by_cases hp : p
  · exact Yields.bind_refuses (yields_require.2 ⟨hp, rfl, h hp⟩)
  · exact (refuses_require hp).bind

/-- A reading that fails, or a check of what was read. -/
theorem refuses_query_bind {f : σ → Except Fault α} {k : α → Action σ β}
    (h : ∀ x, f t.state = .ok x → (k x).Refuses t) : Refuses (query f >>= k) t := by
  cases hf : f t.state with
  | ok x => exact Yields.bind_refuses (yields_query.2 ⟨x, hf, rfl, h x hf⟩)
  | error e =>
    refine Refuses.bind ⟨e, t, ?_, rfl⟩
    unfold query
    rw [hf]

/-- A part that is unchanged is put back into a whole that is unchanged. -/
theorem Refuses.focus {split : σ → τ × (τ → σ)} {a : Action τ α}
    (h : a.Refuses ⟨(split t.state).1, t.events⟩)
    (hsplit : (split t.state).2 (split t.state).1 = t.state) : (focus split a).Refuses t := by
  obtain ⟨f, u, ha, hu⟩ := h
  refine ⟨f, ⟨(split t.state).2 u.state, u.events⟩, ?_, (congrArg _ hu).trans hsplit⟩
  unfold Action.focus
  simp only [ha]

/-! ### What holds unless there is a fault -/

section Leaves

variable {a : Action σ α} {k : α → Action σ β} {Q R : α → Traced σ → Prop}

/-- If the action ends without a fault, its answer and the state reached satisfy `Q`. -/
def Leaves (a : Action σ α) (t : Traced σ) (Q : α → Traced σ → Prop) : Prop :=
  ∀ x u, a t = .ok x u → Q x u

theorem Yields.leaves (h : a.Yields t Q) : a.Leaves t Q :=
  fun _ _ ha => h.elim ha

/-- What an action yields, for two reasons. -/
theorem Yields.and (h : a.Yields t Q) (h' : a.Leaves t R) :
    a.Yields t fun x u => Q x u ∧ R x u := by
  obtain ⟨x, u, ha, hQ⟩ := h
  exact ⟨x, u, ha, hQ, h' x u ha⟩

theorem Leaves.mono (h : a.Leaves t Q) (hQR : ∀ x u, Q x u → R x u) : a.Leaves t R :=
  fun x u ha => hQR x u (h x u ha)

/-- What matters of an action is what it does from this state. -/
theorem Leaves.congr {b : Action σ α} (h : b.Leaves t Q) (hab : a t = b t) : a.Leaves t Q := by
  intro x u ha
  exact h x u (hab ▸ ha)

/-- A sequence that ends without a fault has done so in both halves. -/
theorem leaves_bind {Q : β → Traced σ → Prop} :
    Leaves (a >>= k) t Q ↔ Leaves a t fun x u => Leaves (k x) u Q := by
  constructor
  · intro h x m ha y u hk
    exact h y u (bind_eq_ok.2 ⟨x, m, ha, hk⟩)
  · intro h y u hak
    obtain ⟨x, m, ha, hk⟩ := bind_eq_ok.1 hak
    exact h x m ha y u hk

/-- A step that is known to end is passed. -/
theorem Yields.bind_leaves {Q : β → Traced σ → Prop} (h : a.Yields t fun x u => Leaves (k x) u Q) :
    Leaves (a >>= k) t Q :=
  leaves_bind.2 h.leaves

theorem leaves_pure {x : α} : Leaves (pure x : Action σ α) t Q ↔ Q x t := by
  constructor
  · intro h
    exact h x t rfl
  · intro hQ y u hy
    obtain ⟨rfl, rfl⟩ := pure_eq_ok.1 hy
    exact hQ

/-- After a check it is known that the condition holds. -/
theorem leaves_require {p : Prop} [Decidable p] {f : Fault} {Q : Unit → Traced σ → Prop} :
    Leaves (require p f) t Q ↔ (p → Q () t) := by
  constructor
  · intro h hp
    exact h () t (require_eq_ok.2 ⟨hp, rfl⟩)
  · intro h x u hx
    obtain ⟨hp, rfl⟩ := require_eq_ok.1 hx
    exact h hp

theorem leaves_query {f : σ → Except Fault α} :
    Leaves (query f) t Q ↔ ∀ x, f t.state = .ok x → Q x t := by
  constructor
  · intro h x hx
    exact h x t (query_eq_ok.2 ⟨hx, rfl⟩)
  · intro h x u hx
    obtain ⟨hx, rfl⟩ := query_eq_ok.1 hx
    exact h x hx

theorem leaves_focus {split : σ → τ × (τ → σ)} {a : Action τ α} :
    Leaves (focus split a) t Q ↔
      Leaves a ⟨(split t.state).1, t.events⟩ fun x m =>
        Q x ⟨(split t.state).2 m.state, m.events⟩ := by
  constructor
  · intro h x m hx
    exact h x _ (focus_eq_ok.2 ⟨m, hx, rfl⟩)
  · intro h x u hx
    obtain ⟨m, hm, rfl⟩ := focus_eq_ok.1 hx
    exact h x m hm

/-- A cleanup is only done after a fault. -/
theorem Leaves.onFault {cleanup : Action σ Unit} (h : a.Leaves t Q) :
    (onFault a cleanup).Leaves t Q :=
  fun x u hx => h x u (onFault_eq_ok hx)

end Leaves

/-! ### What an action faults with -/

section Faults

variable {a : Action σ α} {k : α → Action σ β} {P : Fault → Prop}

/-- If the action faults, its fault satisfies `P`. -/
def Faults (a : Action σ α) (t : Traced σ) (P : Fault → Prop) : Prop :=
  ∀ f u, a t = .error f u → P f

theorem Yields.faults {Q : α → Traced σ → Prop} (h : a.Yields t Q) : a.Faults t P := by
  obtain ⟨x, v, ha, -⟩ := h
  intro f u hf
  rw [ha] at hf
  exact nomatch hf

theorem Faults.mono {P' : Fault → Prop} (h : a.Faults t P) (hP : ∀ f, P f → P' f) :
    a.Faults t P' :=
  fun f u hf => hP f (h f u hf)

theorem faults_pure {x : α} : Faults (pure x : Action σ α) t P :=
  nofun

theorem faults_report {e : Event} : Faults (report e : Action σ Unit) t P :=
  nofun

/-- An action that does not end without a fault faults. -/
theorem Faults.exists_of_not_ok (h : a.Faults t P) (hne : ∀ x u, a t ≠ .ok x u) :
    ∃ f u, a t = .error f u ∧ P f := by
  cases ha : a t with
  | ok x u => exact absurd ha (hne x u)
  | error f u => exact ⟨f, u, rfl, h f u ha⟩

/-- A sequence faults in its first half or in its second. -/
theorem Faults.bind (h : a.Faults t P) (hk : ∀ x u, a t = .ok x u → (k x).Faults u P) :
    Faults (a >>= k) t P := by
  intro f u hf
  change EStateM.bind a k t = _ at hf
  unfold EStateM.bind at hf
  cases ha : a t with
  | ok x m =>
    rw [ha] at hf
    exact hk x m ha f u hf
  | error g m =>
    rw [ha] at hf
    obtain ⟨rfl, -⟩ := EStateM.Result.error.inj hf
    exact h g m ha

/-- A step that is known to end is passed. -/
theorem Yields.bind_faults (h : a.Yields t fun x u => (k x).Faults u P) :
    Faults (a >>= k) t P :=
  h.faults.bind fun _ _ ha => h.elim ha

/-- A check that fails, or a fault after it. -/
theorem faults_require_bind {p : Prop} [Decidable p] {f : Fault} {k : Unit → Action σ β}
    (hf : ¬p → P f) (hk : p → (k ()).Faults t P) : Faults (require p f >>= k) t P := by
  by_cases hp : p
  · exact Yields.bind_faults (yields_require.2 ⟨hp, hk hp⟩)
  · refine Faults.bind (fun g u hg => ?_) fun x u hx => absurd (require_eq_ok.1 hx).1 hp
    unfold require at hg
    rw [if_neg hp] at hg
    obtain ⟨rfl, -⟩ := EStateM.Result.error.inj hg
    exact hf hp

end Faults

/-! ### What an action keeps, also when it faults -/

section Keeps

variable {P : σ → Prop} {a : Action σ α} {k : α → Action σ β}

/-- The state in which an action ends, with an answer or with a fault. -/
def ending (a : Action σ α) (t : Traced σ) : σ :=
  match a t with
  | .ok _ u | .error _ u => u.state

theorem ending_of_ok {x : α} (h : a t = .ok x u) : a.ending t = u.state := by
  unfold ending
  rw [h]

theorem ending_of_error {f : Fault} (h : a t = .error f u) : a.ending t = u.state := by
  unfold ending
  rw [h]

/-- What holds of a state holds of the one in which the action ends. -/
def Keeps (P : σ → Prop) (a : Action σ α) : Prop :=
  ∀ t, P t.state → P (a.ending t)

theorem keeps_pure {x : α} : Keeps P (pure x : Action σ α) :=
  fun _ h => h

theorem keeps_report {e : Event} : Keeps P (report e) :=
  fun _ h => h

theorem keeps_ask {f : σ → α} : Keeps P (ask f) :=
  fun _ h => h

theorem keeps_require {p : Prop} [Decidable p] {f : Fault} :
    Keeps P (require p f : Action σ Unit) := by
  unfold require
  split <;> exact fun _ h => h

theorem keeps_update {f : σ → σ} (h : ∀ s, P s → P (f s)) : Keeps P (update f) :=
  fun t => h t.state

theorem keeps_updateGet {f : σ → α × σ} (h : ∀ s, P s → P (f s).2) : Keeps P (updateGet f) :=
  fun t => h t.state

/-- A sequence ends where its first half faults, or where its second half ends. What the first half
answered is known in between. -/
theorem Keeps.bind_of_ok (h : a.Keeps P)
    (hk : ∀ t x u, P t.state → a t = .ok x u → P u.state → P ((k x).ending u)) :
    Keeps P (a >>= k) := by
  intro t ht
  have hm := h t ht
  -- the end of the whole is unfolded by hand in both cases: it is the end of one half
  cases ha : a t with
  | ok x u =>
    have hend : ending (a >>= k) t = (k x).ending u := by
      change ending (EStateM.bind a k) t = _
      unfold ending EStateM.bind
      rw [ha]
    rw [ending_of_ok ha] at hm
    rw [hend]
    exact hk t x u ht ha hm
  | error f u =>
    have hend : ending (a >>= k) t = u.state := by
      change ending (EStateM.bind a k) t = _
      unfold ending EStateM.bind
      rw [ha]
    rw [ending_of_error ha] at hm
    rw [hend]
    exact hm

theorem Keeps.bind (h : a.Keeps P) (hk : ∀ x, (k x).Keeps P) : Keeps P (a >>= k) :=
  h.bind_of_ok fun _ x u _ _ hu => hk x u hu

theorem keeps_query {f : σ → Except Fault α} : Keeps P (query f) := by
  intro t h
  cases hf : f t.state with
  | ok x => rwa [ending_of_ok (query_eq_ok.2 ⟨hf, rfl⟩)]
  | error e =>
    have hend : (query f).ending t = t.state := by
      unfold ending query
      rw [hf]
    rwa [hend]

/-- What was read is known of the state from which the sequence goes on. -/
theorem keeps_query_bind {f : σ → Except Fault α}
    (h : ∀ t x, P t.state → f t.state = .ok x → P ((k x).ending t)) : Keeps P (query f >>= k) := by
  refine keeps_query.bind_of_ok fun t x u ht hx _ => ?_
  obtain ⟨hx, rfl⟩ := query_eq_ok.1 hx
  exact h u x ht hx

/-- A part of a state, kept in its place. -/
theorem Keeps.focus {split : σ → τ × (τ → σ)} {b : Action τ α}
    (h : ∀ s, P s → b.Keeps fun part => P ((split s).2 part))
    (hsplit : ∀ s, (split s).2 (split s).1 = s) : (focus split b).Keeps P := by
  intro t ht
  have hpart : P ((split t.state).2 (split t.state).1) := by
    rw [hsplit]
    exact ht
  have hb := h t.state ht ⟨(split t.state).1, t.events⟩ hpart
  have hend : (Action.focus split b).ending t =
      (split t.state).2 (b.ending ⟨(split t.state).1, t.events⟩) := by
    unfold ending Action.focus
    dsimp only
    cases b ⟨(split t.state).1, t.events⟩ <;> rfl
  rw [hend]
  exact hb

theorem Keeps.onFault {cleanup : Action σ Unit} (h : a.Keeps P) (hc : cleanup.Keeps P) :
    (onFault a cleanup).Keeps P := by
  intro t ht
  have hm := h t ht
  cases ha : a t with
  | ok x u =>
    have hend : (Action.onFault a cleanup).ending t = u.state := by
      unfold ending Action.onFault
      rw [ha]
    rw [ending_of_ok ha] at hm
    rw [hend]
    exact hm
  | error f u =>
    -- the cleanup goes on from where the fault was
    have hend : (Action.onFault a cleanup).ending t = cleanup.ending u := by
      unfold ending Action.onFault
      simp only [ha]
      cases cleanup u <;> rfl
    rw [ending_of_error ha] at hm
    rw [hend]
    exact hc u hm

theorem Keeps.times {a : Action σ Unit} (h : a.Keeps P) (n : Nat) : (times n a).Keeps P := by
  induction n with
  | zero => exact keeps_pure
  | succ n ih => exact h.bind fun _ => ih

end Keeps

/-! ### Two actions side by side -/

section Guides

variable {γ δ : Type} {t' : Traced τ} {a : Action σ α} {b : Action τ γ} {k : α → Action σ β}
  {l : γ → Action τ δ} {R R' : α → Traced σ → γ → Traced τ → Prop}
  {S : β → Traced σ → δ → Traced τ → Prop}

/-- Where `a` ends without a fault, so does `b`, and their answers and the states reached are
related. -/
def Guides (a : Action σ α) (t : Traced σ) (b : Action τ γ) (t' : Traced τ)
    (R : α → Traced σ → γ → Traced τ → Prop) : Prop :=
  ∀ x u, a t = .ok x u → b.Yields t' (R x u)

theorem Guides.mono (h : a.Guides t b t' R) (hR : ∀ x u y v, R x u y v → R' x u y v) :
    a.Guides t b t' R' :=
  fun x u hx => (h x u hx).mono fun y v => hR x u y v

/-- What matters of two actions is what they do from these states. -/
theorem Guides.congr {a' : Action σ α} {b' : Action τ γ} (h : a'.Guides t b' t' R)
    (ha : a t = a' t) (hb : b t' = b' t') : a.Guides t b t' R := by
  intro x u hx
  -- the second action is run only from the one state
  unfold Yields
  rw [hb]
  exact h x u (ha ▸ hx)

/-- Two actions that both end without a fault. -/
theorem Yields.guides {P : α → Traced σ → Prop} {Q : γ → Traced τ → Prop} (ha : a.Yields t P)
    (hb : b.Yields t' Q) : a.Guides t b t' fun x u y v => P x u ∧ Q y v :=
  fun _ _ hx => hb.mono fun _ _ hQ => ⟨ha.elim hx, hQ⟩

/-- Two sequences are related step by step. -/
theorem Guides.bind (h : a.Guides t b t' R)
    (hk : ∀ x u y v, R x u y v → (k x).Guides u (l y) v S) :
    (a >>= k).Guides t (b >>= l) t' S := by
  intro z w hz
  obtain ⟨x, u, hx, hz⟩ := bind_eq_ok.1 hz
  rw [yields_bind]
  exact (h x u hx).mono fun y v hR => hk x u y v hR z w hz

theorem guides_pure {x : α} {y : γ} (h : R x t y t') :
    (pure x : Action σ α).Guides t (pure y : Action τ γ) t' R := by
  intro z u hz
  obtain ⟨rfl, rfl⟩ := pure_eq_ok.1 hz
  exact yields_pure.2 h

/-- Two actions on parts of a state. -/
theorem Guides.focus {σ' τ' : Type} {s : Traced σ'} {s' : Traced τ'} {split : σ' → σ × (σ → σ')}
    {split' : τ' → τ × (τ → τ')} {Q : α → Traced σ' → γ → Traced τ' → Prop}
    (h : a.Guides ⟨(split s.state).1, s.events⟩ b ⟨(split' s'.state).1, s'.events⟩
      fun x u y v => Q x ⟨(split s.state).2 u.state, u.events⟩ y
        ⟨(split' s'.state).2 v.state, v.events⟩) :
    (focus split a).Guides s (focus split' b) s' Q := by
  intro x u hx
  obtain ⟨m, hm, rfl⟩ := focus_eq_ok.1 hx
  exact yields_focus.2 (h x m hm)

end Guides

end Action

end ConsHeap
