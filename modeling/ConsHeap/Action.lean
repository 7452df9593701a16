import ConsHeap.Event
import ConsHeap.Fault

/-!
# Actions

An action runs on a state, may fault, and reports events. A fault does not undo anything: the state
and the events are those reached where it happened. An action on a part of a state is an action on
the whole (`Action.focus`).

`Action.bind_eq_ok` takes a sequence apart: it succeeds exactly when both halves do, and the lemmas
beside the primitive actions say when those succeed.
-/

namespace ConsHeap

/-- A state together with the events reported so far. -/
structure Traced (σ : Type) where
  state : σ
  events : Array Event := #[]

/-- A computation on a state of type `σ`: it answers an `α` or a fault, and keeps the state reached
in both cases. -/
abbrev Action (σ α : Type) :=
  EStateM Fault (Traced σ) α

namespace Action

variable {σ τ α β : Type}

/-! ### Primitive actions -/

/-- Stop here. -/
@[inline] def fail (f : Fault) : Action σ α :=
  fun t => .error f t

/-- Stop unless a condition holds. -/
@[inline] def require (p : Prop) [Decidable p] (f : Fault) : Action σ Unit :=
  if p then pure () else fail f

/-- A value read off the state. -/
@[inline] def ask (f : σ → α) : Action σ α :=
  fun t => .ok (f t.state) t

/-- A value read off the state, by a reading that may fault. -/
@[inline] def query (f : σ → Except Fault α) : Action σ α :=
  fun t =>
    match f t.state with
    | .ok a => .ok a t
    | .error e => .error e t

/-- The state replaced. -/
@[inline] def update (f : σ → σ) : Action σ Unit :=
  fun ⟨s, es⟩ => .ok () ⟨f s, es⟩

/-- The state replaced, with an answer. -/
@[inline] def updateGet (f : σ → α × σ) : Action σ α :=
  fun ⟨s, es⟩ =>
    match f s with
    | (a, s') => .ok a ⟨s', es⟩

/-- One more event. -/
@[inline] def report (e : Event) : Action σ Unit :=
  fun ⟨s, es⟩ => .ok () ⟨s, es.push e⟩

/-! ### Control -/

/-- An action that is cleaned up after when it faults. The first fault is the one that counts. -/
@[inline] def onFault (a : Action σ α) (cleanup : Action σ Unit) : Action σ α :=
  fun t =>
    match a t with
    | .ok r t' => .ok r t'
    | .error f t' =>
      -- a fault of the cleanup is dropped, but what it did until then stays
      match cleanup t' with
      | .ok _ t'' => .error f t''
      | .error _ t'' => .error f t''

/-- An action repeated a number of times. -/
def times : Nat → Action σ Unit → Action σ Unit
  | 0, _ => pure ()
  | n + 1, a => do
    a
    times n a

/-- An action on a part of the state. `split` takes the state apart into the part and a way to put
it back. -/
@[inline] def focus (split : σ → τ × (τ → σ)) (a : Action τ α) : Action σ α :=
  fun ⟨s, es⟩ =>
    match split s with
    | (part, restore) =>
      match a ⟨part, es⟩ with
      | .ok r ⟨part', es'⟩ => .ok r ⟨restore part', es'⟩
      | .error f ⟨part', es'⟩ => .error f ⟨restore part', es'⟩

/-! ### Reasoning -/

theorem bind_eq_ok {a : Action σ α} {k : α → Action σ β} {t u : Traced σ} {b : β} :
    (a >>= k) t = .ok b u ↔ ∃ x m, a t = .ok x m ∧ k x m = .ok b u := by
  change EStateM.bind a k t = _ ↔ _
  unfold EStateM.bind
  cases h : a t with
  | ok x m => simp [and_assoc]
  | error f m => simp

theorem pure_eq_ok {t u : Traced σ} {x a : α} :
    (pure a : Action σ α) t = .ok x u ↔ x = a ∧ u = t := by
  simp [pure, EStateM.pure, eq_comm]

/-- An answer that is only put into another form. -/
theorem bind_pure_eq_ok {a : Action σ α} {f : α → β} {t u : Traced σ} {b : β} :
    (do let x ← a; return f x : Action σ β) t = .ok b u ↔ ∃ x, a t = .ok x u ∧ b = f x := by
  rw [bind_eq_ok]
  constructor
  · rintro ⟨x, m, ha, hb⟩
    obtain ⟨rfl, rfl⟩ := pure_eq_ok.1 hb
    exact ⟨x, ha, rfl⟩
  · rintro ⟨x, ha, rfl⟩
    exact ⟨x, u, ha, rfl⟩

theorem require_eq_ok {p : Prop} [Decidable p] {f : Fault} {t u : Traced σ} {x : Unit} :
    (require p f : Action σ Unit) t = .ok x u ↔ p ∧ u = t := by
  unfold require
  split
  · rename_i h
    change EStateM.Result.ok () t = _ ↔ _
    simp [h, eq_comm]
  · rename_i h
    simp [fail, h]

theorem ask_eq_ok {f : σ → α} {t u : Traced σ} {x : α} :
    (ask f : Action σ α) t = .ok x u ↔ x = f t.state ∧ u = t := by
  simp [ask, eq_comm]

theorem query_eq_ok {f : σ → Except Fault α} {t u : Traced σ} {x : α} :
    (query f : Action σ α) t = .ok x u ↔ f t.state = .ok x ∧ u = t := by
  unfold query
  cases f t.state <;> simp [eq_comm]

theorem update_eq_ok {f : σ → σ} {t u : Traced σ} {x : Unit} :
    (update f : Action σ Unit) t = .ok x u ↔ u = ⟨f t.state, t.events⟩ := by
  simp [update, eq_comm]

theorem updateGet_eq_ok {f : σ → α × σ} {t u : Traced σ} {x : α} :
    (updateGet f : Action σ α) t = .ok x u ↔
      x = (f t.state).1 ∧ u = ⟨(f t.state).2, t.events⟩ := by
  simp [updateGet, eq_comm]

theorem report_eq_ok {e : Event} {t u : Traced σ} {x : Unit} :
    (report e : Action σ Unit) t = .ok x u ↔ u = ⟨t.state, t.events.push e⟩ := by
  simp [report, eq_comm]

theorem focus_eq_ok {split : σ → τ × (τ → σ)} {a : Action τ α} {t u : Traced σ} {x : α} :
    focus split a t = .ok x u ↔
      ∃ m, a ⟨(split t.state).1, t.events⟩ = .ok x m ∧
        u = ⟨(split t.state).2 m.state, m.events⟩ := by
  unfold focus
  cases h : a ⟨(split t.state).1, t.events⟩ with
  | ok y m => simp [h, eq_comm, and_assoc]
  | error f m => simp [h]

end Action

end ConsHeap
