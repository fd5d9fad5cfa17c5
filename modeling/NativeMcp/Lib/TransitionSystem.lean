import Mathlib.Logic.Relation
import Mathlib.Data.List.Basic

/-!
# Transition systems

A system is a set of initial states and a step relation.  Invariants are proved by `Reachable.invariant`, and a
`Projection` carries the runs of one system to runs of another, steps that the other does not see included.

A `Machine` is a system given by a partial step function of a label: `step s a` is the state after the action `a`, or
`none` where `a` is not enabled in `s`.  A concrete run is a list of actions evaluated by `Machine.run`.
-/

/-- A transition system with states `σ`. -/
structure TransitionSystem (σ : Type*) where
  init : σ → Prop
  next : σ → σ → Prop

namespace TransitionSystem

variable {σ τ : Type*}

/-- The states that some run from an initial state ends in. -/
inductive Reachable (T : TransitionSystem σ) : σ → Prop where
  | init {s : σ} (h : T.init s) : Reachable T s
  | step {s s' : σ} (hs : Reachable T s) (h : T.next s s') : Reachable T s'

/-- `T.Later s s'`: some run leads from `s` to `s'`. -/
def Later (T : TransitionSystem σ) : σ → σ → Prop := Relation.ReflTransGen T.next

/-- The invariant rule. -/
theorem Reachable.invariant {T : TransitionSystem σ} {I : σ → Prop} (h₀ : ∀ s, T.init s → I s)
    (h₁ : ∀ s s', Reachable T s → I s → T.next s s' → I s') {s : σ} (hs : Reachable T s) : I s := by
  induction hs with
  | init h => exact h₀ _ h
  | step hs h ih => exact h₁ _ _ hs ih h

theorem Later.reachable {T : TransitionSystem σ} {s s' : σ} (h : T.Later s s') (hs : Reachable T s) :
    Reachable T s' := by
  induction h with
  | refl => exact hs
  | tail _ h ih => exact ih.step h

/-- A property that every step from a reachable state keeps is kept by every run. -/
theorem Later.preserves {T : TransitionSystem σ} {P : σ → Prop} {s s' : σ} (h : T.Later s s')
    (hs : Reachable T s) (hP : P s) (h₁ : ∀ t t', Reachable T t → P t → T.next t t' → P t') : P s' := by
  induction h with
  | refl => exact hP
  | tail h h' ih => exact h₁ _ _ (Later.reachable h hs) ih h'

/-- `f` maps the initial states of `T` to initial states of `U`, and its steps to steps of `U` or to no step.  The
step may use what is known of the reachable states of both systems. -/
structure Projection (T : TransitionSystem σ) (U : TransitionSystem τ) (f : σ → τ) : Prop where
  init : ∀ s, T.init s → U.init (f s)
  step : ∀ s s', Reachable T s → Reachable U (f s) → T.next s s' → f s' = f s ∨ U.next (f s) (f s')

theorem Projection.reachable {T : TransitionSystem σ} {U : TransitionSystem τ} {f : σ → τ}
    (hf : Projection T U f) {s : σ} (hs : Reachable T s) : Reachable U (f s) := by
  induction hs with
  | init h => exact .init (hf.init _ h)
  | step hs h ih =>
    rcases hf.step _ _ hs ih h with e | h
    · rw [e]; exact ih
    · exact ih.step h

end TransitionSystem

/-- A transition system with a partial step function of labelled actions. -/
structure Machine (σ α : Type*) where
  init : σ → Prop
  step : σ → α → Option σ

namespace Machine

variable {σ α : Type*}

def system (M : Machine σ α) : TransitionSystem σ where
  init := M.init
  next s s' := ∃ a, M.step s a = some s'

/-- The runs all of whose steps meet a condition on the state before the step and the action. -/
def restrict (M : Machine σ α) (P : σ → α → Prop) : TransitionSystem σ where
  init := M.init
  next s s' := ∃ a, P s a ∧ M.step s a = some s'

/-- The state after a list of actions, or `none` if one of them is not enabled. -/
def run (M : Machine σ α) (s : σ) (as : List α) : Option σ := as.foldlM M.step s

theorem run_cons (M : Machine σ α) (s : σ) (a : α) (as : List α) :
    M.run s (a :: as) = (M.step s a).bind fun s' => M.run s' as := rfl

/-- An evaluated run is a run of the system. -/
theorem later_of_run {M : Machine σ α} {as : List α} {s s' : σ} (h : M.run s as = some s') :
    M.system.Later s s' := by
  induction as generalizing s with
  | nil => cases h; exact .refl
  | cons a as ih =>
    rw [run_cons, Option.bind_eq_some_iff] at h
    obtain ⟨t, ht, h⟩ := h
    exact .head ⟨a, ht⟩ (ih h)

/-- The final state of an evaluated run is reachable. -/
theorem reachable_of_run {M : Machine σ α} {as : List α} {s s' : σ} (hs : M.system.Reachable s)
    (h : M.run s as = some s') : M.system.Reachable s' := (later_of_run h).reachable hs

end Machine
