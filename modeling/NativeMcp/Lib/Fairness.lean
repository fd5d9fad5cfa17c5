import NativeMcp.Lib.TransitionSystem

/-!
# Fair runs

Infinite runs of a machine, weak fairness of a set of actions, and the rules for `LeadsTo`: an action that stays enabled
and always helps (`LeadsTo.of_fair`), a phase that ends by assumption (`LeadsTo.of_escape`), a progress property used
under a condition that persists (`LeadsTo.within`), and induction on a rank (`LeadsTo.of_rank`).
-/

namespace Machine

variable {σ α : Type*} {M : Machine σ α}

/-- An infinite run of a machine. -/
structure Run (M : Machine σ α) where
  state : Nat → σ
  action : Nat → α
  init : M.init (state 0)
  step : ∀ n, M.step (state n) (action n) = some (state (n + 1))

namespace Run

variable (r : M.Run)

theorem reachable (n : Nat) : M.system.Reachable (r.state n) := by
  induction n with
  | zero => exact .init r.init
  | succ n ih => exact ih.step ⟨_, r.step n⟩

/-- Weak fairness: if actions of `A` are enabled from some point on, one of them is taken. -/
def Fair (A : α → Prop) : Prop :=
  ∀ n, (∀ m, n ≤ m → ∃ a, A a ∧ (M.step (r.state m) a).isSome = true) → ∃ m, n ≤ m ∧ A (r.action m)

def LeadsTo (P Q : σ → Prop) : Prop := ∀ n, P (r.state n) → ∃ m, n ≤ m ∧ Q (r.state m)

/-- `P` holds until `Q` does. -/
def Unless (P Q : σ → Prop) : Prop := ∀ n, P (r.state n) → P (r.state (n + 1)) ∨ Q (r.state (n + 1))

variable {r} {P Q R S : σ → Prop}

theorem LeadsTo.trans (h₁ : r.LeadsTo P Q) (h₂ : r.LeadsTo Q R) : r.LeadsTo P R := by
  intro n hn
  obtain ⟨m, hm, hq⟩ := h₁ n hn
  obtain ⟨k, hk, hr⟩ := h₂ m hq
  exact ⟨k, Nat.le_trans hm hk, hr⟩

theorem LeadsTo.of_imp (h : ∀ n, P (r.state n) → Q (r.state n)) : r.LeadsTo P Q :=
  fun n hn => ⟨n, Nat.le_refl n, h n hn⟩

theorem LeadsTo.or (h₁ : r.LeadsTo P R) (h₂ : r.LeadsTo Q R) : r.LeadsTo (fun s => P s ∨ Q s) R :=
  fun n hn => hn.elim (h₁ n) (h₂ n)

/-- Until some later state is reached, either `P` still holds there or `Q` has come about. -/
theorem Unless.until (hu : r.Unless P Q) {n m : Nat} (hn : P (r.state n)) (hm : n ≤ m) :
    P (r.state m) ∨ ∃ k, n ≤ k ∧ Q (r.state k) := by
  induction hm with
  | refl => exact .inl hn
  | @step m hm ih =>
    rcases ih with hp | hq
    · rcases hu m hp with hp | hq
      · exact .inl hp
      · exact .inr ⟨m + 1, Nat.le_succ_of_le hm, hq⟩
    · exact .inr hq

theorem LeadsTo.of_escape (hu : r.Unless P Q) (he : ∀ n, P (r.state n) → ∃ m, n ≤ m ∧ ¬ P (r.state m)) :
    r.LeadsTo P Q := by
  intro n hn
  obtain ⟨m, hm, hp⟩ := he n hn
  exact (hu.until hn hm).resolve_left hp

theorem LeadsTo.of_fair {A : α → Prop} (hf : r.Fair A) (hu : r.Unless P Q)
    (he : ∀ n, P (r.state n) → ∃ a, A a ∧ (M.step (r.state n) a).isSome = true)
    (hA : ∀ n, P (r.state n) → A (r.action n) → Q (r.state (n + 1))) : r.LeadsTo P Q := by
  intro n hn
  by_contra hq
  have stays (m : Nat) (hm : n ≤ m) : P (r.state m) := (hu.until hn hm).resolve_right hq
  obtain ⟨m, hm, ha⟩ := hf n fun m hm => he m (stays m hm)
  exact hq ⟨m + 1, Nat.le_succ_of_le hm, hA m (stays m hm) ha⟩

/-- Progress under a condition that lasts until `Q`. -/
theorem LeadsTo.within (h : r.LeadsTo R S) (hu : r.Unless P Q) :
    r.LeadsTo (fun s => P s ∧ R s) (fun s => Q s ∨ P s ∧ S s) := by
  rintro n ⟨hp, hr⟩
  obtain ⟨m, hm, hs⟩ := h n hr
  rcases hu.until hp hm with hp | ⟨k, hk, hq⟩
  · exact ⟨m, hm, .inr ⟨hp, hs⟩⟩
  · exact ⟨k, hk, .inl hq⟩

theorem LeadsTo.of_rank (f : σ → Nat)
    (h : ∀ k, r.LeadsTo (fun s => P s ∧ f s = k) (fun s => Q s ∨ P s ∧ f s < k)) : r.LeadsTo P Q := by
  have below (k : Nat) : r.LeadsTo (fun s => P s ∧ f s < k) Q := by
    induction k with
    | zero => exact fun n hn => absurd hn.2 (Nat.not_lt_zero _)
    | succ k ih =>
      rintro n ⟨hp, hk⟩
      rcases Nat.lt_succ_iff_lt_or_eq.1 hk with hk | hk
      · exact ih n ⟨hp, hk⟩
      · exact (h k).trans (.or (.of_imp fun _ h => h) ih) n ⟨hp, hk⟩
  exact fun n hn => below (f (r.state n) + 1) n ⟨hn, Nat.lt_succ_self _⟩

end Run

end Machine
