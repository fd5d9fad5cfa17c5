import NativeMcp.Lib.Program

/-!
# Programs that agree

Two programs agree when from every state they end in the same way and in the same state, and the values that they return
are related.  The rules follow the structure of the two programs.
-/

namespace NativeMcp

namespace Program

variable {σ ε α β γ δ : Type}

inductive SameEnd (R : α → β → Prop) : Ending ε α × σ → Ending ε β × σ → Prop where
  | returned {a : α} {b : β} {s : σ} (h : R a b) : SameEnd R (.returned a, s) (.returned b, s)
  | raised (e : ε) (s : σ) : SameEnd R (.raised e, s) (.raised e, s)
  | suspended (s : σ) : SameEnd R (.suspended, s) (.suspended, s)

def Agree (x : Program σ ε α) (y : Program σ ε β) (R : α → β → Prop) : Prop := ∀ s, SameEnd R (x s) (y s)

variable {x : Program σ ε α} {y : Program σ ε β} {R R' : α → β → Prop}

theorem Agree.pure {a : α} {b : β} (h : R a b) : Agree (pure a : Program σ ε α) (pure b) R := fun _ => .returned h

theorem Agree.raise (e : ε) : Agree (raise e : Program σ ε α) (raise e : Program σ ε β) R := fun s => .raised e s

theorem Agree.suspend : Agree (suspend : Program σ ε α) (suspend : Program σ ε β) R := fun s => .suspended s

theorem Agree.mono (h : Agree x y R) (hR : ∀ a b, R a b → R' a b) : Agree x y R' := by
  intro s
  have hs := h s
  generalize x s = r at hs ⊢
  generalize y s = r' at hs ⊢
  cases hs with
  | returned hab => exact .returned (hR _ _ hab)
  | raised e s => exact .raised e s
  | suspended s => exact .suspended s

theorem Agree.bind {f : α → Program σ ε γ} {g : β → Program σ ε δ} {Q : γ → δ → Prop} (h : Agree x y R)
    (hfg : ∀ a b, R a b → Agree (f a) (g b) Q) : Agree (x >>= f) (y >>= g) Q := by
  intro s
  rw [bind_apply, bind_apply]
  have hs := h s
  generalize x s = r at hs ⊢
  generalize y s = r' at hs ⊢
  cases hs with
  | returned hab => exact hfg _ _ hab _
  | raised e s => exact .raised e s
  | suspended s => exact .suspended s

theorem Agree.ite {c : Prop} [Decidable c] {x' : Program σ ε α} {y' : Program σ ε β} (h : c → Agree x y R)
    (h' : ¬c → Agree x' y' R) : Agree (if c then x else x') (if c then y else y') R := by
  by_cases hc : c
  · rw [if_pos hc, if_pos hc]
    exact h hc
  · rw [if_neg hc, if_neg hc]
    exact h' hc

/-- A program agrees with itself, on values that it can return. -/
theorem Agree.self {x : Program σ ε α} {Q : α → Prop}
    (h : Ends (fun _ => True) x (fun a _ => Q a) (fun _ _ => True) fun _ => True) :
    Agree x x fun a b => a = b ∧ Q a := by
  intro s
  have := h s trivial
  generalize x s = r at this ⊢
  obtain ⟨(a | e | _), t⟩ := r
  · exact .returned ⟨rfl, this⟩
  · exact .raised e t
  · exact .suspended t

theorem Agree.refl (x : Program σ ε α) : Agree x x Eq := by
  refine (Agree.self (Q := fun _ => True) ?_).mono fun a b h => h.1
  intro s _
  split <;> trivial

theorem Agree.bind_get {f : σ → Program σ ε γ} {g : σ → Program σ ε δ} {Q : γ → δ → Prop}
    (h : ∀ s, SameEnd Q (f s s) (g s s)) : Agree (Program.get >>= f) (Program.get >>= g) Q := h

/-- Agreement on a function of the values is an equation. -/
theorem Agree.eq_bind {f : α → β} (h : Agree x y fun a b => b = f a) : y = x >>= fun a => Pure.pure (f a) := by
  funext s
  rw [bind_apply]
  have hs := h s
  generalize x s = r at hs ⊢
  generalize y s = r' at hs ⊢
  cases hs with
  | returned hab => rw [hab]; rfl
  | raised e s => rfl
  | suspended s => rfl

end Program

end NativeMcp
