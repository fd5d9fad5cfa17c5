import Mathlib.Init

/-!
# Programs with state, exceptions and waiting

A program over a state `σ` returns a value, raises an exception, or waits for something that has not happened yet
(`suspended`); the state it has reached is kept in all three cases.  `Ends P x Q E S` says what holds when a program
started in `P` does each of the three; the rules follow the structure of the program.
-/

namespace NativeMcp

/-- How a program ends. -/
inductive Ending (ε α : Type) where
  | returned (a : α)
  | raised (e : ε)
  | suspended
  deriving DecidableEq, Repr

def Ending.isReturned {ε α : Type} : Ending ε α → Bool
  | .returned _ => true
  | _ => false

/-- The ending of a computation without effects. -/
def Ending.ofExcept {ε α : Type} : Except ε α → Ending ε α
  | .ok a => .returned a
  | .error e => .raised e

def Program (σ ε α : Type) : Type := σ → Ending ε α × σ

namespace Program

variable {σ τ ε α β : Type}

instance : Monad (Program σ ε) where
  pure a := fun s => (.returned a, s)
  bind x f := fun s =>
    match x s with
    | (.returned a, t) => f a t
    | (.raised e, t) => (.raised e, t)
    | (.suspended, t) => (.suspended, t)

def raise (e : ε) : Program σ ε α := fun s => (.raised e, s)

def suspend : Program σ ε α := fun s => (.suspended, s)

def get : Program σ ε σ := fun s => (.returned s, s)

def modify (f : σ → σ) : Program σ ε Unit := fun s => (.returned (), f s)

/-- The value of a computation without effects. -/
def lift (x : Except ε α) : Program σ ε α :=
  match x with
  | .ok a => pure a
  | .error e => raise e

/-- `try … except` -/
def handle (x : Program σ ε α) (f : ε → Program σ ε α) : Program σ ε α := fun s =>
  match x s with
  | (.raised e, t) => f e t
  | r => r

/-- A program over a part of the state. -/
def zoom (part : σ → τ) (set : τ → σ → σ) (x : Program τ ε α) : Program σ ε α := fun s =>
  ((x (part s)).1, set (x (part s)).2 s)

@[simp] theorem pure_apply (a : α) (s : σ) : (pure a : Program σ ε α) s = (.returned a, s) := rfl

@[simp] theorem bind_apply (x : Program σ ε α) (f : α → Program σ ε β) (s : σ) :
    (x >>= f) s = match x s with
      | (.returned a, t) => f a t
      | (.raised e, t) => (.raised e, t)
      | (.suspended, t) => (.suspended, t) := rfl

/-- What a program has returned, its first part has passed on. -/
theorem exists_of_bind {x : Program σ ε α} {f : α → Program σ ε β} {s t : σ} {b : β}
    (h : (x >>= f) s = (.returned b, t)) : ∃ a s', x s = (.returned a, s') ∧ f a s' = (.returned b, t) := by
  rw [bind_apply] at h
  generalize x s = r at h
  obtain ⟨a | e | _, s'⟩ := r
  · exact ⟨a, s', rfl, h⟩
  · cases h
  · cases h

@[simp] theorem raise_apply (e : ε) (s : σ) : (raise e : Program σ ε α) s = (.raised e, s) := rfl

@[simp] theorem suspend_apply (s : σ) : (suspend : Program σ ε α) s = (.suspended, s) := rfl

@[simp] theorem get_apply (s : σ) : (get : Program σ ε σ) s = (.returned s, s) := rfl

@[simp] theorem modify_apply (f : σ → σ) (s : σ) : (modify f : Program σ ε Unit) s = (.returned (), f s) := rfl

theorem zoom_apply (part : σ → τ) (set : τ → σ → σ) (x : Program τ ε α) (s : σ) :
    zoom part set x s = ((x (part s)).1, set (x (part s)).2 s) := rfl

@[simp] theorem lift_ok (a : α) : (lift (.ok a) : Program σ ε α) = pure a := rfl

@[simp] theorem lift_error (e : ε) : (lift (.error e) : Program σ ε α) = raise e := rfl

theorem ok_of_lift {v : Except ε α} {s t : σ} {a : α} (h : (lift v : Program σ ε α) s = (.returned a, t)) :
    v = .ok a := by
  cases v with
  | ok b =>
    cases h
    rfl
  | error e => cases h

theorem state_of_lift {v : Except ε α} {s t : σ} {a : α} (h : (lift v : Program σ ε α) s = (.returned a, t)) :
    t = s := by
  cases v with
  | ok b =>
    cases h
    rfl
  | error e => cases h

/-- The value, or the exception as a value. -/
def attempt (x : Program σ ε α) : Program σ ε (Except ε α) :=
  handle (x >>= fun a => pure (.ok a)) fun e => pure (.error e)

theorem exists_returned {x : Program σ ε α} {s : σ} (h : (x s).1.isReturned = true) :
    ∃ a t, x s = (.returned a, t) := by
  generalize x s = r at h
  obtain ⟨(a | e | _), t⟩ := r
  · exact ⟨a, t, rfl⟩
  · cases h
  · cases h

/-! ### What a program does

`Q` is what holds when the program returns, `E` when it raises an exception, `S` while it waits. -/

def Ends (P : σ → Prop) (x : Program σ ε α) (Q : α → σ → Prop) (E : ε → σ → Prop) (S : σ → Prop) : Prop :=
  ∀ s, P s →
    match x s with
    | (.returned a, t) => Q a t
    | (.raised e, t) => E e t
    | (.suspended, t) => S t

variable {P P' : σ → Prop} {x : Program σ ε α} {Q Q' : α → σ → Prop} {E E' : ε → σ → Prop} {S S' : σ → Prop}

theorem Ends.returned (h : Ends P x Q E S) {s t : σ} {a : α} (hs : P s) (hx : x s = (.returned a, t)) : Q a t := by
  have := h s hs
  rwa [hx] at this

theorem Ends.raised (h : Ends P x Q E S) {s t : σ} {e : ε} (hs : P s) (hx : x s = (.raised e, t)) : E e t := by
  have := h s hs
  rwa [hx] at this

theorem Ends.suspended (h : Ends P x Q E S) {s t : σ} (hs : P s) (hx : x s = (.suspended, t)) : S t := by
  have := h s hs
  rwa [hx] at this

theorem Ends.mono (h : Ends P x Q E S) (hP : ∀ s, P' s → P s) (hQ : ∀ a s, Q a s → Q' a s)
    (hE : ∀ e s, E e s → E' e s) (hS : ∀ s, S s → S' s) : Ends P' x Q' E' S' := by
  intro s hs
  have := h s (hP s hs)
  split at this
  · exact hQ _ _ this
  · exact hE _ _ this
  · exact hS _ this

theorem Ends.pre (h : Ends P x Q E S) (hP : ∀ s, P' s → P s) : Ends P' x Q E S := fun s hs => h s (hP s hs)

theorem Ends.anyError (h : Ends P x Q E S) : Ends P x Q (fun _ _ => True) S :=
  h.mono (fun _ => id) (fun _ _ => id) (fun _ _ _ => trivial) fun _ => id

theorem Ends.pure {a : α} (h : ∀ s, P s → Q a s) : Ends P (pure a : Program σ ε α) Q E S := fun s hs => h s hs

theorem Ends.raise {e : ε} (h : ∀ s, P s → E e s) : Ends P (raise e : Program σ ε α) Q E S := fun s hs => h s hs

theorem Ends.bind {f : α → Program σ ε β} {R : β → σ → Prop} (hx : Ends P x Q E S)
    (hf : ∀ a, Ends (Q a) (f a) R E S) : Ends P (x >>= f) R E S := by
  intro s hs
  have := hx s hs
  rw [bind_apply]
  generalize x s = r at this
  obtain ⟨(a | e | _), t⟩ := r
  · exact hf a t this
  · exact this
  · exact this

/-- A bound that is a computation without effects: its value is known from here on. -/
theorem Ends.bind_lift {v : Except ε α} {f : α → Program σ ε β} {R : β → σ → Prop}
    (hok : ∀ a, v = .ok a → Ends P (f a) R E S) (herr : ∀ e, v = .error e → ∀ s, P s → E e s) :
    Ends P (Program.lift v >>= f) R E S := by
  intro s hs
  cases v with
  | ok a => exact hok a rfl s hs
  | error e => exact herr e rfl s hs

theorem Ends.bind_modify (K : σ → Prop) {g : σ → σ} {f : Unit → Program σ ε β} {R : β → σ → Prop}
    (hf : Ends K (f ()) R E S) (hg : ∀ s, P s → K (g s)) : Ends P (Program.modify g >>= f) R E S :=
  fun s hs => hf (g s) (hg s hs)

theorem Ends.of_exists {ι : Type} {P : ι → σ → Prop} (h : ∀ i, Ends (P i) x Q E S) :
    Ends (fun s => ∃ i, P i s) x Q E S := fun s ⟨i, hs⟩ => h i s hs

theorem Ends.of_and {p : Prop} (h : p → Ends P x Q E S) : Ends (fun s => p ∧ P s) x Q E S :=
  fun s hs => h hs.1 s hs.2

theorem Ends.or (h : Ends P x Q E S) (h' : Ends P' x Q E S) : Ends (fun s => P s ∨ P' s) x Q E S :=
  fun s hs => hs.elim (h s) (h' s)

theorem Ends.lift {v : Except ε α} (hok : ∀ a, v = .ok a → ∀ s, P s → Q a s)
    (herr : ∀ e, v = .error e → ∀ s, P s → E e s) : Ends P (lift v) Q E S := by
  cases v with
  | ok a => exact .pure (hok a rfl)
  | error e => exact .raise (herr e rfl)

theorem Ends.attempt {R : Except ε α → σ → Prop} (hx : Ends P x Q E' S) (hok : ∀ a s, Q a s → R (.ok a) s)
    (herr : ∀ e s, E' e s → R (.error e) s) : Ends P (attempt x) R E S := by
  intro s hs
  have := hx s hs
  unfold Program.attempt Program.handle
  rw [bind_apply]
  generalize x s = r at this
  obtain ⟨(a | e | _), t⟩ := r
  · exact hok a t this
  · exact herr e t this
  · exact this

end Program

end NativeMcp
