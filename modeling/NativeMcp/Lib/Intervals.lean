import Mathlib.Data.Nat.Init
import Mathlib.Order.Basic

/-!
# Spans of a list

Spans are half-open intervals of positions.  `Apart low spans` are spans in increasing order from `low` on, no two of
them touching.  `collapse covered mark` replaces each maximal run of covered positions of a list by one mark and keeps
the other elements, each with the position that it comes from.
-/

namespace Intervals

/-- The position lies in one of the spans. -/
def Inside (spans : List (Nat × Nat)) (i : Nat) : Prop := ∃ p ∈ spans, p.1 ≤ i ∧ i < p.2

instance (spans : List (Nat × Nat)) : DecidablePred (Inside spans) := fun i =>
  inferInstanceAs (Decidable (∃ p ∈ spans, p.1 ≤ i ∧ i < p.2))

theorem inside_cons {p : Nat × Nat} {spans : List (Nat × Nat)} {i : Nat} :
    Inside (p :: spans) i ↔ (p.1 ≤ i ∧ i < p.2) ∨ Inside spans i := by
  simp only [Inside, List.mem_cons, exists_eq_or_imp]

theorem not_inside_nil {i : Nat} : ¬Inside [] i := by
  intro h
  obtain ⟨p, hp, -⟩ := h
  cases hp

/-- The spans are in increasing order from `low` on, none of them empty, and no two of them touch. -/
def Apart : Nat → List (Nat × Nat) → Prop
  | _, [] => True
  | low, p :: spans => low ≤ p.1 ∧ p.1 < p.2 ∧ Apart (p.2 + 1) spans

theorem Apart.mono {low low' : Nat} {spans : List (Nat × Nat)} (h : Apart low spans) (hle : low' ≤ low) :
    Apart low' spans := by
  cases spans with
  | nil => trivial
  | cons p spans => exact ⟨Nat.le_trans hle h.1, h.2⟩

theorem Apart.le_of_inside {low i : Nat} {spans : List (Nat × Nat)} (h : Apart low spans) (hi : Inside spans i) :
    low ≤ i := by
  induction spans generalizing low with
  | nil => exact absurd hi not_inside_nil
  | cons p spans ih =>
    obtain ⟨hlow, hlt, hrest⟩ := h
    rcases inside_cons.1 hi with hfirst | hi
    · omega
    · have := ih hrest hi
      omega

/-! ### Runs -/

section

variable {α : Type*} (covered : Nat → Prop) [DecidablePred covered] (mark : List α)

/-- One mark for each maximal run of covered positions; `i` is the position of the first element, and `inside` says
whether the position before it is covered. -/
def collapse : Nat → Bool → List α → List (α × Option Nat)
  | _, _, [] => []
  | i, inside, a :: l =>
    if covered i then (if inside then [] else mark.map fun m => (m, none)) ++ collapse (i + 1) true l
    else (a, some i) :: collapse (i + 1) false l

variable {covered mark}

theorem collapse_congr {covered' : Nat → Prop} [DecidablePred covered'] {i : Nat} {l : List α} {inside : Bool}
    (h : ∀ j, i ≤ j → (covered j ↔ covered' j)) : collapse covered mark i inside l = collapse covered' mark i inside l := by
  induction l generalizing i inside with
  | nil => rfl
  | cons a l ih =>
    have hrest : ∀ inside, collapse covered mark (i + 1) inside l = collapse covered' mark (i + 1) inside l :=
      fun inside => ih fun j hj => h j (by omega)
    have hfirst := h i (Nat.le_refl i)
    unfold collapse
    by_cases hi : covered i
    · rw [if_pos hi, if_pos (hfirst.1 hi), hrest]
    · rw [if_neg hi, if_neg fun hi' => hi (hfirst.2 hi'), hrest]

theorem collapse_of_not_covered {i : Nat} (h : ¬covered i) (l : List α) :
    collapse covered mark i true l = collapse covered mark i false l := by
  cases l with
  | nil => rfl
  | cons a l =>
    unfold collapse
    rw [if_neg h, if_neg h]

/-- A stretch without covered positions is kept. -/
theorem collapse_kept {i n : Nat} {l : List α} (hn : n ≤ l.length) (h : ∀ j, i ≤ j → j < i + n → ¬covered j) :
    (collapse covered mark i false l).map Prod.fst =
      l.take n ++ (collapse covered mark (i + n) false (l.drop n)).map Prod.fst := by
  induction n generalizing i l with
  | zero => rfl
  | succ n ih =>
    cases l with
    | nil => exact absurd hn (Nat.not_succ_le_zero n)
    | cons a l =>
      have hrest := @ih (i + 1) l (Nat.le_of_succ_le_succ hn) fun j hj hlt => h j (by omega) (by omega)
      rw [collapse, if_neg (h i (Nat.le_refl i) (by omega)), List.map_cons, hrest, List.take_succ_cons,
        List.drop_succ_cons, List.cons_append, show i + 1 + n = i + (n + 1) by omega]

/-- A stretch of covered positions leaves nothing behind the mark. -/
theorem collapse_hidden {i n : Nat} {l : List α} (hn : n ≤ l.length) (h : ∀ j, i ≤ j → j < i + n → covered j) :
    collapse covered mark i true l = collapse covered mark (i + n) true (l.drop n) := by
  induction n generalizing i l with
  | zero => rfl
  | succ n ih =>
    cases l with
    | nil => exact absurd hn (Nat.not_succ_le_zero n)
    | cons a l =>
      have hrest := @ih (i + 1) l (Nat.le_of_succ_le_succ hn) fun j hj hlt => h j (by omega) (by omega)
      rw [collapse, if_pos (h i (Nat.le_refl i) (by omega)), if_pos rfl, List.nil_append, hrest, List.drop_succ_cons,
        show i + 1 + n = i + (n + 1) by omega]

/-- A run begins with its mark. -/
theorem collapse_enter {i : Nat} {l : List α} (hl : l ≠ []) (h : covered i) :
    collapse covered mark i false l = mark.map (fun m => (m, none)) ++ collapse covered mark i true l := by
  cases l with
  | nil => exact absurd rfl hl
  | cons a l =>
    rw [collapse, if_pos h, collapse, if_pos h, if_pos rfl, List.nil_append]
    rfl

theorem mem_of_mem_collapse {i : Nat} {inside : Bool} {l : List α} {a : α}
    (h : a ∈ (collapse covered mark i inside l).map Prod.fst) : a ∈ mark ∨ a ∈ l := by
  induction l generalizing i inside with
  | nil => cases h
  | cons b l ih =>
    unfold collapse at h
    by_cases hi : covered i
    · rw [if_pos hi, List.map_append, List.mem_append] at h
      rcases h with h | h
      · cases inside with
        | true => cases h
        | false =>
          left
          rwa [if_neg Bool.false_ne_true, List.map_map, show Prod.fst ∘ (fun m => (m, (none : Option Nat))) = @id α from rfl,
            List.map_id] at h
      · exact (ih h).imp_right (List.mem_cons_of_mem b)
    · rw [if_neg hi, List.map_cons, List.mem_cons] at h
      rcases h with h | h
      · right
        rw [h]
        exact List.mem_cons_self
      · exact (ih h).imp_right (List.mem_cons_of_mem b)

/-- What is kept comes from a position that is not covered. -/
theorem mem_collapse {i j : Nat} {inside : Bool} {l : List α} {a : α} :
    (a, some j) ∈ collapse covered mark i inside l ↔ ¬covered j ∧ ∃ k, j = i + k ∧ l[k]? = some a := by
  induction l generalizing i inside with
  | nil =>
    constructor
    · intro h
      cases h
    · intro h
      obtain ⟨-, k, -, hk⟩ := h
      cases hk
  | cons b l ih =>
    have hmark : (a, some j) ∉ (if inside then [] else mark.map fun m => (m, (none : Option Nat))) := by
      cases inside with
      | true => exact List.not_mem_nil
      | false =>
        intro h
        obtain ⟨m, -, hm⟩ := List.mem_map.1 h
        cases hm
    -- the positions behind the first one
    have hstep : (∃ k, j = i + k ∧ (b :: l)[k]? = some a) ↔ (j = i ∧ b = a) ∨ ∃ k, j = i + 1 + k ∧ l[k]? = some a := by
      constructor
      · intro h
        obtain ⟨k, hj, hk⟩ := h
        cases k with
        | zero => exact .inl ⟨hj, Option.some.inj hk⟩
        | succ k => exact .inr ⟨k, by omega, hk⟩
      · intro h
        rcases h with ⟨hj, hb⟩ | ⟨k, hj, hk⟩
        · exact ⟨0, hj, congrArg some hb⟩
        · exact ⟨k + 1, by omega, hk⟩
    unfold collapse
    by_cases hi : covered i
    · rw [if_pos hi, List.mem_append, ih, hstep]
      constructor
      · intro h
        rcases h with h | h
        · exact absurd h hmark
        · exact ⟨h.1, .inr h.2⟩
      · intro h
        obtain ⟨hnot, h⟩ := h
        rcases h with ⟨hj, -⟩ | h
        · rw [hj] at hnot
          exact absurd hi hnot
        · exact .inr ⟨hnot, h⟩
    · rw [if_neg hi, List.mem_cons, ih, hstep]
      constructor
      · intro h
        rcases h with h | h
        · obtain ⟨ha, hj⟩ := Prod.mk.inj h
          have hj := Option.some.inj hj
          rw [hj]
          exact ⟨hi, .inl ⟨rfl, ha.symm⟩⟩
        · exact ⟨h.1, .inr h.2⟩
      · intro h
        obtain ⟨hnot, h⟩ := h
        rcases h with ⟨hj, hb⟩ | h
        · left
          rw [hj, hb]
        · exact .inr ⟨hnot, h⟩

end

end Intervals
