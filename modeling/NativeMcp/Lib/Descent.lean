import Mathlib.Order.Basic

/-!
# Walks in a graph that changes

A walk follows one label after the other, each along an edge that is there at the moment of that step; between two
steps the graph may change.  `Descends edge s n ls t m` says that a walk which began at the moment `s` in `n` has ended
at the moment `t` in `m`.  Nothing is said of a moment at which the whole walk would be there.
-/

namespace Descent

variable {T N L : Type*} [Preorder T]

inductive Descends (edge : T → N → L → N → Prop) : T → N → List L → T → N → Prop where
  | nil {s t : T} {n : N} (h : s ≤ t) : Descends edge s n [] t n
  | cons {s u t : T} {n m k : N} {l : L} {ls : List L} (hs : s ≤ u) (he : edge u n l m)
      (h : Descends edge u m ls t k) : Descends edge s n (l :: ls) t k

namespace Descends

variable {edge : T → N → L → N → Prop} {r s t u : T} {n m k : N} {l : L} {ls ms : List L}

theorem le (h : Descends edge s n ls t m) : s ≤ t := by
  induction h with
  | nil h => exact h
  | cons hs _ _ ih => exact hs.trans ih

theorem fromEarlier (h : Descends edge s n ls t m) (hr : r ≤ s) : Descends edge r n ls t m := by
  cases h with
  | nil hs => exact .nil (hr.trans hs)
  | cons hs he h => exact .cons (hr.trans hs) he h

/-- A walk that goes on where and when another has ended. -/
theorem append (h : Descends edge s n ls t m) (h' : Descends edge t m ms u k) :
    Descends edge s n (ls ++ ms) u k := by
  induction h with
  | nil hs => exact h'.fromEarlier hs
  | cons hs he _ ih => exact .cons hs he (ih h')

theorem toLater (h : Descends edge s n ls t m) (hu : t ≤ u) : Descends edge s n ls u m := by
  have hrest : Descends edge t m [] u m := .nil hu
  rw [← List.append_nil ls]
  exact h.append hrest

end Descends

end Descent
