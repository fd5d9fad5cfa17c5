import Mathlib.Data.List.Induction
import Mathlib.Data.List.Nodup

/-!
# Monitors of a list of events

A monitor goes through a list of events and stops at the first one that it does not allow.  What it checks of an event
is a fact about the events before it: every event of a list that it passes was allowed in the state after its own past
(`allowed_of_foldlM`).  From this follow that no two events have one key and that one event of a kind precedes another.
A list that grows at its end is `Justified` if each event is allowed by those before it.
-/

namespace Monitor

variable {α κ σ ε : Type}

/-- Exactly one of the events before is of this kind, and this holds of those before it. -/
def PrecededByOne (is : α → Prop) (before : List α) (holds : List α → Prop) : Prop :=
  ∃ earlier e later, before = earlier ++ e :: later ∧ is e ∧ (∀ e' ∈ earlier ++ later, ¬ is e') ∧ holds earlier

theorem PrecededByOne.mono {is : α → Prop} {before : List α} {holds holds' : List α → Prop}
    (h : PrecededByOne is before holds) (himp : ∀ earlier e later, before = earlier ++ e :: later → is e →
      holds earlier → holds' earlier) : PrecededByOne is before holds' := by
  obtain ⟨earlier, e, later, hsplit, he, honly, hholds⟩ := h
  exact ⟨earlier, e, later, hsplit, he, honly, himp earlier e later hsplit he hholds⟩

/-- An event is allowed in the state after its past. -/
theorem allowed_of_foldlM {step : σ → α → Except ε σ} {s r : σ} {before after : List α} {e : α}
    (h : (before ++ e :: after).foldlM step s = .ok r) :
    ∃ s' s'', before.foldlM step s = .ok s' ∧ step s' e = .ok s'' := by
  rw [List.foldlM_append] at h
  cases hbefore : before.foldlM step s with
  | error raised =>
    rw [hbefore] at h
    cases h
  | ok s' =>
    rw [hbefore] at h
    have hrest : (e :: after).foldlM step s' = .ok r := h
    rw [List.foldlM_cons] at hrest
    cases hstep : step s' e with
    | error raised =>
      rw [hstep] at hrest
      cases hrest
    | ok s'' => exact ⟨s', s'', rfl, hstep⟩

/-- Keys are used once if each is new when it is used. -/
theorem nodup_of_fresh {key : α → Option κ} {events : List α}
    (h : ∀ before e after k, events = before ++ e :: after → key e = some k → k ∉ before.filterMap key) :
    (events.filterMap key).Nodup := by
  induction events using List.reverseRecOn with
  | nil => exact List.nodup_nil
  | append_singleton events e ih =>
    have hbefore : (events.filterMap key).Nodup := by
      refine ih fun before e' after k hsplit hkey => ?_
      refine h before e' (after ++ [e]) k ?_ hkey
      rw [hsplit, List.append_assoc]
      rfl
    rw [List.filterMap_append]
    cases hkey : key e with
    | none =>
      rw [List.filterMap_cons_none hkey, List.filterMap_nil, List.append_nil]
      exact hbefore
    | some k =>
      have hfresh := h events e [] k rfl hkey
      rw [List.filterMap_cons_some hkey, List.filterMap_nil, List.nodup_append]
      refine ⟨hbefore, List.nodup_singleton k, ?_⟩
      intro k' hk' k'' hk'' heq
      obtain rfl := List.mem_singleton.1 hk''
      exact hfresh (heq ▸ hk')

/-- A key that was used once was used by one event. -/
theorem precededByOne_of_mem {key : α → Option κ} {before : List α} {k : κ} (hmem : k ∈ before.filterMap key)
    (hnodup : (before.filterMap key).Nodup) : PrecededByOne (key · = some k) before fun _ => True := by
  obtain ⟨e, he, hkey⟩ := List.mem_filterMap.1 hmem
  obtain ⟨earlier, later, rfl⟩ := List.append_of_mem he
  rw [List.filterMap_append, List.filterMap_cons_some hkey] at hnodup
  have hapart := List.nodup_middle.1 hnodup
  rw [List.nodup_cons] at hapart
  refine ⟨earlier, e, later, rfl, hkey, ?_, trivial⟩
  intro e' he' hkey'
  apply hapart.1
  rw [← List.filterMap_append]
  exact List.mem_filterMap.2 ⟨e', he', hkey'⟩

/-! ### Lists that grow -/

/-- Every event satisfies `P` of the events before it. -/
def Justified (P : List α → α → Prop) (events : List α) : Prop :=
  ∀ before e after, events = before ++ e :: after → P before e

variable {P : List α → α → Prop} {events : List α}

theorem Justified.nil : Justified P [] := by
  intro before e after h
  cases before <;> cases h

theorem Justified.concat (h : Justified P events) {e : α} (he : P events e) : Justified P (events ++ [e]) := by
  intro before e' after hsplit
  rcases List.eq_nil_or_concat after with rfl | ⟨after, last, rfl⟩
  · obtain ⟨rfl, heq⟩ := List.append_inj' hsplit rfl
    cases heq
    exact he
  · rw [List.concat_eq_append, ← List.cons_append, ← List.append_assoc] at hsplit
    exact h before e' after (List.append_inj' hsplit rfl).1

end Monitor
