import Mathlib.Data.List.Perm.Basic
import Mathlib.Logic.Function.Basic

/-!
# Reading named values from lines

Each line gives a raw value to at most one key.  A reader goes through the lines with a slot for each key: a line whose
key has its slot filled already, or whose value does not parse, ends it without a result.  The run succeeds exactly if
every key gets at most one value and this value parses (`run_eq_some_iff`), so the order of the lines does not matter
(`run_perm`).
-/

namespace Slots

variable {ι κ β : Type} {α : κ → Type}

/-- What has been read so far. -/
abbrev State (α : κ → Type) := (k : κ) → Option (α k)

/-- What some raw values make of a slot: nothing, or one value where there was none. -/
def Settled {k : κ} (parse : β → Option (α k)) (raws : List β) (before after : Option (α k)) : Prop :=
  (raws = [] ∧ after = before) ∨ ∃ raw a, raws = [raw] ∧ before = none ∧ parse raw = some a ∧ after = some a

/-- A value that is read is the first one and the only one. -/
private theorem settled_cons_iff {k : κ} {parse : β → Option (α k)} {raw : β} {a : α k} (h : parse raw = some a)
    {raws : List β} {after : Option (α k)} :
    Settled parse raws (some a) after ↔ Settled parse (raw :: raws) none after := by
  constructor
  · rintro (⟨rfl, rfl⟩ | ⟨_, _, _, hnone, _⟩)
    · exact .inr ⟨raw, a, rfl, rfl, h, rfl⟩
    · cases hnone
  · rintro (⟨hnil, _⟩ | ⟨raw', a', hcons, _, hparse, rfl⟩)
    · cases hnil
    · obtain ⟨rfl, rfl⟩ := List.cons.inj hcons
      rw [h] at hparse
      exact .inl ⟨rfl, hparse.symm⟩

variable [DecidableEq κ]

/-- The raw values that the lines give to a key. -/
def values (classify : ι → Option (κ × β)) (k : κ) (lines : List ι) : List β :=
  lines.filterMap fun line => (classify line).bind fun q => if q.1 = k then some q.2 else none

/-- One line. -/
def step (classify : ι → Option (κ × β)) (parse : (k : κ) → β → Option (α k)) (s : State α) (line : ι) :
    Option (State α) :=
  match classify line with
  | none => some s
  | some (k, raw) => if (s k).isSome then none else (parse k raw).map fun a => Function.update s k (some a)

variable {classify : ι → Option (κ × β)} {parse : (k : κ) → β → Option (α k)}

theorem values_cons_none {line : ι} (h : classify line = none) (k : κ) (lines : List ι) :
    values classify k (line :: lines) = values classify k lines := by
  unfold values
  rw [List.filterMap_cons_none (by rw [h]; rfl)]

theorem values_cons_same {line : ι} {k : κ} {raw : β} (h : classify line = some (k, raw)) (lines : List ι) :
    values classify k (line :: lines) = raw :: values classify k lines := by
  unfold values
  rw [List.filterMap_cons_some (b := raw)]
  rw [h, Option.bind_some, if_pos rfl]

theorem values_cons_other {line : ι} {k k' : κ} {raw : β} (h : classify line = some (k, raw)) (hne : k ≠ k')
    (lines : List ι) : values classify k' (line :: lines) = values classify k' lines := by
  unfold values
  rw [List.filterMap_cons_none (by rw [h, Option.bind_some, if_neg hne])]

/-- A run succeeds exactly if every slot is settled. -/
theorem run_eq_some_iff {lines : List ι} {s s' : State α} :
    lines.foldlM (step classify parse) s = some s' ↔
      ∀ k, Settled (parse k) (values classify k lines) (s k) (s' k) := by
  induction lines generalizing s with
  | nil =>
    rw [List.foldlM_nil]
    constructor
    · intro h
      cases h
      exact fun k => .inl ⟨rfl, rfl⟩
    · intro h
      have heq : s' = s := by
        funext k
        rcases h k with ⟨-, hk⟩ | ⟨_, _, hnil, _⟩
        · exact hk
        · cases hnil
      rw [heq]
      rfl
  | cons line lines ih =>
    rw [List.foldlM_cons]
    cases hclass : classify line with
    | none =>
      have hstep : step classify parse s line = some s := by
        unfold step
        rw [hclass]
      rw [hstep]
      refine ih.trans (forall_congr' fun k => ?_)
      rw [values_cons_none hclass]
    | some q =>
      obtain ⟨k, raw⟩ := q
      have hstep : step classify parse s line =
          if (s k).isSome then none else (parse k raw).map fun a => Function.update s k (some a) := by
        unfold step
        rw [hclass]
      rw [hstep]
      -- the slot of the line decides; the others are as before
      by_cases hfull : (s k).isSome = true
      · rw [if_pos hfull]
        refine iff_of_false (fun h => by cases h) fun h => ?_
        rcases h k with ⟨hnil, -⟩ | ⟨_, _, _, hnone, -⟩
        · rw [values_cons_same hclass] at hnil
          cases hnil
        · rw [hnone] at hfull
          cases hfull
      · have hempty : s k = none := by simpa using hfull
        rw [if_neg hfull]
        cases hparse : parse k raw with
        | none =>
          refine iff_of_false (fun h => by cases h) fun h => ?_
          rcases h k with ⟨hnil, -⟩ | ⟨raw', a, hone, -, hsome, -⟩
          · rw [values_cons_same hclass] at hnil
            cases hnil
          · rw [values_cons_same hclass] at hone
            obtain ⟨rfl, -⟩ := List.cons.inj hone
            rw [hparse] at hsome
            cases hsome
        | some a =>
          have hrun : (Option.map (fun a => Function.update s k (some a)) (some a) >>= fun s =>
              lines.foldlM (step classify parse) s) =
              lines.foldlM (step classify parse) (Function.update s k (some a)) := rfl
          rw [hrun]
          refine ih.trans (forall_congr' fun k' => ?_)
          by_cases hk : k = k'
          · subst hk
            rw [Function.update_self, values_cons_same hclass, hempty]
            exact settled_cons_iff hparse
          · rw [Function.update_of_ne (Ne.symm hk), values_cons_other hclass hk]

/-- The order of the lines does not matter. -/
theorem run_perm {lines lines' : List ι} (h : lines.Perm lines') (s : State α) :
    lines.foldlM (step classify parse) s = lines'.foldlM (step classify parse) s := by
  have settled_iff : ∀ k (s' : State α), Settled (parse k) (values classify k lines) (s k) (s' k) ↔
      Settled (parse k) (values classify k lines') (s k) (s' k) := by
    intro k s'
    have hperm : (values classify k lines).Perm (values classify k lines') := h.filterMap _
    unfold Settled
    have hnil : values classify k lines = [] ↔ values classify k lines' = [] := by
      rw [← List.length_eq_zero_iff, hperm.length_eq, List.length_eq_zero_iff]
    have hone : ∀ raw, values classify k lines = [raw] ↔ values classify k lines' = [raw] := by
      intro raw
      constructor
      · intro he
        rw [he] at hperm
        exact List.perm_singleton.1 hperm.symm
      · intro he
        rw [he] at hperm
        exact List.perm_singleton.1 hperm
    simp only [hnil, hone]
  refine Option.ext fun s' => ?_
  rw [run_eq_some_iff, run_eq_some_iff]
  exact forall_congr' fun k => settled_iff k s'

/-- A reader of its own kind of state runs as the slots that it shows. -/
theorem foldlM_map {σ : Type} {f : σ → ι → Option σ} {slots : σ → State α} {I : σ → Prop}
    (hstep : ∀ s line, I s → (f s line).map slots = step classify parse (slots s) line)
    (hinv : ∀ s line s', I s → f s line = some s' → I s') {lines : List ι} {s : σ} (hs : I s) :
    (lines.foldlM f s).map slots = lines.foldlM (step classify parse) (slots s) := by
  induction lines generalizing s with
  | nil => rfl
  | cons line lines ih =>
    rw [List.foldlM_cons, List.foldlM_cons, ← hstep s line hs]
    cases hf : f s line with
    | none => rfl
    | some s' => exact ih (hinv s line s' hs hf)

/-- What each line preserves holds after a run. -/
theorem foldlM_invariant {σ : Type} {f : σ → ι → Option σ} {I : σ → Prop}
    (hinv : ∀ s line s', I s → f s line = some s' → I s') {lines : List ι} {s s' : σ} (hs : I s)
    (h : lines.foldlM f s = some s') : I s' := by
  induction lines generalizing s with
  | nil =>
    cases h
    exact hs
  | cons line lines ih =>
    rw [List.foldlM_cons] at h
    obtain ⟨middle, hline, hrest⟩ := Option.bind_eq_some_iff.1 h
    exact ih (hinv s line middle hs hline) hrest

end Slots
