import Mathlib.Data.List.Perm.Subperm
import NativeMcp.Scheduler.Guarantees

/-!
# Admission and unanswered calls

A call leaves the table of calls in flight in the locked section of `finish`, before its completion callback writes
the response.  Until then its identifier cannot be used again and it counts against the limit of unfinished calls;
from then on a worker delivers it (`rejected_while_unfinished`), while a second call with the same identifier may be
admitted (`readmitted_unanswered`).
-/

namespace NativeMcp.Scheduler

/-- An accepted call that was not cancelled and whose completion callback has not returned. -/
structure Unanswered (s : State) (h : Handle) : Prop where
  accepted : .submitReturned h .accepted ∈ s.history
  uncancelled : (s.control h).cancelledByClient = false
  unwritten : .completionReturned h ∉ s.history

/-- A worker is about to invoke the completion callback of the call, or is in it. -/
def Delivering (s : State) (h : Handle) : Prop :=
  ∃ w < s.budget.workerThreads, s.worker w = .running h ∧
    ∃ result, s.pc h = .notifying true result ∨ s.pc h = .completing result

section

variable {b : ResourceBudget} {s : State} {h h' : Handle}

theorem CallPc.Enqueued.inFlight {p : CallPc} (hp : p.Enqueued) (hf : Life.count p.phase = 0) : p.InFlight := by
  cases p <;> simp_all [CallPc.Enqueued, CallPc.InFlight, CallPc.phase, Life.count]

/-- An accepted call that has not passed `finish` is in flight. -/
theorem inFlight_of_unfinished (hs : (system b).Reachable s) (ha : .submitReturned h .accepted ∈ s.history)
    (hf : finishes h s.history = 0) : (s.pc h).InFlight :=
  (enqueued_of_accepted hs ha).inFlight (by rw [← finishes_eq hs, hf])

private theorem key_eq (hs : (system b).Reachable s) (h1 : s.pc h ≠ .absent) (h2 : s.pc h' ≠ .absent)
    (hid : (s.control h').call.requestId = (s.control h).call.requestId) : (s.control h').key = (s.control h).key := by
  have k1 : requestKey (s.control h).call.requestId = some (s.control h).key := (custody hs).keyed h h1
  have k2 : requestKey (s.control h').call.requestId = some (s.control h').key := (custody hs).keyed h' h2
  rw [hid] at k2
  exact Option.some.inj (k2.symm.trans k1)

/-- The admission section refuses an identifier that is in flight. -/
theorem admit_of_inFlight (hs : (system b).Reachable s) (hp : (s.pc h).InFlight) (h' : Handle)
    (hp' : s.pc h' = .submitted) (hid : (s.control h').call.requestId = (s.control h).call.requestId) (t : ThreadId) :
    (admission s t h').history =
      .submitReturned h' (if s.accepting then .duplicateRequestId else .stopped) :: s.history := by
  have hk := key_eq hs (by intro e; rw [e] at hp; exact hp) (by rw [hp']; exact CallPc.noConfusion) hid
  have hl : (s.inFlight.lookup (s.control h').key).isSome = true := by rw [hk, lookup_of_inFlight (custody hs) hp]; rfl
  unfold admission
  cases s.accepting with
  | true => rw [if_neg (by simp), if_pos hl]; rfl
  | false => rfl

/-- Two accepted unfinished calls with one identifier are one call. -/
theorem eq_of_unfinished (hs : (system b).Reachable s) (hp : (s.pc h).InFlight) (hp' : (s.pc h').InFlight)
    (hid : (s.control h').call.requestId = (s.control h).call.requestId) : h' = h := by
  have hk := key_eq hs (by intro e; rw [e] at hp; exact hp) (by intro e; rw [e] at hp'; exact hp') hid
  exact (custody hs).table.injective hp' hp hk

/-- Distinct calls in flight are at most as many as the limit of unfinished calls. -/
theorem length_le_of_inFlight (hs : (system b).Reachable s) {l : List Handle} (hn : l.Nodup)
    (hl : ∀ h ∈ l, (s.pc h).InFlight) : l.length ≤ s.budget.maxPendingRequests := by
  have hsub : l ⊆ s.inFlight.map Prod.snd := fun h hm => (custody hs).table.mem_items.2 (hl h hm)
  have hle := (List.subperm_of_subset hn hsub).length_le
  rw [List.length_map] at hle
  exact hle.trans (custody hs).bounded

/-- Distinct calls that are being delivered are at most as many as the workers. -/
theorem length_le_of_delivering {l : List Handle} (hn : l.Nodup) (hl : ∀ h ∈ l, Delivering s h) :
    l.length ≤ s.budget.workerThreads := by
  have hsub : l ⊆ (List.range s.budget.workerThreads).filterMap fun w => (s.worker w).runs := by
    intro h hm
    obtain ⟨w, hw, hr, -⟩ := hl h hm
    exact List.mem_filterMap.2 ⟨w, List.mem_range.2 hw, by rw [hr]; rfl⟩
  exact (List.subperm_of_subset hn hsub).length_le.trans ((List.length_filterMap_le _ _).trans_eq List.length_range)

/-- An unanswered call is in flight or a worker delivers it. -/
theorem Unanswered.inFlight_or_delivering (hs : (system b).Reachable s) (hu : Unanswered s h) :
    (s.pc h).InFlight ∨ Delivering s h := by
  have he := enqueued_of_accepted hs hu.accepted
  have hdec := (account hs h).decided
  have onWorker (hw : (s.pc h).OnWorker) : ∃ w < s.budget.workerThreads, s.worker w = .running h := by
    obtain ⟨w, hr⟩ := ((custody hs).runners.mem h).1 hw
    have hrun : s.worker w = .running h := by
      cases hx : s.worker w <;> simp_all [State.calls, WorkerPc.runs]
    refine ⟨w, Nat.lt_of_not_le fun hle => ?_, hrun⟩
    have hx : s.worker w = .exited := (orderly hs).beyond w hle
    rw [hrun] at hx
    cases hx
  cases hp : s.pc h with
  | notifying send result =>
    obtain ⟨w, hw, hrun⟩ := onWorker (by rw [hp]; trivial)
    have hsend : send = !(s.control h).cancelledByClient := by
      rw [Life.Decided, show (s.life h).phase = _ from congrArg CallPc.phase hp] at hdec
      exact hdec
    rw [hu.uncancelled] at hsend
    subst hsend
    exact .inr ⟨w, hw, hrun, result, .inl hp⟩
  | completing result =>
    obtain ⟨w, hw, hrun⟩ := onWorker (by rw [hp]; trivial)
    exact .inr ⟨w, hw, hrun, result, .inr hp⟩
  | done =>
    have hret := (account hs h).returned (congrArg CallPc.phase hp) hu.uncancelled
    exact absurd ((mem_life rfl).1 hret) hu.unwritten
  | _ => first | exact .inl trivial | (rw [hp] at he; exact he.elim)

end

/-- While an accepted call has not passed `finish`, a `submit` with its identifier is refused in the admission
section, no other such call has its identifier, and such calls are never more than the limit of unfinished calls.  An
unanswered call that has passed `finish` is being delivered by a worker, so that unanswered calls are never more than
the limit and the workers together. -/
theorem rejected_while_unfinished (b : ResourceBudget) (s : State) (hs : (system b).Reachable s) :
    (∀ h, .submitReturned h .accepted ∈ s.history → finishes h s.history = 0 →
      (∀ t h' frame wake s', s.op t = .submitting h' → s.pc h' = .submitted →
        (s.control h').call.requestId = (s.control h).call.requestId → step s (.thread t frame wake) = some s' →
        s'.history = .submitReturned h' (if s.accepting then .duplicateRequestId else .stopped) :: s.history) ∧
      ∀ h', .submitReturned h' .accepted ∈ s.history → finishes h' s.history = 0 →
        (s.control h').call.requestId = (s.control h).call.requestId → h' = h) ∧
    (∀ l : List Handle, l.Nodup →
      (∀ h ∈ l, .submitReturned h .accepted ∈ s.history ∧ finishes h s.history = 0) →
      l.length ≤ s.budget.maxPendingRequests) ∧
    (∀ h, Unanswered s h → finishes h s.history = 0 ∨ Delivering s h) ∧
    ∀ l : List Handle, l.Nodup → (∀ h ∈ l, Unanswered s h) →
      l.length ≤ s.budget.maxPendingRequests + s.budget.workerThreads := by
  refine ⟨fun h ha hf => ⟨fun t h' frame wake s' hop hp' hid hstep => ?_, fun h' ha' hf' hid => ?_⟩,
    fun l hn hl => ?_, fun h hu => ?_, fun l hn hl => ?_⟩
  · rw [show step s (.thread t frame wake) = some (admission s t h') by simp [step, threadStep, hop, submitStep, hp']] at hstep
    rw [← Option.some.inj hstep]
    exact admit_of_inFlight hs (inFlight_of_unfinished hs ha hf) h' hp' hid t
  · exact eq_of_unfinished hs (inFlight_of_unfinished hs ha hf) (inFlight_of_unfinished hs ha' hf') hid
  · exact length_le_of_inFlight hs hn fun h hm => inFlight_of_unfinished hs (hl h hm).1 (hl h hm).2
  · rcases hu.inFlight_or_delivering hs with hp | hd
    · left
      rw [finishes_eq hs]
      cases hx : s.pc h <;> simp_all [CallPc.InFlight, CallPc.phase, Life.count]
    · exact .inr hd
  · classical
    have hsplit := List.length_eq_length_filter_add (l := l) fun h => decide (s.pc h).InFlight
    have hin : (l.filter fun h => decide (s.pc h).InFlight).length ≤ s.budget.maxPendingRequests :=
      length_le_of_inFlight hs (hn.filter _) fun h hm => by simpa using (List.mem_filter.1 hm).2
    have hout : (l.filter fun h => !decide (s.pc h).InFlight).length ≤ s.budget.workerThreads := by
      refine length_le_of_delivering (hn.filter _) fun h hm => ?_
      obtain ⟨hm, hx⟩ := List.mem_filter.1 hm
      exact ((hl h hm).inFlight_or_delivering hs).resolve_left (by simpa using hx)
    omega

/-- One client submits a call, and another one calls `submit` with the same identifier. -/
private def duplicateRun : List Action :=
  .invoke (.client 0) (.submit { requestId := .numberInteger 1, name := [], arguments := .object [] }) ::
    List.replicate 4 (.thread (.client 0) true none) ++
    [.invoke (.client 1) (.submit { requestId := .numberInteger 1, name := [], arguments := .object [] })]

theorem duplicateRun_rejected :
    ∃ s s', (system conservativeBudget).Reachable s ∧ .submitReturned 0 .accepted ∈ s.history ∧
      step s (.thread (.client 1) true none) = some s' ∧
      s'.history = .submitReturned 1 .duplicateRequestId :: s.history := by
  have hr : ∃ s, (machine conservativeBudget).run (initial conservativeBudget) duplicateRun = some s ∧
      s.op (.client 1) = .submitting 1 ∧ s.pc 1 = .submitted ∧ s.accepting = true ∧
      (s.control 1).call.requestId = (s.control 0).call.requestId ∧
      s.history = [.submitReturned 0 .accepted, .admitted 0] := ⟨_, rfl, rfl, rfl, rfl, rfl, rfl⟩
  obtain ⟨s, hs, hop, hp, hacc, hid, hh⟩ := hr
  have ha : .submitReturned 0 .accepted ∈ s.history := by rw [hh]; simp
  have hstep : step s (.thread (.client 1) true none) = some (admission s (.client 1) 1) := by
    simp [step, threadStep, hop, submitStep, hp]
  have h := ((rejected_while_unfinished _ s (reachable_of_run hs)).1 0 ha (by rw [hh]; rfl)).1 _ _ _ _ _ hop hp hid hstep
  rw [hacc] at h
  exact ⟨s, _, reachable_of_run hs, ha, hstep, h⟩

/-- One client submits a call, a worker takes it through `finish`, and the client submits a call with the same
identifier. -/
private def readmittedRun : List Action :=
  .invoke (.client 0) (.submit { requestId := .numberInteger 1, name := [], arguments := .object [] }) ::
    List.replicate 4 (.thread (.client 0) true none) ++ List.replicate 7 (.worker 0 (.returned deadlineError)) ++
    .invoke (.client 0) (.submit { requestId := .numberInteger 1, name := [], arguments := .object [] }) ::
    List.replicate 4 (.thread (.client 0) true none)

/-- A budget for one unfinished call. -/
def singleBudget : ResourceBudget := { conservativeBudget with maxPendingRequests := 1 }

/-- With one unfinished call allowed, two calls with one identifier are accepted, not cancelled and not answered: the
completion callback of the first has not been invoked. -/
theorem readmitted_unanswered :
    ∃ s, (system singleBudget).Reachable s ∧ s.budget.maxPendingRequests = 1 ∧ Unanswered s 0 ∧ Unanswered s 1 ∧
      completionIds 0 s.history = [] ∧ (s.control 1).call.requestId = (s.control 0).call.requestId := by
  have hr : ∃ s, (machine singleBudget).run (initial singleBudget) readmittedRun = some s ∧
      s.budget.maxPendingRequests = 1 ∧ (s.control 0).cancelledByClient = false ∧
      (s.control 1).cancelledByClient = false ∧ (s.control 1).call.requestId = (s.control 0).call.requestId ∧
      s.history = [.submitReturned 1 .accepted, .admitted 1, .finished 0, .executorReturned 0 deadlineError,
        .executorStarted 0, .submitReturned 0 .accepted, .admitted 0] := ⟨_, rfl, rfl, rfl, rfl, rfl, rfl⟩
  obtain ⟨s, hs, hb, h0, h1, hid, hh⟩ := hr
  exact ⟨s, reachable_of_run hs, hb, ⟨by rw [hh]; simp, h0, by rw [hh]; simp⟩, ⟨by rw [hh]; simp, h1, by rw [hh]; simp⟩,
    by rw [hh]; rfl, hid⟩

end NativeMcp.Scheduler
