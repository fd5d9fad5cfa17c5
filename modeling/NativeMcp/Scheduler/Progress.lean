import NativeMcp.Scheduler.Closing
import NativeMcp.Scheduler.Life

/-!
# Progress

A state is at rest when no thread inside the scheduler and no worker can take a step.  By the wake-up invariants of
`Closing.Orderly` nobody is left waiting in such a state: every call has reached its end, and no `shutdown` is in
progress (`atRest_idle`, `atRest_calls`).
-/

namespace NativeMcp.Scheduler

/-- The steps of threads inside the scheduler and of its workers; new calls, spurious wake-ups and the passing of time
are the environment's. -/
def Action.Internal : Action → Prop
  | .thread .. | .worker .. => True
  | _ => False

/-- Some thread can take a step. -/
def State.Enabled (s : State) : Prop := ∃ a : Action, a.Internal ∧ (step s a).isSome = true

/-- The thread is in `shutdown`. -/
def Op.InShutdown : Op → Prop
  | shuttingDown | draining | waitingDrained | recheckingDrained | notifyingStop | joining _ => True
  | _ => False

/-- The call has been admitted and its completion callback has not returned. -/
def CallPc.Unfinished (p : CallPc) : Prop := p.InFlight ∨ p.OnWorker

section AtRest

variable {b : ResourceBudget} {s : State}

theorem enabled_thread {t : ThreadId} {frame : Bool} {wake : Option Nat}
    (h : (threadStep s t frame wake).isSome = true) : s.Enabled := ⟨.thread t frame wake, trivial, h⟩

theorem enabled_worker {w : Nat} {outcome : ExecutorOutcome} (h : (workerStep s w outcome).isSome = true) :
    s.Enabled := ⟨.worker w outcome, trivial, h⟩

/-- Every step of a `submit` can be taken. -/
private theorem submitStep_isSome {t : ThreadId} {h : Handle} (hp : (s.pc h).InSubmit) (frame : Bool) :
    (submitStep s t h frame).isSome = true := by
  unfold submitStep
  cases hq : s.pc h <;> simp_all [CallPc.InSubmit]

/-- `notify_one` wakes a waiting worker if there is one. -/
theorem notifyOneReady_isSome (s : State) (t : ThreadId) (h : Handle) :
    ∃ wake, (notifyOneReady s t h wake).isSome = true := by
  by_cases hw : ((List.range s.budget.workerThreads).any fun w => (s.worker w).isWaiting) = true
  · obtain ⟨w, -, hw⟩ := List.any_eq_true.1 hw
    exact ⟨some w, by simp [notifyOneReady, hw]⟩
  · exact ⟨none, by simp only [notifyOneReady]; rw [if_neg hw]; rfl⟩

/-- What blocks a thread: it waits for the drain, for a worker, or for `shutdown_mutex`. -/
private theorem blocked (hc : Calls.Custody s.calls) (hr : ¬ s.Enabled) (t : ThreadId) :
    s.op t = .idle ∨ s.op t = .waitingDrained ∨
      (∃ k, s.op t = .joining k ∧ k < s.budget.workerThreads ∧ s.worker k ≠ .exited) ∨
      s.op t = .shuttingDown ∧ ∃ u, s.shutdownMutex = some u := by
  have stuck (frame : Bool) (wake : Option Nat) : ¬ (threadStep s t frame wake).isSome = true :=
    fun h => hr (enabled_thread h)
  cases ho : s.op t with
  | idle => exact .inl rfl
  | waitingDrained => exact .inr (.inl rfl)
  | submitting h =>
    have hp : (s.pc h).InSubmit := hc.of_submitter (t := t) (by simp [State.calls, ho, Op.submits])
    exact absurd (by simpa [threadStep, ho] using submitStep_isSome hp true) (stuck true none)
  | notifyingReady h =>
    obtain ⟨wake, hw⟩ := notifyOneReady_isSome s t h
    exact absurd (by simpa [threadStep, ho] using hw) (stuck true wake)
  | shuttingDown =>
    refine .inr (.inr (.inr ⟨rfl, ?_⟩))
    cases hm : s.shutdownMutex with
    | some u => exact ⟨u, rfl⟩
    | none =>
      refine absurd ?_ (stuck true none)
      cases t <;> simp [threadStep, ho, enterShutdown, hm]
  | joining k =>
    refine .inr (.inr (.inl ⟨k, rfl, ?_⟩))
    by_cases hk : k < s.budget.workerThreads
    · refine ⟨hk, fun hw => stuck true none ?_⟩
      simp [threadStep, ho, join, hk, hw]
    · exact absurd (by simp [threadStep, ho, join, hk]) (stuck true none)
  | _ => exact absurd (by simp [threadStep, ho]) (stuck true none)

/-- A worker's calls of the interface never block. -/
private theorem worker_idle (hc : Calls.Custody s.calls) (ho : Closing.Orderly s.closing) (hr : ¬ s.Enabled)
    (w : Nat) : s.op (.worker w) = .idle := by
  have hn : ¬ (s.op (.worker w)).stage.Holds := fun h => ho.client w ((ho.owner _).1 h)
  rcases blocked hc hr (.worker w) with h | h | ⟨k, h, -⟩ | ⟨h, -⟩
  · exact h
  · exact absurd (by rw [h]; trivial) hn
  · exact absurd (by rw [h]; trivial) hn
  · have hstep : (threadStep s (.worker w) true none).isSome = true := by simp [threadStep, h, enterShutdown]
    exact absurd (enabled_thread hstep) hr

/-- A worker that cannot take a step sleeps or is gone. -/
private theorem worker_blocked (hc : Calls.Custody s.calls) (ho : Closing.Orderly s.closing) (hr : ¬ s.Enabled)
    (w : Nat) : s.worker w = .waiting ∨ s.worker w = .exited := by
  have stuck : ¬ (workerStep s w .exception).isSome = true := fun h => hr (enabled_worker h)
  cases hw : s.worker w with
  | waiting => exact .inl rfl
  | exited => exact .inr rfl
  | looping => exact absurd (by simp [workerStep, hw]) stuck
  | running h =>
    have hp : (s.pc h).OnWorker := hc.of_runner (w := w) (by simp [State.calls, hw, WorkerPc.runs])
    have hi := worker_idle hc ho hr w
    refine absurd ?_ stuck
    simp only [workerStep, hw, coroutineStep, hi]
    cases hq : s.pc h <;> simp_all [CallPc.OnWorker, isIdle]

/-- At rest every call has been refused, has failed or has been answered. -/
theorem atRest_calls (hc : Calls.Custody s.calls) (ho : Closing.Orderly s.closing) (hr : ¬ s.Enabled)
    (h : Handle) : ¬ (s.pc h).InSubmit ∧ ¬ (s.pc h).IsQueued ∧ ¬ (s.pc h).OnWorker := by
  have hw : ¬ (s.pc h).OnWorker := by
    intro hp
    obtain ⟨w, hw⟩ := (hc.runners.mem h).1 hp
    rcases worker_blocked hc ho hr w with e | e <;> simp [State.calls, e, WorkerPc.runs] at hw
  have hs : ¬ (s.pc h).InSubmit := by
    intro hp
    obtain ⟨t, ht⟩ := (hc.submitters.mem h).1 hp
    rcases blocked hc hr t with e | e | ⟨k, e, -⟩ | ⟨e, -⟩ <;> simp [State.calls, e, Op.submits] at ht
  refine ⟨hs, fun hp => ?_, hw⟩
  -- A queued call has a worker on its way, or a thread that is about to wake one.
  have hm : h ∈ s.ready := (hc.queue.mem h).2 hp
  rcases ho.readyWoken (List.ne_nil_of_mem hm) with ⟨w, -, hn, he⟩ | ⟨t, ht⟩
  · rcases worker_blocked hc ho hr w with e | e
    · exact hn e
    · exact he e
  · have ht : (s.op t).stage = .notifyingReady := ht
    rcases blocked hc hr t with e | e | ⟨k, e, -⟩ | ⟨e, -⟩ <;> simp [e, Op.stage] at ht

private theorem inFlight_imp {p : CallPc} (hp : p.InFlight) : p.InSubmit ∨ p.IsQueued ∨ p.OnWorker := by
  cases p <;> simp_all [CallPc.InFlight, CallPc.InSubmit, CallPc.IsQueued, CallPc.OnWorker]

private theorem signals_imp {p : CallPc} (hp : p.Signals) : p.InSubmit ∨ p.OnWorker := by
  cases p <;> simp_all [CallPc.Signals, CallPc.InSubmit, CallPc.OnWorker]

theorem atRest_inFlight (hc : Calls.Custody s.calls) (ho : Closing.Orderly s.closing) (hr : ¬ s.Enabled) :
    s.inFlight = [] := by
  refine List.eq_nil_iff_forall_not_mem.2 fun ⟨k, h⟩ hm => ?_
  have hp : (s.pc h).InFlight := ((hc.table.mem k h).1 hm).1
  obtain ⟨h₁, h₂, h₃⟩ := atRest_calls hc ho hr h
  rcases inFlight_imp hp with hp | hp | hp
  · exact h₁ hp
  · exact h₂ hp
  · exact h₃ hp

/-- At rest no thread holds `shutdown_mutex`. -/
private theorem atRest_mutex (hc : Calls.Custody s.calls) (ho : Closing.Orderly s.closing) (hr : ¬ s.Enabled)
    (t : ThreadId) : s.op t ≠ .waitingDrained ∧ ∀ k, s.op t = .joining k → s.budget.workerThreads ≤ k ∨
      s.worker k = .exited := by
  refine ⟨fun h => ?_, fun k h => ?_⟩
  · -- The drain is over, and what ended it signals it.
    rcases ho.drainWoken t (congrArg Op.stage h) with hb | ⟨c, hp⟩
    · exact hb (atRest_inFlight hc ho hr)
    · obtain ⟨h₁, -, h₃⟩ := atRest_calls hc ho hr c
      rcases signals_imp hp with hp | hp
      · exact h₁ hp
      · exact h₃ hp
  · -- A worker that sleeps after the stop is about to be woken.
    have hst : s.stopping = true := ho.halted t (by rw [show s.closing.stage t = _ from congrArg Op.stage h]; trivial)
    rcases worker_blocked hc ho hr k with e | e
    · obtain ⟨u, hu⟩ := ho.stopWoken hst k e
      have hu : (s.op u).stage = .notifyingStop := hu
      rcases blocked hc hr u with e | e | ⟨k, e, -⟩ | ⟨e, -⟩ <;> simp [e, Op.stage] at hu
    · exact .inr e

/-- At rest no thread is inside the scheduler. -/
theorem atRest_idle (hc : Calls.Custody s.calls) (ho : Closing.Orderly s.closing) (hr : ¬ s.Enabled)
    (t : ThreadId) : s.op t = .idle := by
  have free {u : ThreadId} : ¬ (s.op u).stage.Holds := by
    intro hu
    obtain ⟨h₁, h₂⟩ := atRest_mutex hc ho hr u
    rcases blocked hc hr u with e | e | ⟨k, e, hk, hw⟩ | ⟨e, -⟩
    · rw [e] at hu; exact hu
    · exact h₁ e
    · rcases h₂ k e with h | h
      · exact Nat.not_lt_of_le h hk
      · exact hw h
    · rw [e] at hu; exact hu
  rcases blocked hc hr t with e | e | ⟨k, e, -⟩ | ⟨-, u, hu⟩
  · exact e
  · exact absurd (by rw [e]; trivial) (free (u := t))
  · exact absurd (by rw [e]; trivial) (free (u := t))
  · exact absurd ((ho.owner u).2 hu) free

/-- Progress: while a call is unfinished or a `shutdown` is in progress, some thread can take a step. -/
theorem enabled_of_unfinished (hs : (system b).Reachable s)
    (h : (∃ h, (s.pc h).Unfinished) ∨ ∃ t, (s.op t).InShutdown) : s.Enabled := by
  have hc := custody hs
  have ho := orderly hs
  by_contra hr
  rcases h with ⟨h, hp | hp⟩ | ⟨t, ht⟩
  · obtain ⟨h₁, h₂, h₃⟩ := atRest_calls hc ho hr h
    rcases inFlight_imp hp with hp | hp | hp
    · exact h₁ hp
    · exact h₂ hp
    · exact h₃ hp
  · exact (atRest_calls hc ho hr h).2.2 hp
  · rw [atRest_idle hc ho hr t] at ht
    exact ht

end AtRest

end NativeMcp.Scheduler
