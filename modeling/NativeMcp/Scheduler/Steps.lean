import NativeMcp.Scheduler.Model

/-!
# What one step of the scheduler can do

`Step s s'` lists the outcomes of one step with the condition under which each happens and the state it leaves, with
no case distinction left; `step_sound` derives it from the step function.  Every invariant is proved by cases on it.
-/

namespace NativeMcp.Scheduler

/-- Why `submit` refuses a call, and the statistics after it. -/
inductive Refusal (s : State) (h : Handle) : ToolSubmitStatus → ToolSchedulerStats → Prop where
  | stopped (ha : s.accepting = false) : Refusal s h .stopped s.statistics
  | duplicate (ha : s.accepting = true) (hk : (s.inFlight.lookup (s.control h).key).isSome = true) :
      Refusal s h .duplicateRequestId
        { s.statistics with duplicateRejections := s.statistics.duplicateRejections + 1 }
  | full (ha : s.accepting = true) (hk : s.inFlight.lookup (s.control h).key = none)
      (hl : s.budget.maxPendingRequests ≤ s.inFlight.length) :
      Refusal s h .queueFull { s.statistics with queueRejections := s.statistics.queueRejections + 1 }

/-- The state after a successful admission section. -/
def admitted (s : State) (h : Handle) : State :=
  ({ s with
      inFlight := ((s.control h).key, h) :: s.inFlight
      statistics := { s.statistics with
        accepted := s.statistics.accepted + 1, outstanding := s.inFlight.length + 1 } }.setPc h
    .admitted).log (.admitted h)

/-- One move of a coroutine that only changes its own position and records at most one event. -/
inductive Move (s : State) (h : Handle) : CallPc → CallPc → Option Event → Prop where
  | skip (hc : (s.control h).cancelledByClient = true) :
      Move s h .resumed (.finishing false false
        (schedulerError "internal_error" "tool execution failed before producing a result")) none
  | resume (hc : (s.control h).cancelledByClient = false) : Move s h .resumed .checkingDeadline none
  | expired (hd : s.deadlineExceeded h = true) :
      Move s h .checkingDeadline (.finishing true true deadlineError) (some (.timedOut h))
  | start (hd : s.deadlineExceeded h = false) :
      Move s h .checkingDeadline .executing (some (.executorStarted h))
  | executed (outcome : ExecutorOutcome) :
      Move s h .executing (.executed outcome.result) (some (.executorReturned h outcome.result))
  | cancelled (result : ToolExecutionResult) (hc : (s.control h).cancelledByClient = true) :
      Move s h (.executed result) (.finishing true false result) none
  | recheck (result : ToolExecutionResult) (hc : (s.control h).cancelledByClient = false) :
      Move s h (.executed result) (.recheckingDeadline result) none
  | overran (result : ToolExecutionResult) (hd : s.deadlineExceeded h = true) :
      Move s h (.recheckingDeadline result) (.finishing true true deadlineError) (some (.timedOut h))
  | inTime (result : ToolExecutionResult) (hd : s.deadlineExceeded h = false) :
      Move s h (.recheckingDeadline result) (.finishing true false result) none

/-- Records an event, if there is one. -/
def State.logAny (s : State) (e : Option Event) : State := { s with history := e.toList ++ s.history }

/-- The outcomes of one step. -/
inductive Step (s : State) : State → Prop where
  | submitCall (t : ThreadId) (call : ScheduledToolCall) (key : Bytes) (ho : s.op t = .idle)
      (hc : mayCall s t = true) (hk : requestKey call.requestId = some key) : Step s (makeControl s t call key)
  | cancelCall (t : ThreadId) (id : Json) (ho : s.op t = .idle) (hc : mayCall s t = true) :
      Step s (s.setOp t (.cancelling id))
  | requestStopCall (t : ThreadId) (ho : s.op t = .idle) (hc : mayCall s t = true) :
      Step s (s.setOp t .requestingStop)
  | shutdownCall (t : ThreadId) (ho : s.op t = .idle) (hc : mayCall s t = true) :
      Step s (s.setOp t .shuttingDown)
  | refuse (t : ThreadId) (h : Handle) (status : ToolSubmitStatus) (statistics : ToolSchedulerStats)
      (ho : s.op t = .submitting h) (hp : s.pc h = .submitted) (hr : Refusal s h status statistics) :
      Step s (returnSubmit ({ s with statistics }.setPc h .refused) t h status)
  | admission (t : ThreadId) (h : Handle) (ho : s.op t = .submitting h) (hp : s.pc h = .submitted)
      (ha : s.accepting = true) (hk : s.inFlight.lookup (s.control h).key = none)
      (hl : s.inFlight.length < s.budget.maxPendingRequests) : Step s (admitted s h)
  | startCoroutine (t : ThreadId) (h : Handle) (ho : s.op t = .submitting h) (hp : s.pc h = .admitted) :
      Step s (s.setPc h .suspending)
  | frameFailure (t : ThreadId) (h : Handle) (ho : s.op t = .submitting h) (hp : s.pc h = .admitted) :
      Step s (s.setPc h .unwinding)
  | enqueue (t : ThreadId) (h : Handle) (ho : s.op t = .submitting h) (hp : s.pc h = .suspending) :
      Step s (enqueue s t h)
  | unwind (t : ThreadId) (h : Handle) (ho : s.op t = .submitting h) (hp : s.pc h = .unwinding) :
      Step s (unwind s h)
  | unwound (t : ThreadId) (h : Handle) (ho : s.op t = .submitting h) (hp : s.pc h = .unwound) :
      Step s (returnSubmit (s.notifyAllDone.setPc h .failed) t h .stopped)
  | wakeOne (t : ThreadId) (h : Handle) (w : Nat) (ho : s.op t = .notifyingReady h)
      (hw : s.worker w = .waiting) : Step s (returnSubmit (s.setWorker w .looping) t h .accepted)
  | wakeNone (t : ThreadId) (h : Handle) (ho : s.op t = .notifyingReady h)
      (hw : ∀ w < s.budget.workerThreads, s.worker w ≠ .waiting) : Step s (returnSubmit s t h .accepted)
  | cancelHit (t : ThreadId) (id : Json) (key : Bytes) (h : Handle) (ho : s.op t = .cancelling id)
      (hk : requestKey id = some key) (hl : s.inFlight.lookup key = some h) :
      Step s (((s.mark [h]).setOp t (.stopping [h])).log (.cancelHit h))
  | cancelMiss (t : ThreadId) (id : Json) (ho : s.op t = .cancelling id)
      (hl : ∀ key, requestKey id = some key → s.inFlight.lookup key = none) : Step s (s.setOp t .idle)
  | requestStop (t : ThreadId) (ho : s.op t = .requestingStop) : Step s (requestStop s t)
  | stopFirst (t : ThreadId) (pending : List Handle) (ho : s.op t = .stopping pending) :
      Step s (stopFirst s t pending)
  | workerShutdown (w : Nat) (ho : s.op (.worker w) = .shuttingDown) :
      Step s (({ s with accepting := false }.setOp (.worker w) .idle).log .closed)
  | lockShutdown (c : Nat) (ho : s.op (.client c) = .shuttingDown) (hm : s.shutdownMutex = none) :
      Step s ({ s with shutdownMutex := some (.client c) }.setOp (.client c) .draining)
  | alreadyJoined (t : ThreadId) (ho : s.op t = .draining) (hj : s.joined = true) :
      Step s (returnShutdown (s.log .closed) t)
  | drain (t : ThreadId) (ho : s.op t = .draining) (hj : s.joined = false) :
      Step s (drainWait ({ s with accepting := false }.log .closed) t)
  | recheck (t : ThreadId) (ho : s.op t = .recheckingDrained) : Step s (drainWait s t)
  | notifyStop (t : ThreadId) (ho : s.op t = .notifyingStop) :
      Step s (s.notifyAllReady.setOp t (.joining 0))
  | joinNext (t : ThreadId) (k : Nat) (ho : s.op t = .joining k) (hk : k < s.budget.workerThreads)
      (hw : s.worker k = .exited) : Step s (s.setOp t (.joining (k + 1)))
  | joinedAll (t : ThreadId) (k : Nat) (ho : s.op t = .joining k) (hk : s.budget.workerThreads ≤ k) :
      Step s (returnShutdown { s with joined := true } t)
  | workerExit (w : Nat) (hw : s.worker w = .looping) (hr : s.ready = []) (hs : s.stopping = true) :
      Step s (s.setWorker w .exited)
  | workerWait (w : Nat) (hw : s.worker w = .looping) (hr : s.ready = []) (hs : s.stopping = false) :
      Step s (s.setWorker w .waiting)
  | dequeue (w : Nat) (h : Handle) (rest : List Handle) (hw : s.worker w = .looping)
      (hr : s.ready = h :: rest) :
      Step s (({ s with ready := rest }.setPc h .resumed).setWorker w (.running h))
  | move (w : Nat) (h : Handle) (p : CallPc) (e : Option Event) (hw : s.worker w = .running h)
      (hm : Move s h (s.pc h) p e) : Step s ((s.setPc h p).logAny e)
  | finish (w : Nat) (h : Handle) (haveResult timedOut : Bool) (result : ToolExecutionResult)
      (hw : s.worker w = .running h) (hp : s.pc h = .finishing haveResult timedOut result) :
      Step s (finish s h haveResult timedOut result)
  | suppress (w : Nat) (h : Handle) (result : ToolExecutionResult) (hw : s.worker w = .running h)
      (hp : s.pc h = .notifying false result) : Step s ((s.notifyAllDone.setPc h .done).setWorker w .looping)
  | complete (w : Nat) (h : Handle) (result : ToolExecutionResult) (hw : s.worker w = .running h)
      (hp : s.pc h = .notifying true result) :
      Step s ((s.notifyAllDone.setPc h (.completing result)).log
        (.completionInvoked h (s.control h).call.requestId result))
  | completed (w : Nat) (h : Handle) (result : ToolExecutionResult) (hw : s.worker w = .running h)
      (hp : s.pc h = .completing result) (ho : s.op (.worker w) = .idle) :
      Step s (((s.setPc h .done).setWorker w .looping).log (.completionReturned h))
  | wakeWorker (w : Nat) : Step s (s.setWorker w (s.worker w).wake)
  | wakeThread (t : ThreadId) : Step s (s.setOp t (s.op t).wake)
  | tick : Step s { s with now := s.now + 1 }

theorem isIdle_iff {o : Op} : isIdle o = true ↔ o = .idle := by
  cases o <;> simp [isIdle]

theorem isWaiting_iff {p : WorkerPc} : p.isWaiting = true ↔ p = .waiting := by
  cases p <;> simp [WorkerPc.isWaiting]

/-! ### The step function takes only such steps -/

private theorem invoke_sound {s s' : State} {t : ThreadId} {request : Request}
    (h : invoke s t request = some s') : Step s s' := by
  unfold invoke at h
  split at h
  · rename_i hc
    obtain ⟨hc, ho⟩ := Bool.and_eq_true_iff.1 hc
    have ho := isIdle_iff.1 ho
    cases request with
    | submit call =>
      obtain ⟨key, hk, rfl⟩ := Option.map_eq_some_iff.1 h
      exact .submitCall t call key ho hc hk
    | cancel id => cases h; exact .cancelCall t id ho hc
    | requestStop => cases h; exact .requestStopCall t ho hc
    | shutdown => cases h; exact .shutdownCall t ho hc
  · cases h

private theorem admit_sound {s : State} {t : ThreadId} {h : Handle} (ho : s.op t = .submitting h)
    (hp : s.pc h = .submitted) : Step s (admission s t h) := by
  unfold admission
  by_cases ha : s.accepting = true
  · rw [if_neg (by simp [ha])]
    split
    · rename_i hk
      exact .refuse t h _ _ ho hp (.duplicate ha hk)
    · rename_i hk
      have hk : s.inFlight.lookup (s.control h).key = none := Option.not_isSome_iff_eq_none.1 hk
      split
      · rename_i hl
        exact .refuse t h _ _ ho hp (.full ha hk hl)
      · rename_i hl
        exact .admission t h ho hp ha hk (Nat.lt_of_not_le hl)
  · rw [if_pos (by simp [ha])]
    exact .refuse t h _ _ ho hp (.stopped (Bool.eq_false_iff.2 ha))

private theorem submitStep_sound {s s' : State} {t : ThreadId} {h : Handle} {frame : Bool}
    (ho : s.op t = .submitting h) (hs : submitStep s t h frame = some s') : Step s s' := by
  unfold submitStep at hs
  split at hs
  · rename_i hp; cases hs; exact admit_sound ho hp
  · rename_i hp
    cases hs
    cases frame with
    | true => exact .startCoroutine t h ho hp
    | false => exact .frameFailure t h ho hp
  · rename_i hp; cases hs; exact .enqueue t h ho hp
  · rename_i hp; cases hs; exact .unwind t h ho hp
  · rename_i hp; cases hs; exact .unwound t h ho hp
  · cases hs

private theorem notifyOneReady_sound {s s' : State} {t : ThreadId} {h : Handle} {wake : Option Nat}
    (ho : s.op t = .notifyingReady h) (hs : notifyOneReady s t h wake = some s') : Step s s' := by
  cases wake with
  | some w =>
    simp only [notifyOneReady] at hs
    split at hs
    · rename_i hw; cases hs; exact .wakeOne t h w ho (isWaiting_iff.1 hw)
    · cases hs
  | none =>
    simp only [notifyOneReady] at hs
    split at hs
    · cases hs
    · rename_i hw
      cases hs
      refine .wakeNone t h ho fun w hlt he => hw ?_
      exact List.any_eq_true.2 ⟨w, List.mem_range.2 hlt, isWaiting_iff.2 he⟩

private theorem cancel_sound {s : State} {t : ThreadId} {id : Json} (ho : s.op t = .cancelling id) :
    Step s (cancel s t id) := by
  unfold cancel
  split
  · rename_i h hl
    obtain ⟨key, hk, hl⟩ := Option.bind_eq_some_iff.1 hl
    exact .cancelHit t id key h ho hk hl
  · rename_i hl
    refine .cancelMiss t id ho fun key hk => ?_
    rw [hk] at hl
    exact hl

private theorem threadStep_sound {s s' : State} {t : ThreadId} {frame : Bool} {wake : Option Nat}
    (h : threadStep s t frame wake = some s') : Step s s' := by
  unfold threadStep at h
  cases ho : s.op t with
  | idle => simp only [ho] at h; cases h
  | submitting c => simp only [ho] at h; exact submitStep_sound ho h
  | notifyingReady c => simp only [ho] at h; exact notifyOneReady_sound ho h
  | cancelling id => simp only [ho] at h; cases h; exact cancel_sound ho
  | requestingStop => simp only [ho] at h; cases h; exact .requestStop t ho
  | stopping pending => simp only [ho] at h; cases h; exact .stopFirst t pending ho
  | shuttingDown =>
    simp only [ho, enterShutdown] at h
    cases t with
    | worker w => cases h; exact .workerShutdown w ho
    | client c =>
      cases hm : s.shutdownMutex with
      | none => simp only [hm] at h; cases h; exact .lockShutdown c ho hm
      | some u => simp only [hm] at h; cases h
  | draining =>
    simp only [ho, drain] at h
    split at h
    · rename_i hj; cases h; exact .alreadyJoined t ho hj
    · rename_i hj; cases h; exact .drain t ho (by simpa using hj)
  | waitingDrained => simp only [ho] at h; cases h
  | recheckingDrained => simp only [ho] at h; cases h; exact .recheck t ho
  | notifyingStop => simp only [ho] at h; cases h; exact .notifyStop t ho
  | joining k =>
    simp only [ho, join] at h
    split at h
    · rename_i hk
      cases hw : s.worker k with
      | exited => simp only [hw] at h; cases h; exact .joinNext t k ho hk hw
      | _ => simp only [hw] at h; cases h
    · rename_i hk; cases h; exact .joinedAll t k ho (by omega)

private theorem dequeue_sound {s : State} {w : Nat} (hw : s.worker w = .looping) : Step s (dequeue s w) := by
  unfold dequeue
  cases hr : s.ready with
  | nil =>
    cases hs : s.stopping with
    | true => exact .workerExit w hw hr hs
    | false => exact .workerWait w hw hr hs
  | cons h rest => exact .dequeue w h rest hw hr

private theorem coroutineStep_sound {s s' : State} {w : Nat} {h : Handle} {outcome : ExecutorOutcome}
    (hw : s.worker w = .running h) (hs : coroutineStep s w h outcome = some s') : Step s s' := by
  have move {p q : CallPc} {e : Option Event} (hp : s.pc h = p) (hm : Move s h p q e) :
      Step s ((s.setPc h q).logAny e) := .move w h q e hw (hp ▸ hm)
  unfold coroutineStep at hs
  split at hs
  · rename_i hp
    cases hs
    cases hc : (s.control h).cancelledByClient with
    | true => exact move hp (.skip hc)
    | false => exact move hp (.resume hc)
  · rename_i hp
    cases hs
    cases hd : s.deadlineExceeded h with
    | true => exact move hp (.expired hd)
    | false => exact move hp (.start hd)
  · rename_i hp
    split at hs
    · cases hs; exact move hp (.executed outcome)
    · cases hs
  · rename_i result hp
    cases hs
    cases hc : (s.control h).cancelledByClient with
    | true => exact move hp (.cancelled result hc)
    | false => exact move hp (.recheck result hc)
  · rename_i result hp
    cases hs
    cases hd : s.deadlineExceeded h with
    | true => exact move hp (.overran result hd)
    | false => exact move hp (.inTime result hd)
  · rename_i haveResult timedOut result hp
    cases hs
    exact .finish w h haveResult timedOut result hw hp
  · rename_i send result hp
    cases hs
    cases send with
    | true => exact .complete w h result hw hp
    | false => exact .suppress w h result hw hp
  · rename_i result hp
    split at hs
    · rename_i ho; cases hs; exact .completed w h result hw hp (isIdle_iff.1 ho)
    · cases hs
  · cases hs

theorem step_sound {s s' : State} {a : Action} (h : step s a = some s') : Step s s' := by
  cases a with
  | invoke t request => exact invoke_sound h
  | thread t frame wake => exact threadStep_sound h
  | worker w outcome =>
    simp only [step, workerStep] at h
    split at h
    · rename_i hw; cases h; exact dequeue_sound hw
    · rename_i c hw; exact coroutineStep_sound hw h
    · cases h
    · cases h
  | wakeWorker w => cases h; exact .wakeWorker w
  | wakeThread t => cases h; exact .wakeThread t
  | tick => cases h; exact .tick

/-- The invariant rule of the scheduler: what holds initially and is kept by each outcome of a step holds in every
reachable state. -/
theorem invariant {b : ResourceBudget} {I : State → Prop} (h₀ : I (initial b))
    (h₁ : ∀ s s', (system b).Reachable s → I s → Step s s' → I s') {s : State} (hs : (system b).Reachable s) :
    I s :=
  hs.invariant (fun s h => by rw [show s = initial b from h]; exact h₀)
    fun s s' hs hi ⟨_, h⟩ => h₁ s s' hs hi (step_sound h)

theorem reachable_of_run {b : ResourceBudget} {as : List Action} {s : State}
    (h : (machine b).run (initial b) as = some s) : (system b).Reachable s :=
  Machine.reachable_of_run (M := machine b) (.init rfl) h

end NativeMcp.Scheduler
