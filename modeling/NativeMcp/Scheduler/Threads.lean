import NativeMcp.Scheduler.Guarantees

/-!
# What one thread can do

`step_sound` tells the outcomes of a step but not whose step it was.  Here are the facts of the scheduler that depend
on the thread: the events that a thread and a worker record (`threadStep_keeps`, `workerStep_keeps`), and that a thread
stays in the call of the interface that it is in until that call returns (`threadStep_continues`).
-/

namespace NativeMcp.Scheduler

/-- What a thread calls the interface for; cancellation and `request_stop` are one errand. -/
inductive Errand where
  | none
  | submit (h : Handle)
  | signal
  | shutdown
  deriving DecidableEq

def Op.errand : Op → Errand
  | .idle => .none
  | .submitting h | .notifyingReady h => .submit h
  | .cancelling _ | .requestingStop | .stopping _ => .signal
  | .shuttingDown | .draining | .waitingDrained | .recheckingDrained | .notifyingStop | .joining _ => .shutdown

theorem errand_eq_none {o : Op} : o.errand = .none ↔ o = .idle := by
  cases o <;> simp [Op.errand]

theorem errand_wake (o : Op) : o.wake.errand = o.errand := by
  cases o <;> rfl

/-- A step that creates no call; what it records satisfies `P`. -/
structure Keeps (s : State) (P : Event → Prop) (s' : State) : Prop where
  fresh : s'.fresh = s.fresh
  call : ∀ h, (s'.control h).call = (s.control h).call
  history : ∃ es, s'.history = es ++ s.history ∧ ∀ e ∈ es, P e

/-- The events of a call of the interface. -/
inductive ThreadEvent (errand : Errand) : Event → Prop where
  | submitReturned (h : Handle) (status : ToolSubmitStatus) : ThreadEvent errand (.submitReturned h status)
  | admitted (h : Handle) : ThreadEvent errand (.admitted h)
  | unwound (h : Handle) : ThreadEvent errand (.unwound h)
  | cancelHit (h : Handle) (he : errand = .signal) : ThreadEvent errand (.cancelHit h)
  | stopHit (h : Handle) (he : errand = .signal) : ThreadEvent errand (.stopHit h)
  | closed : ThreadEvent errand .closed
  | shutdownReturned (t : ThreadId) : ThreadEvent errand (.shutdownReturned t)

/-- The events of a worker in its loop and its coroutine. -/
inductive WorkerEvent (s : State) (w : Nat) (outcome : ExecutorOutcome) : Event → Prop where
  | started (h : Handle) : WorkerEvent s w outcome (.executorStarted h)
  | returned (h : Handle) (hw : s.worker w = .running h) :
      WorkerEvent s w outcome (.executorReturned h outcome.result)
  | timedOut (h : Handle) : WorkerEvent s w outcome (.timedOut h)
  | finished (h : Handle) : WorkerEvent s w outcome (.finished h)
  | invoked (h : Handle) (id : Json) (result : ToolExecutionResult) :
      WorkerEvent s w outcome (.completionInvoked h id result)
  | completed (h : Handle) (result : ToolExecutionResult) (hw : s.worker w = .running h)
      (hp : s.pc h = .completing result) : WorkerEvent s w outcome (.completionReturned h)

section

variable {s s' : State} {P : Event → Prop}

theorem Keeps.mem {e : Event} (hk : Keeps s P s') (he : e ∈ s'.history) : e ∈ s.history ∨ P e := by
  obtain ⟨es, hh, hp⟩ := hk.history
  rw [hh] at he
  exact (List.mem_append.1 he).symm.imp_right (hp e)

theorem Keeps.mem_of_mem {e : Event} (hk : Keeps s P s') (he : e ∈ s.history) : e ∈ s'.history := by
  obtain ⟨es, hh, -⟩ := hk.history
  rw [hh]
  exact List.mem_append_right _ he

theorem Keeps.mono {Q : Event → Prop} (hk : Keeps s P s') (h : ∀ e, P e → Q e) : Keeps s Q s' := by
  obtain ⟨es, hh, hp⟩ := hk.history
  exact ⟨hk.fresh, hk.call, es, hh, fun e he => h e (hp e he)⟩

private theorem keeps_silent (hf : s'.fresh = s.fresh) (hc : s'.control = s.control) (hh : s'.history = s.history) :
    Keeps s P s' := ⟨hf, fun h => by rw [hc], [], hh, nofun⟩

private theorem keeps_one {e : Event} (hf : s'.fresh = s.fresh) (hc : s'.control = s.control)
    (hh : s'.history = e :: s.history) (he : P e) : Keeps s P s' := by
  refine ⟨hf, fun h => by rw [hc], [e], hh, fun e' h' => ?_⟩
  rw [List.mem_singleton.1 h']
  exact he

/-! ### A step of a call of the interface -/

private theorem call_mark (s : State) (hs : List Handle) (h : Handle) :
    ((s.mark hs).control h).call = (s.control h).call := by
  simp only [State.mark]
  split <;> rfl

private theorem call_stopFirst (s : State) (t : ThreadId) (pending : List Handle) (h : Handle) :
    ((stopFirst s t pending).control h).call = (s.control h).call := by
  cases pending with
  | nil => rfl
  | cons k rest =>
    by_cases hk : h = k
    · subst hk
      simp [stopFirst, State.setOp]
    · simp [stopFirst, State.setOp, hk]

private theorem admission_keeps (s : State) (t : ThreadId) (h : Handle) (errand : Errand) :
    Keeps s (ThreadEvent errand) (admission s t h) := by
  unfold admission
  split
  · exact keeps_one rfl rfl rfl (.submitReturned h _)
  split
  · exact keeps_one rfl rfl rfl (.submitReturned h _)
  split
  · exact keeps_one rfl rfl rfl (.submitReturned h _)
  · exact keeps_one rfl rfl rfl (.admitted h)

private theorem drainWait_keeps (s : State) (t : ThreadId) : Keeps s P (drainWait s t) := by
  unfold drainWait
  split <;> exact keeps_silent rfl rfl rfl

private theorem submitStep_keeps {t : ThreadId} {h : Handle} {frame : Bool} (errand : Errand)
    (hs : submitStep s t h frame = some s') : Keeps s (ThreadEvent errand) s' := by
  unfold submitStep at hs
  split at hs
  · cases hs; exact admission_keeps s t h errand
  · cases hs; exact keeps_silent rfl rfl rfl
  · cases hs; exact keeps_silent rfl rfl rfl
  · cases hs; exact keeps_one rfl rfl rfl (.unwound h)
  · cases hs; exact keeps_one rfl rfl rfl (.submitReturned h _)
  · cases hs

private theorem cancel_keeps (s : State) (t : ThreadId) (id : Json) :
    Keeps s (ThreadEvent .signal) (cancel s t id) := by
  unfold cancel
  split
  · rename_i h _
    refine ⟨rfl, fun k => call_mark s [h] k, [.cancelHit h], rfl, fun e he => ?_⟩
    rw [List.mem_singleton.1 he]
    exact .cancelHit h rfl
  · exact keeps_silent rfl rfl rfl

private theorem requestStop_keeps (s : State) (t : ThreadId) :
    Keeps s (ThreadEvent .signal) (requestStop s t) := by
  refine ⟨rfl, fun h => call_mark _ _ h, .closed :: (s.inFlight.map Prod.snd).map .stopHit, rfl, fun e he => ?_⟩
  rcases List.mem_cons.1 he with rfl | he
  · exact .closed
  · obtain ⟨h, -, rfl⟩ := List.mem_map.1 he
    exact .stopHit h rfl

private theorem enterShutdown_keeps {t : ThreadId} {errand : Errand} (hs : enterShutdown s t = some s') :
    Keeps s (ThreadEvent errand) s' := by
  unfold enterShutdown at hs
  split at hs
  · cases hs; exact keeps_one rfl rfl rfl .closed
  · split at hs
    · cases hs
    · cases hs; exact keeps_silent rfl rfl rfl

private theorem drain_keeps (s : State) (t : ThreadId) (errand : Errand) :
    Keeps s (ThreadEvent errand) (drain s t) := by
  unfold drain
  split
  · refine ⟨rfl, fun h => rfl, [.shutdownReturned t, .closed], rfl, fun e he => ?_⟩
    rcases List.mem_pair.1 he with rfl | rfl
    · exact .shutdownReturned t
    · exact .closed
  · unfold drainWait
    split <;> exact keeps_one rfl rfl rfl .closed

private theorem join_keeps {t : ThreadId} {k : Nat} {errand : Errand} (hs : join s t k = some s') :
    Keeps s (ThreadEvent errand) s' := by
  unfold join at hs
  split at hs
  · split at hs
    · cases hs; exact keeps_silent rfl rfl rfl
    · cases hs
  · cases hs; exact keeps_one rfl rfl rfl (.shutdownReturned t)

theorem threadStep_keeps {t : ThreadId} {frame : Bool} {wake : Option Nat}
    (hs : threadStep s t frame wake = some s') : Keeps s (ThreadEvent (s.op t).errand) s' := by
  unfold threadStep at hs
  cases ho : s.op t with
  | idle => simp only [ho] at hs; cases hs
  | submitting h => simp only [ho] at hs; exact submitStep_keeps _ hs
  | notifyingReady h =>
    simp only [ho, notifyOneReady] at hs
    cases wake with
    | some w =>
      simp only at hs
      split at hs
      · cases hs; exact keeps_one rfl rfl rfl (.submitReturned h _)
      · cases hs
    | none =>
      simp only at hs
      split at hs
      · cases hs
      · cases hs; exact keeps_one rfl rfl rfl (.submitReturned h _)
  | cancelling id => simp only [ho] at hs; cases hs; exact cancel_keeps s t id
  | requestingStop => simp only [ho] at hs; cases hs; exact requestStop_keeps s t
  | stopping pending =>
    simp only [ho] at hs
    cases hs
    refine ⟨?_, call_stopFirst s t pending, [], ?_, fun e he => absurd he List.not_mem_nil⟩ <;> cases pending <;> rfl
  | shuttingDown => simp only [ho] at hs; exact enterShutdown_keeps hs
  | draining => simp only [ho] at hs; cases hs; exact drain_keeps s t _
  | waitingDrained => simp only [ho] at hs; cases hs
  | recheckingDrained => simp only [ho] at hs; cases hs; exact drainWait_keeps s t
  | notifyingStop => simp only [ho] at hs; cases hs; exact keeps_silent rfl rfl rfl
  | joining k => simp only [ho] at hs; exact join_keeps hs

/-! ### A step of a worker -/

private theorem finish_keeps (s : State) (h : Handle) (haveResult timedOut : Bool) (result : ToolExecutionResult)
    (hP : P (.finished h)) : Keeps s P (finish s h haveResult timedOut result) := by
  unfold finish
  split <;> exact keeps_one rfl rfl rfl hP

theorem workerStep_keeps {w : Nat} {outcome : ExecutorOutcome} (hs : workerStep s w outcome = some s') :
    Keeps s (WorkerEvent s w outcome) s' := by
  unfold workerStep at hs
  split at hs
  · cases hs
    unfold dequeue
    split <;> exact keeps_silent rfl rfl rfl
  · rename_i h hw
    unfold coroutineStep at hs
    split at hs
    · cases hs; exact keeps_silent rfl rfl rfl
    · cases hs
      split
      · exact keeps_one rfl rfl rfl (.timedOut h)
      · exact keeps_one rfl rfl rfl (.started h)
    · split at hs
      · cases hs; exact keeps_one rfl rfl rfl (.returned h hw)
      · cases hs
    · cases hs; exact keeps_silent rfl rfl rfl
    · cases hs
      split
      · exact keeps_one rfl rfl rfl (.timedOut h)
      · exact keeps_silent rfl rfl rfl
    · cases hs; exact finish_keeps s h _ _ _ (.finished h)
    · cases hs
      unfold notifyDone
      split
      · exact keeps_one rfl rfl rfl (.invoked h _ _)
      · exact keeps_silent rfl rfl rfl
    · rename_i result hp
      split at hs
      · cases hs; exact keeps_one rfl rfl rfl (.completed h result hw hp)
      · cases hs
    · cases hs
  · cases hs
  · cases hs

/-! ### Errands -/

/-- What a call of the interface leaves when it returns. -/
inductive Answered (t : ThreadId) (s : State) : Errand → Prop where
  | submit (h : Handle) (status : ToolSubmitStatus) (es : List Event)
      (hh : s.history = .submitReturned h status :: es) : Answered t s (.submit h)
  | signal : Answered t s .signal
  | shutdown (hh : ∀ c, t = .client c → .shutdownReturned t ∈ s.history) : Answered t s .shutdown

/-- A step of one thread's call: the others stay where they are, and the thread is in the call until it returns. -/
structure Continues (s : State) (t : ThreadId) (s' : State) : Prop where
  others : ∀ u, u ≠ t → (s'.op u).errand = (s.op u).errand
  own : (s'.op t).errand = (s.op t).errand ∨ s'.op t = .idle ∧ Answered t s' (s.op t).errand

private theorem continues_setOp {r : State} {t : ThreadId} {o : Op} (hr : r.op = s.op)
    (h : o.errand = (s.op t).errand ∨ o = .idle ∧ Answered t (r.setOp t o) (s.op t).errand) :
    Continues s t (r.setOp t o) where
  others u hu := by simp [State.setOp, hu, hr]
  own := by simpa [State.setOp] using h

private theorem continues_log {r : State} {t : ThreadId} {o : Op} {e : Event} (hr : r.op = s.op)
    (h : o.errand = (s.op t).errand ∨ o = .idle ∧ Answered t ((r.setOp t o).log e) (s.op t).errand) :
    Continues s t ((r.setOp t o).log e) where
  others u hu := by simp [State.setOp, State.log, hu, hr]
  own := by simpa [State.setOp, State.log] using h

private theorem continues_same {t : ThreadId} (h : s'.op = s.op) : Continues s t s' where
  others u _ := by rw [h]
  own := .inl (by rw [h])

/-- `submit` returns. -/
private theorem continues_returnSubmit {r : State} {t : ThreadId} {h : Handle} (status : ToolSubmitStatus)
    (hr : ∀ u, (r.op u).errand = (s.op u).errand) (ho : (s.op t).errand = .submit h) :
    Continues s t (returnSubmit r t h status) where
  others u hu := by simpa [returnSubmit, State.setOp, State.log, hu] using hr u
  own := .inr ⟨by simp [returnSubmit, State.setOp, State.log], by rw [ho]; exact .submit h status _ rfl⟩

private theorem continues_returnShutdown {r : State} {t : ThreadId} (hr : r.op = s.op)
    (ho : (s.op t).errand = .shutdown) : Continues s t (returnShutdown r t) :=
  continues_log (r := { r with shutdownMutex := none }) hr
    (.inr ⟨rfl, by rw [ho]; exact .shutdown fun c _ => List.mem_cons_self ..⟩)

private theorem continues_drainWait {r : State} {t : ThreadId} (hr : r.op = s.op)
    (ho : (s.op t).errand = .shutdown) : Continues s t (drainWait r t) := by
  unfold drainWait
  split <;> exact continues_setOp hr (.inl ho.symm)

private theorem submitStep_continues {t : ThreadId} {h : Handle} {frame : Bool}
    (ho : s.op t = .submitting h) (hs : submitStep s t h frame = some s') : Continues s t s' := by
  have he : (s.op t).errand = .submit h := by rw [ho]; rfl
  unfold submitStep at hs
  split at hs
  · cases hs
    unfold admission
    split
    · exact continues_returnSubmit _ (fun _ => rfl) he
    split
    · exact continues_returnSubmit _ (fun _ => rfl) he
    split
    · exact continues_returnSubmit _ (fun _ => rfl) he
    · exact continues_same rfl
  · cases hs; exact continues_same rfl
  · cases hs; exact continues_setOp rfl (.inl he.symm)
  · cases hs; exact continues_same rfl
  · cases hs; exact continues_returnSubmit _ (fun u => errand_wake (s.op u)) he
  · cases hs

theorem threadStep_continues {t : ThreadId} {frame : Bool} {wake : Option Nat}
    (hs : threadStep s t frame wake = some s') : Continues s t s' := by
  unfold threadStep at hs
  cases ho : s.op t with
  | idle => simp only [ho] at hs; cases hs
  | submitting h => simp only [ho] at hs; exact submitStep_continues ho hs
  | notifyingReady h =>
    have he : (s.op t).errand = .submit h := by rw [ho]; rfl
    simp only [ho, notifyOneReady] at hs
    cases wake with
    | some w =>
      simp only at hs
      split at hs
      · cases hs; exact continues_returnSubmit _ (fun _ => rfl) he
      · cases hs
    | none =>
      simp only at hs
      split at hs
      · cases hs
      · cases hs; exact continues_returnSubmit _ (fun _ => rfl) he
  | cancelling id =>
    have he : (s.op t).errand = .signal := by rw [ho]; rfl
    simp only [ho, cancel] at hs
    split at hs
    · cases hs; exact continues_log rfl (.inl he.symm)
    · cases hs; exact continues_setOp rfl (.inr ⟨rfl, by rw [he]; exact .signal⟩)
  | requestingStop =>
    have he : (s.op t).errand = .signal := by rw [ho]; rfl
    simp only [ho] at hs
    cases hs
    refine ⟨fun u hu => ?_, .inl ?_⟩
    · simp [requestStop, State.setOp, State.mark, hu]
    · rw [he]
      simp [requestStop, State.setOp, Op.errand]
  | stopping pending =>
    have he : (s.op t).errand = .signal := by rw [ho]; rfl
    simp only [ho] at hs
    cases hs
    cases pending with
    | nil => exact continues_setOp rfl (.inr ⟨rfl, by rw [he]; exact .signal⟩)
    | cons h rest => exact continues_setOp rfl (.inl he.symm)
  | shuttingDown =>
    have he : (s.op t).errand = .shutdown := by rw [ho]; rfl
    simp only [ho, enterShutdown] at hs
    split at hs
    · cases hs; exact continues_log rfl (.inr ⟨rfl, by rw [he]; exact .shutdown (by simp)⟩)
    · split at hs
      · cases hs
      · cases hs; exact continues_setOp rfl (.inl he.symm)
  | draining =>
    have he : (s.op t).errand = .shutdown := by rw [ho]; rfl
    simp only [ho, drain] at hs
    split at hs
    · cases hs; exact continues_returnShutdown rfl he
    · cases hs; exact continues_drainWait rfl he
  | waitingDrained => simp only [ho] at hs; cases hs
  | recheckingDrained =>
    simp only [ho] at hs
    cases hs
    exact continues_drainWait rfl (by rw [ho]; rfl)
  | notifyingStop =>
    simp only [ho] at hs
    cases hs
    exact continues_setOp (r := s.notifyAllReady) rfl (.inl (by rw [ho]; rfl))
  | joining k =>
    have he : (s.op t).errand = .shutdown := by rw [ho]; rfl
    simp only [ho, join] at hs
    split at hs
    · split at hs
      · cases hs; exact continues_setOp rfl (.inl he.symm)
      · cases hs
    · cases hs; exact continues_returnShutdown rfl he

/-- A worker in its loop and its coroutine leaves every thread on its errand. -/
theorem workerStep_errand {w : Nat} {outcome : ExecutorOutcome} (hs : workerStep s w outcome = some s')
    (u : ThreadId) : (s'.op u).errand = (s.op u).errand := by
  unfold workerStep at hs
  split at hs
  · cases hs
    unfold dequeue
    split <;> rfl
  · unfold coroutineStep at hs
    split at hs
    · cases hs; rfl
    · cases hs
      split <;> rfl
    · split at hs
      · cases hs; rfl
      · cases hs
    · cases hs; rfl
    · cases hs
      split <;> rfl
    · cases hs
      unfold finish
      split <;> rfl
    · cases hs
      unfold notifyDone
      split <;> exact errand_wake (s.op u)
    · split at hs
      · cases hs; rfl
      · cases hs
    · cases hs
  · cases hs
  · cases hs

/-! ### Any step -/

/-- The record only grows. -/
theorem history_of_step {a : Action} (h : step s a = some s') : ∃ es, s'.history = es ++ s.history := by
  cases a with
  | invoke t request =>
    simp only [step, invoke] at h
    split at h
    · cases request with
      | submit call =>
        obtain ⟨key, -, rfl⟩ := Option.map_eq_some_iff.1 h
        exact ⟨[], rfl⟩
      | _ => cases h; exact ⟨[], rfl⟩
    · cases h
  | thread t frame wake =>
    obtain ⟨es, hh, -⟩ := (threadStep_keeps h).history
    exact ⟨es, hh⟩
  | worker w outcome =>
    obtain ⟨es, hh, -⟩ := (workerStep_keeps h).history
    exact ⟨es, hh⟩
  | _ => cases h; exact ⟨[], rfl⟩

end

end NativeMcp.Scheduler
