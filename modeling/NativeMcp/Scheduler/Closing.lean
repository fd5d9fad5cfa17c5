import NativeMcp.Scheduler.Calls

/-!
# The shutdown protocol

`Closing` is the scheduler as far as sleeping and stopping are concerned: the gate of `submit`, the stages of the
threads that shut the scheduler down, the workers, and whether there are calls in flight, calls in the queue and calls
whose end has yet to be signalled.  `Orderly` is its invariant: whoever sleeps on a condition that has become true is
going to be woken, and nobody stops before the work is done.
-/

namespace NativeMcp.Scheduler

open Function (update)

/-- The stages of a thread in `enqueue` and in a blocking `shutdown`. -/
inductive Stage where
  | outside
  | notifyingReady
  | draining
  | waiting
  | rechecking
  | notifyingStop
  | joining (k : Nat)

def Op.stage : Op → Stage
  | notifyingReady _ => .notifyingReady
  | draining => .draining
  | waitingDrained => .waiting
  | recheckingDrained => .rechecking
  | notifyingStop => .notifyingStop
  | joining k => .joining k
  | _ => .outside

namespace Stage

/-- The thread holds `shutdown_mutex`. -/
def Holds : Stage → Prop
  | draining | waiting | rechecking | notifyingStop | joining _ => True
  | _ => False

def wake : Stage → Stage
  | waiting => rechecking
  | st => st

/-- The thread has set `stopping`. -/
def Halted : Stage → Prop
  | notifyingStop | joining _ => True
  | _ => False

@[grind =] theorem holds_wake (st : Stage) : st.wake.Holds ↔ st.Holds := by
  cases st <;> rfl

@[grind =] theorem halted_wake (st : Stage) : st.wake.Halted ↔ st.Halted := by
  cases st <;> rfl

@[grind .] theorem wake_ne_waiting (st : Stage) : st.wake ≠ .waiting := by
  cases st <;> exact Stage.noConfusion

@[grind =] theorem wake_eq_joining (st : Stage) (k : Nat) : st.wake = .joining k ↔ st = .joining k := by
  cases st <;> simp [wake]

@[grind =] theorem wake_eq_notifyingReady (st : Stage) : st.wake = .notifyingReady ↔ st = .notifyingReady := by
  cases st <;> simp [wake]

@[grind =] theorem wake_eq_notifyingStop (st : Stage) : st.wake = .notifyingStop ↔ st = .notifyingStop := by
  cases st <;> simp [wake]

@[grind =] theorem wake_eq_rechecking (st : Stage) : st.wake = .rechecking ↔ st = .waiting ∨ st = .rechecking := by
  cases st <;> simp [wake]

end Stage

/-- The end of the call is about to be signalled on `done_cv`. -/
def CallPc.Signals : CallPc → Prop
  | notifying .. | unwound => True
  | _ => False

structure Closing where
  pool : Nat
  accepting : Bool
  stopping : Bool
  joined : Bool
  mutex : Option ThreadId
  stage : ThreadId → Stage
  worker : Nat → WorkerPc
  busy : Prop
  queued : Prop
  signalling : Prop

def State.closing (s : State) : Closing where
  pool := s.budget.workerThreads
  accepting := s.accepting
  stopping := s.stopping
  joined := s.joined
  mutex := s.shutdownMutex
  stage t := (s.op t).stage
  worker := s.worker
  busy := s.inFlight ≠ []
  queued := s.ready ≠ []
  signalling := ∃ h, (s.pc h).Signals

namespace Closing

/-- The thread may evaluate the predicate of the drain. -/
def MayDrain (c : Closing) (t : ThreadId) : Prop :=
  c.stage t = .draining ∧ c.joined = false ∨ c.stage t = .rechecking ∧ c.accepting = false

inductive Step (c : Closing) : Closing → Prop where
  | calls (busy queued signalling : Prop) (hb : busy → c.busy ∨ c.accepting = true) (hq : queued → c.queued)
      (hs : c.busy ∨ c.signalling → busy ∨ signalling) : Step c { c with busy, queued, signalling }
  | close : Step c { c with accepting := false }
  | lock (i : Nat) (ht : c.stage (.client i) = .outside) (hm : c.mutex = none) :
      Step c { c with mutex := some (.client i), stage := update c.stage (.client i) .draining }
  | alreadyJoined (t : ThreadId) (ht : c.stage t = .draining) (hj : c.joined = true) :
      Step c { c with mutex := none, stage := update c.stage t .outside }
  | wait (t : ThreadId) (ht : c.MayDrain t) (hb : c.busy) :
      Step c { c with accepting := false, stage := update c.stage t .waiting }
  | stop (t : ThreadId) (ht : c.MayDrain t) (hb : ¬ c.busy) :
      Step c { c with accepting := false, stopping := true, stage := update c.stage t .notifyingStop }
  | notifyStop (t : ThreadId) (ht : c.stage t = .notifyingStop) :
      Step c { c with worker := fun w => (c.worker w).wake, stage := update c.stage t (.joining 0) }
  | joinNext (t : ThreadId) (k : Nat) (ht : c.stage t = .joining k) (hk : k < c.pool)
      (hw : c.worker k = .exited) : Step c { c with stage := update c.stage t (.joining (k + 1)) }
  | joinedAll (t : ThreadId) (k : Nat) (ht : c.stage t = .joining k) (hk : c.pool ≤ k) :
      Step c { c with joined := true, mutex := none, stage := update c.stage t .outside }
  | enqueue (t : ThreadId) (ht : c.stage t = .outside) :
      Step c { c with queued := True, stage := update c.stage t .notifyingReady }
  | wakeOne (t : ThreadId) (w : Nat) (ht : c.stage t = .notifyingReady) (hw : c.worker w = .waiting) :
      Step c { c with worker := update c.worker w .looping, stage := update c.stage t .outside }
  | wakeNone (t : ThreadId) (ht : c.stage t = .notifyingReady) (hw : ∀ w < c.pool, c.worker w ≠ .waiting)
      (hq : c.queued → c.busy) : Step c { c with stage := update c.stage t .outside }
  | exit (w : Nat) (hw : c.worker w = .looping) (hq : ¬ c.queued) (hs : c.stopping = true) :
      Step c { c with worker := update c.worker w .exited }
  | sleep (w : Nat) (hw : c.worker w = .looping) (hq : ¬ c.queued) (hs : c.stopping = false) :
      Step c { c with worker := update c.worker w .waiting }
  | take (w : Nat) (h : Handle) (queued : Prop) (hw : c.worker w = .looping) (hq : c.queued) :
      Step c { c with queued, worker := update c.worker w (.running h) }
  | signal (signalling : Prop) : Step c { c with signalling, stage := fun t => (c.stage t).wake }
  | leave (w : Nat) (h : Handle) (hw : c.worker w = .running h) :
      Step c { c with worker := update c.worker w .looping }
  | signalAndLeave (w : Nat) (h : Handle) (signalling : Prop) (hw : c.worker w = .running h) :
      Step c { c with
        signalling
        stage := fun t => (c.stage t).wake
        worker := update c.worker w .looping }
  | wakeWorker (w : Nat) : Step c { c with worker := update c.worker w (c.worker w).wake }
  | wakeThread (t : ThreadId) : Step c { c with stage := update c.stage t (c.stage t).wake }

structure Orderly (c : Closing) : Prop where
  pool : 0 < c.pool
  beyond : ∀ w, c.pool ≤ w → c.worker w = .exited
  stopped : c.stopping = true → ¬ c.busy ∧ c.accepting = false
  exited : ∀ w < c.pool, c.worker w = .exited → c.stopping = true
  owner : ∀ t, (c.stage t).Holds ↔ c.mutex = some t
  client : ∀ w, c.mutex ≠ some (.worker w)
  closed : ∀ t, c.stage t = .waiting ∨ c.stage t = .rechecking → c.accepting = false
  halted : ∀ t, (c.stage t).Halted → c.stopping = true
  joining : ∀ t k, c.stage t = .joining k → ∀ w < k, c.worker w = .exited
  joined : c.joined = true → c.stopping = true ∧ ∀ w, c.worker w = .exited
  drainWoken : ∀ t, c.stage t = .waiting → c.busy ∨ c.signalling
  readyWoken : c.queued →
    (∃ w < c.pool, c.worker w ≠ .waiting ∧ c.worker w ≠ .exited) ∨ ∃ t, c.stage t = .notifyingReady
  stopWoken : c.stopping = true → ∀ w, c.worker w = .waiting → ∃ t, c.stage t = .notifyingStop

/-! ### Each step keeps order -/

section Step

variable {c c' : Closing}

/-- A thread in a stage stays there while another one moves. -/
private theorem exists_update {stage : ThreadId → Stage} {t : ThreadId} {st : Stage} (st' : Stage)
    (h : ∃ u, stage u = st) (ht : stage t ≠ st) : ∃ u, update stage t st' u = st := by
  obtain ⟨u, hu⟩ := h
  have hne : u ≠ t := by
    rintro rfl
    exact ht hu
  exact ⟨u, by rw [Function.update_of_ne hne, hu]⟩

private theorem exists_wake {stage : ThreadId → Stage} {t : ThreadId} {st : Stage} (h : ∃ u, stage u = st)
    (hst : st.wake = st) : ∃ u, update stage t (stage t).wake u = st := by
  obtain ⟨u, rfl⟩ := h
  refine ⟨u, ?_⟩
  by_cases e : u = t
  · rw [e, Function.update_self, ← e, hst]
  · rw [Function.update_of_ne e]

private theorem MayDrain.ne {t : ThreadId} {st : Stage} (h : c.MayDrain t) (h₁ : st ≠ .draining)
    (h₂ : st ≠ .rechecking) : c.stage t ≠ st := by
  rcases h with ⟨h, -⟩ | ⟨h, -⟩ <;> rw [h]
  · exact h₁.symm
  · exact h₂.symm

private theorem beyond_step (ho : Orderly c) (hs : Step c c') : ∀ w, c'.pool ≤ w → c'.worker w = .exited := by
  have hb := ho.beyond
  cases hs <;> grind [Function.update_apply, WorkerPc.wake]

/-- Once the scheduler is stopped the gate is closed, so no call comes in flight again. -/
private theorem stopped_step (ho : Orderly c) (hs : Step c c') :
    c'.stopping = true → ¬ c'.busy ∧ c'.accepting = false := by
  have hs' := ho.stopped
  cases hs with
  | stop t ht hb => exact fun _ => ⟨hb, rfl⟩
  | calls busy queued signalling hb =>
    intro h
    obtain ⟨hn, ha⟩ := hs' h
    exact ⟨fun h => by rcases hb h with h | h <;> simp_all, ha⟩
  | _ => grind

private theorem exited_step (ho : Orderly c) (hs : Step c c') :
    ∀ w < c'.pool, c'.worker w = .exited → c'.stopping = true := by
  have he := ho.exited
  cases hs <;> grind [Function.update_apply, WorkerPc.wake]

/-- `shutdown_mutex` is taken and released with the stage of its owner. -/
private theorem owner_step (ho : Orderly c) (hs : Step c c') : ∀ t, (c'.stage t).Holds ↔ c'.mutex = some t := by
  have h := ho.owner
  cases hs <;> grind [Function.update_apply, MayDrain, Stage.Holds]

private theorem client_step (ho : Orderly c) (hs : Step c c') : ∀ w, c'.mutex ≠ some (.worker w) := by
  have h := ho.client
  cases hs <;> grind

private theorem closed_step (ho : Orderly c) (hs : Step c c') :
    ∀ t, c'.stage t = .waiting ∨ c'.stage t = .rechecking → c'.accepting = false := by
  have h := ho.closed
  cases hs <;> grind [Function.update_apply]

private theorem halted_step (ho : Orderly c) (hs : Step c c') :
    ∀ t, (c'.stage t).Halted → c'.stopping = true := by
  have h := ho.halted
  cases hs <;> grind [Function.update_apply, Stage.Halted]

private theorem joining_step (ho : Orderly c) (hs : Step c c') :
    ∀ t k, c'.stage t = .joining k → ∀ w < k, c'.worker w = .exited := by
  have h := ho.joining
  cases hs with
  | joinNext t k ht hk hw =>
    intro u k' (hu : update c.stage t (.joining (k + 1)) u = .joining k') w hwk
    by_cases e : u = t
    · rw [e, Function.update_self] at hu
      cases hu
      rcases Nat.lt_succ_iff_lt_or_eq.1 hwk with hwk | rfl
      · exact h t k ht w hwk
      · exact hw
    · rw [Function.update_of_ne e] at hu
      exact h u k' hu w hwk
  | _ => grind [Function.update_apply, WorkerPc.wake]

private theorem joined_step (ho : Orderly c) (hs : Step c c') :
    c'.joined = true → c'.stopping = true ∧ ∀ w, c'.worker w = .exited := by
  have h := ho.joined
  cases hs with
  | joinedAll t k ht hk =>
    refine fun _ => ⟨ho.halted t (by rw [ht]; trivial), fun w => ?_⟩
    by_cases hw : w < c.pool
    · exact ho.joining t k ht w (Nat.lt_of_lt_of_le hw hk)
    · exact ho.beyond w (Nat.le_of_not_lt hw)
  | _ => grind [Function.update_apply, WorkerPc.wake]

/-- A thread goes to sleep on `done_cv` only while calls are in flight, and whatever ends the last of them wakes it. -/
private theorem drainWoken_step (ho : Orderly c) (hs : Step c c') :
    ∀ t, c'.stage t = .waiting → c'.busy ∨ c'.signalling := by
  have h := ho.drainWoken
  cases hs with
  | calls busy queued signalling hb hq hs => exact fun t ht => hs (h t ht)
  | wait t ht hb => exact fun _ _ => .inl hb
  | signal signalling => exact fun t ht => absurd ht (Stage.wake_ne_waiting _)
  | signalAndLeave w k signalling hw => exact fun t ht => absurd ht (Stage.wake_ne_waiting _)
  | _ => grind [Function.update_apply]

private theorem wake_eq_self {p : WorkerPc} (hp : p ≠ .waiting) : p.wake = p := by
  cases p with
  | waiting => exact absurd rfl hp
  | _ => rfl

/-- A worker goes to sleep on `ready_cv` only when the queue is empty, and every `enqueue` wakes one. -/
private theorem readyWoken_step (ho : Orderly c) (hs : Step c c') : c'.queued →
    (∃ w < c'.pool, c'.worker w ≠ .waiting ∧ c'.worker w ≠ .exited) ∨ ∃ t, c'.stage t = .notifyingReady := by
  have h := ho.readyWoken
  have inPool {w : Nat} (hw : c.worker w ≠ .exited) : w < c.pool :=
    Nat.lt_of_not_le fun hle => hw (ho.beyond w hle)
  have other {t : ThreadId} {st : Stage} (ht : c.stage t ≠ .notifyingReady) (hq : c.queued) :=
    (h hq).imp_right fun h => exists_update st h ht
  cases hs with
  | calls busy queued signalling hb hq => exact fun hq' => h (hq hq')
  | close => exact h
  | lock i ht => exact other (by rw [ht]; exact Stage.noConfusion)
  | alreadyJoined t ht => exact other (by rw [ht]; exact Stage.noConfusion)
  | wait t ht => exact other (ht.ne Stage.noConfusion Stage.noConfusion)
  | stop t ht => exact other (ht.ne Stage.noConfusion Stage.noConfusion)
  | notifyStop t ht =>
    intro hq
    rcases other (by rw [ht]; exact Stage.noConfusion) hq with ⟨w, hw, hn, he⟩ | h
    · exact .inl ⟨w, hw, by simp [wake_eq_self hn, hn, he]⟩
    · exact .inr h
  | joinNext t k ht => exact other (by rw [ht]; exact Stage.noConfusion)
  | joinedAll t k ht => exact other (by rw [ht]; exact Stage.noConfusion)
  | enqueue t ht => exact fun _ => .inr ⟨t, Function.update_self ..⟩
  | wakeOne t w ht hw => exact fun _ => .inl ⟨w, inPool (by simp [hw]), by simp⟩
  | wakeNone t ht hw hq =>
    -- The pool is not empty, and with a call in flight none of its workers has exited.
    refine fun hq' => .inl ⟨0, ho.pool, hw 0 ho.pool, fun he => ?_⟩
    exact (ho.stopped (ho.exited 0 ho.pool he)).1 (hq hq')
  | exit w hw hq => exact fun hq' => absurd hq' hq
  | sleep w hw hq => exact fun hq' => absurd hq' hq
  | take w k queued hw => exact fun _ => .inl ⟨w, inPool (by simp [hw]), by simp⟩
  | signal => exact fun hq => (h hq).imp_right fun ⟨u, hu⟩ => ⟨u, (Stage.wake_eq_notifyingReady _).2 hu⟩
  | leave w k hw => exact fun _ => .inl ⟨w, inPool (by simp [hw]), by simp⟩
  | signalAndLeave w k signalling hw => exact fun _ => .inl ⟨w, inPool (by simp [hw]), by simp⟩
  | wakeWorker w =>
    refine fun hq => (h hq).imp_left fun ⟨v, hv, hn, he⟩ => ⟨v, hv, ?_⟩
    by_cases e : v = w
    · simp [← e, wake_eq_self hn, hn, he]
    · simp [Function.update_of_ne e, hn, he]
  | wakeThread t => exact fun hq => (h hq).imp_right fun h => exists_wake h rfl

/-- A worker does not go to sleep once the scheduler is stopped, and those that sleep then are woken. -/
private theorem stopWoken_step (ho : Orderly c) (hs : Step c c') :
    c'.stopping = true → ∀ w, c'.worker w = .waiting → ∃ t, c'.stage t = .notifyingStop := by
  have h := ho.stopWoken
  have other {t : ThreadId} {st : Stage} (ht : c.stage t ≠ .notifyingStop) (hs : c.stopping = true) (w : Nat)
      (hw : c.worker w = .waiting) : ∃ u, update c.stage t st u = .notifyingStop := exists_update st (h hs w hw) ht
  have awake {w v : Nat} {p : WorkerPc} (hp : p ≠ .waiting) (hw : update c.worker w p v = .waiting) :
      c.worker v = .waiting := by
    by_cases e : v = w
    · rw [e, Function.update_self] at hw
      exact absurd hw hp
    · rwa [Function.update_of_ne e] at hw
  have wake_ne (p : WorkerPc) : p.wake ≠ .waiting := by cases p <;> exact WorkerPc.noConfusion
  cases hs with
  | calls => exact h
  | close => exact h
  | lock i ht => exact other (by rw [ht]; exact Stage.noConfusion)
  | alreadyJoined t ht => exact other (by rw [ht]; exact Stage.noConfusion)
  | wait t ht => exact other (ht.ne Stage.noConfusion Stage.noConfusion)
  | stop t ht hb => exact fun _ _ _ => ⟨t, Function.update_self ..⟩
  | notifyStop t ht => exact fun _ w hw => absurd hw (wake_ne _)
  | joinNext t k ht => exact other (by rw [ht]; exact Stage.noConfusion)
  | joinedAll t k ht => exact other (by rw [ht]; exact Stage.noConfusion)
  | enqueue t ht => exact other (by rw [ht]; exact Stage.noConfusion)
  | wakeOne t w ht =>
    exact fun hs v hv => other (by rw [ht]; exact Stage.noConfusion) hs v (awake WorkerPc.noConfusion hv)
  | wakeNone t ht => exact other (by rw [ht]; exact Stage.noConfusion)
  | exit w => exact fun hs v hv => h hs v (awake WorkerPc.noConfusion hv)
  | sleep w hw hq hs => exact fun hs' => absurd (hs.symm.trans hs') Bool.noConfusion
  | take w => exact fun hs v hv => h hs v (awake WorkerPc.noConfusion hv)
  | signal =>
    intro hs w hw
    obtain ⟨u, hu⟩ := h hs w hw
    exact ⟨u, (Stage.wake_eq_notifyingStop _).2 hu⟩
  | leave w => exact fun hs v hv => h hs v (awake WorkerPc.noConfusion hv)
  | signalAndLeave w =>
    intro hs v hv
    obtain ⟨u, hu⟩ := h hs v (awake WorkerPc.noConfusion hv)
    exact ⟨u, (Stage.wake_eq_notifyingStop _).2 hu⟩
  | wakeWorker w => exact fun hs v hv => h hs v (awake (wake_ne _) hv)
  | wakeThread t => exact fun hs w hw => exists_wake (h hs w hw) rfl

theorem Orderly.step (ho : Orderly c) (hs : Step c c') : Orderly c' where
  pool := by have h := ho.pool; cases hs <;> exact h
  beyond := beyond_step ho hs
  stopped := stopped_step ho hs
  exited := exited_step ho hs
  owner := owner_step ho hs
  client := client_step ho hs
  closed := closed_step ho hs
  halted := halted_step ho hs
  joining := joining_step ho hs
  joined := joined_step ho hs
  drainWoken := drainWoken_step ho hs
  readyWoken := readyWoken_step ho hs
  stopWoken := stopWoken_step ho hs

end Step

/-- The scheduler after its constructor. -/
structure Start (c : Closing) : Prop where
  pool : 0 < c.pool
  stopping : c.stopping = false
  joined : c.joined = false
  mutex : c.mutex = none
  stage : ∀ t, c.stage t = .outside
  worker : ∀ w, c.worker w = if w < c.pool then .looping else .exited
  queued : ¬ c.queued

def system : TransitionSystem Closing where
  init := Start
  next := Step

theorem Start.orderly {c : Closing} (h : Start c) : Orderly c where
  pool := h.pool
  beyond w hw := by rw [h.worker, if_neg (Nat.not_lt_of_le hw)]
  stopped hs := by rw [h.stopping] at hs; cases hs
  exited w hw he := by rw [h.worker, if_pos hw] at he; cases he
  owner t := by simp [h.stage, h.mutex, Stage.Holds]
  client w := by simp [h.mutex]
  closed t ht := by rw [h.stage] at ht; rcases ht with ht | ht <;> cases ht
  halted t ht := by rw [h.stage] at ht; exact ht.elim
  joining t k ht := by rw [h.stage] at ht; cases ht
  joined hj := by rw [h.joined] at hj; cases hj
  drainWoken t ht := by rw [h.stage] at ht; cases ht
  readyWoken hq := absurd hq h.queued
  stopWoken hs := by rw [h.stopping] at hs; cases hs

theorem orderly_of_reachable {c : Closing} (hc : system.Reachable c) : Orderly c :=
  hc.invariant (fun _ => Start.orderly) fun _ _ _ ho hs => ho.step hs

end Closing

/-! ### The scheduler projects onto `Closing` -/

section Projection

variable (s : State)

@[simp] theorem closing_log (e : Event) : (s.log e).closing = s.closing := rfl

@[simp] theorem closing_mark (hs : List Handle) : (s.mark hs).closing = s.closing := rfl

@[simp] theorem closing_setWorker (w : Nat) (p : WorkerPc) :
    (s.setWorker w p).closing = { s.closing with worker := update s.closing.worker w p } := rfl

@[simp] theorem closing_setOp (t : ThreadId) (o : Op) :
    (s.setOp t o).closing = { s.closing with stage := update s.closing.stage t o.stage } := by
  simp only [State.closing, State.setOp, Closing.mk.injEq, true_and, and_true]
  exact Function.comp_update Op.stage s.op t o

theorem closing_setPc (h : Handle) (p : CallPc) :
    (s.setPc h p).closing = { s.closing with signalling := ∃ k, (update s.pc h p k).Signals } := rfl

@[simp] theorem closing_notifyAllReady :
    s.notifyAllReady.closing = { s.closing with worker := fun w => (s.closing.worker w).wake } := rfl

@[simp] theorem stage_wake (o : Op) : o.wake.stage = o.stage.wake := by
  cases o <;> rfl

@[simp] theorem closing_notifyAllDone :
    s.notifyAllDone.closing = { s.closing with stage := fun t => (s.closing.stage t).wake } := by
  simp [State.closing, State.notifyAllDone]

variable {s}

/-- A thread that changes its operation within a stage does nothing here. -/
theorem closing_setOp_of_eq {t : ThreadId} {o : Op} (ho : o.stage = (s.op t).stage) :
    (s.setOp t o).closing = s.closing := by
  rw [closing_setOp, ho]
  exact congrArg (fun st => { s.closing with stage := st }) (Function.update_eq_self t s.closing.stage)

variable {pc : Handle → CallPc} {h : Handle} {p : CallPc}

private theorem signals_self (pc : Handle → CallPc) (h : Handle) (hp : p.Signals) :
    ∃ k, (update pc h p k).Signals := ⟨h, by rw [Function.update_self]; exact hp⟩

private theorem signals_update (hp : ¬ (pc h).Signals) (hs : ∃ k, (pc k).Signals) :
    ∃ k, (update pc h p k).Signals := by
  obtain ⟨k, hk⟩ := hs
  have hne : k ≠ h := by
    rintro rfl
    exact hp hk
  exact ⟨k, by rw [Function.update_of_ne hne]; exact hk⟩

private theorem signals_update_eq (hp : ¬ (pc h).Signals) (hp' : ¬ p.Signals) :
    (∃ k, (update pc h p k).Signals) = ∃ k, (pc k).Signals := by
  refine propext ⟨fun ⟨k, hk⟩ => ?_, signals_update hp⟩
  by_cases e : k = h
  · rw [e, Function.update_self] at hk
    exact absurd hk hp'
  · rw [Function.update_of_ne e] at hk
    exact ⟨k, hk⟩

/-- A call that changes its position without signalling does nothing here. -/
private theorem closing_setPc_of_not (hp : ¬ (s.pc h).Signals) (hp' : ¬ p.Signals) :
    (s.setPc h p).closing = s.closing := by
  rw [closing_setPc, signals_update_eq hp hp']
  rfl

end Projection

private theorem Move.not_signals {s : State} {h : Handle} {q p : CallPc} {e : Option Event}
    (hm : Move s h q p e) : ¬ q.Signals ∧ ¬ p.Signals := by
  cases hm <;> exact ⟨id, id⟩

private theorem closing_makeControl {s : State} (hc : Calls.Custody s.calls) {t : ThreadId}
    (call : ScheduledToolCall) (key : Bytes) (ho : (s.op t).stage = .outside) :
    (makeControl s t call key).closing = s.closing := by
  have hp : s.pc s.fresh = .absent := hc.unused _ (Nat.le_refl _)
  have h₁ : (s.setPc s.fresh .submitted).closing = s.closing :=
    closing_setPc_of_not (by rw [hp]; exact id) id
  exact (closing_setOp_of_eq (s := s.setPc s.fresh .submitted) (o := .submitting s.fresh) ho.symm).trans h₁

private theorem closing_drainWait {c : Closing} {r : State} {t : ThreadId}
    (hr : r.closing = { c with accepting := false }) (ht : c.MayDrain t) : Closing.Step c (drainWait r t).closing := by
  have hb : (r.inFlight ≠ []) = c.busy := congrArg Closing.busy hr
  unfold drainWait
  split
  · rename_i hf
    have e : ({ r with stopping := true } : State).closing = { r.closing with stopping := true } := rfl
    rw [closing_setOp, e, hr]
    exact .stop t ht (fun h => by rw [← hb] at h; exact h hf)
  · rename_i e rest hf
    rw [closing_setOp, hr]
    exact .wait t ht (by rw [← hb, hf]; exact List.cons_ne_nil _ _)

theorem closing_step {s s' : State} (hc : Calls.Custody s.calls) (ho : Closing.Orderly s.closing)
    (hs : Step s s') : s'.closing = s.closing ∨ Closing.Step s.closing s'.closing := by
  have stage {t : ThreadId} {o : Op} (h : s.op t = o) : s.closing.stage t = o.stage := congrArg Op.stage h
  have quiet {t : ThreadId} {o o' : Op} (r : State) (hr : r.closing = s.closing) (h : r.op t = o)
      (hst : o'.stage = o.stage) : (r.setOp t o').closing = s.closing :=
    (closing_setOp_of_eq (by rw [h, hst])).trans hr
  have still {k : Handle} {q p : CallPc} (hq : s.pc k = q) (h₁ : ¬ q.Signals) (h₂ : ¬ p.Signals) :
      (s.setPc k p).closing = s.closing := closing_setPc_of_not (by rw [hq]; exact h₁) h₂
  cases hs with
  | submitCall t call key h => exact .inl (closing_makeControl hc call key (by rw [h]; rfl))
  | cancelCall t id h => exact .inl (quiet s rfl h rfl)
  | requestStopCall t h => exact .inl (quiet s rfl h rfl)
  | shutdownCall t h => exact .inl (quiet s rfl h rfl)
  | refuse t k status statistics h hp => exact .inl (quiet (s.setPc k .refused) (still hp id id) h rfl)
  | admission t k h hp ha =>
    exact .inr (.calls _ _ _ (fun _ => .inr ha) id fun _ => .inl (List.cons_ne_nil _ _))
  | startCoroutine t k h hp => exact .inl (still hp id id)
  | frameFailure t k h hp => exact .inl (still hp id id)
  | enqueue t k h hp =>
    have e : ({ s with ready := s.ready ++ [k] }.setPc k .queued).closing = { s.closing with queued := True } := by
      have hsig : ¬ (s.pc k).Signals := by rw [hp]; exact id
      rw [closing_setPc, signals_update_eq hsig id]
      simp [State.closing]
    rw [enqueue, closing_setOp, e]
    exact .inr (.enqueue t (stage h))
  | unwind t k h hp =>
    refine .inr (.calls _ _ _ (fun hb => .inl fun e => hb ?_) id fun _ => .inr (signals_self s.pc k trivial))
    show s.inFlight.filter _ = []
    rw [e, List.filter_nil]
  | unwound t k h hp =>
    have e := stage h
    have h' : (s.notifyAllDone.setPc k .failed).op t = .submitting k := by
      simp [State.setPc, State.notifyAllDone, h, Op.wake]
    rw [returnSubmit, closing_log, closing_setOp_of_eq (by rw [h']; rfl), closing_setPc, closing_notifyAllDone]
    exact .inr (.signal _)
  | wakeOne t k w h hw =>
    rw [returnSubmit, closing_log, closing_setOp, closing_setWorker]
    exact .inr (.wakeOne t w (stage h) hw)
  | wakeNone t k h hw =>
    rw [returnSubmit, closing_log, closing_setOp]
    refine .inr (.wakeNone t (stage h) hw fun hq hf => hq ?_)
    exact hc.ready_eq_nil hf
  | cancelHit t id key k h => exact .inl (quiet (s.mark [k]) rfl h rfl)
  | cancelMiss t id h => exact .inl (quiet s rfl h rfl)
  | requestStop t h =>
    right
    have hst : (Op.stopping (s.inFlight.map Prod.snd)).stage = (s.op t).stage := by rw [h]; rfl
    have e : (requestStop s t).closing = { (s.setOp t (.stopping (s.inFlight.map Prod.snd))).closing with
      accepting := false } := rfl
    rw [e, closing_setOp_of_eq hst]
    exact .close
  | stopFirst t pending h =>
    cases pending with
    | nil => exact .inl (quiet s rfl h rfl)
    | cons k rest =>
      exact .inl (quiet
        { s with control := update s.control k { s.control k with stopRequested := true } } rfl h rfl)
  | workerShutdown w h =>
    right
    rw [closing_log, closing_setOp_of_eq (by rw [show _ = Op.shuttingDown from h]; rfl)]
    exact .close
  | lockShutdown c h hm =>
    rw [closing_setOp]
    exact .inr (.lock c (stage h) hm)
  | alreadyJoined t h hj =>
    rw [returnShutdown, closing_log, closing_setOp]
    exact .inr (.alreadyJoined t (stage h) hj)
  | drain t h hj => exact .inr (closing_drainWait rfl (.inl ⟨stage h, hj⟩))
  | recheck t h =>
    have ha : s.accepting = false := ho.closed t (.inr (stage h))
    exact .inr (closing_drainWait (by rw [← ha]; rfl) (.inr ⟨stage h, ha⟩))
  | notifyStop t h =>
    rw [closing_setOp, closing_notifyAllReady]
    exact .inr (.notifyStop t (stage h))
  | joinNext t k h hk hw =>
    rw [closing_setOp]
    exact .inr (.joinNext t k (stage h) hk hw)
  | joinedAll t k h hk =>
    rw [returnShutdown, closing_log, closing_setOp]
    exact .inr (.joinedAll t k (stage h) hk)
  | workerExit w hw hr hst => exact .inr (.exit w hw (fun h => h hr) hst)
  | workerWait w hw hr hst => exact .inr (.sleep w hw (fun h => h hr) hst)
  | dequeue w k rest hw hr =>
    have hq : s.pc k = .queued := hc.eq_queued hr
    have e : ({ s with ready := rest }.setPc k .resumed).closing = { s.closing with queued := rest ≠ [] } := by
      have hsig : ¬ (s.pc k).Signals := by rw [hq]; exact id
      rw [closing_setPc, signals_update_eq hsig id]
      rfl
    rw [closing_setWorker, e]
    exact .inr (.take w k _ hw (fun h => by rw [h] at hr; cases hr))
  | move w k p e hw hm => exact .inl (closing_setPc_of_not hm.not_signals.1 hm.not_signals.2)
  | finish w k haveResult timedOut result hw hp =>
    rw [finish_eq hc hp]
    refine .inr (.calls _ _ _ (fun hb => .inl fun e => hb ?_) id fun _ => .inr (signals_self s.pc k trivial))
    show s.inFlight.filter _ = []
    rw [e, List.filter_nil]
  | suppress w k result hw hp =>
    rw [closing_setWorker, closing_setPc, closing_notifyAllDone]
    exact .inr (.signalAndLeave w k _ hw)
  | complete w k result hw hp =>
    rw [closing_log, closing_setPc, closing_notifyAllDone]
    exact .inr (.signal _)
  | completed w k result hw hp =>
    rw [closing_log, closing_setWorker, still hp id id]
    exact .inr (.leave w k hw)
  | wakeWorker w => exact .inr (.wakeWorker w)
  | wakeThread t =>
    rw [closing_setOp, stage_wake]
    exact .inr (.wakeThread t)
  | tick => exact .inl rfl

/-- The scheduler follows the shutdown protocol. -/
theorem Closing.projection (b : ResourceBudget) :
    (Scheduler.system b).Projection Closing.system State.closing where
  init s hs := by
    obtain rfl : s = initial b := hs
    exact {
      pool := workerThreads_pos (isBudgetValid_effectiveBudget b)
      stopping := rfl
      joined := rfl
      mutex := rfl
      stage := fun _ => rfl
      worker := fun _ => rfl
      queued := fun h => h rfl }
  step s s' hs hc := fun ⟨_, h⟩ => closing_step (custody hs) (Closing.orderly_of_reachable hc) (step_sound h)

theorem orderly {b : ResourceBudget} {s : State} (hs : (system b).Reachable s) : Closing.Orderly s.closing :=
  Closing.orderly_of_reachable ((Closing.projection b).reachable hs)

end NativeMcp.Scheduler
