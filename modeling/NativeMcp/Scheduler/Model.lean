import Mathlib.Logic.Function.Basic
import NativeMcp.Foundation
import NativeMcp.Json
import NativeMcp.Lib.TransitionSystem

/-!
# The tool scheduler

`ToolScheduler` as a transition system.  The threads are the workers of the pool and any number of client threads;
every step is one locked section, one atomic access or one notification, so the runs of the system are the
interleavings of the code.

A call is named by the handle of its coroutine.  Its position (`CallPc`) covers the tail of `submit` and the body of
`run` and `finish`; a worker is in its loop, blocked on `readyCv`, running a coroutine, or gone; every thread also
has at most one call of the scheduler's interface in progress (`Op`), which a worker makes from inside an executor
or a completion callback.  The environment chooses the calls, what executors return, whether a coroutine frame can
be allocated, which blocked worker a notification wakes, and the passing of time.

`history` is not state of the code: it records what happened, newest event first.
-/

namespace NativeMcp

structure ToolExecutionResult where
  isError : Bool
  structuredContent : Json
  deriving Inhabited

namespace Scheduler

inductive ToolSubmitStatus where
  | accepted
  | queueFull
  | duplicateRequestId
  | stopped
  deriving DecidableEq, Repr

structure ScheduledToolCall where
  requestId : Json
  name : Bytes
  arguments : Json
  deriving Inhabited

structure ToolSchedulerStats where
  accepted : Nat := 0
  completed : Nat := 0
  cancelled : Nat := 0
  timedOut : Nat := 0
  queueRejections : Nat := 0
  duplicateRejections : Nat := 0
  outstanding : Nat := 0
  queued : Nat := 0
  deriving DecidableEq, Repr

/-- `request_key`; `none` where `dump` throws. -/
def requestKey : Json → Option Bytes
  | .null => some (bytes "n:")
  | .string s => some (bytes "s:" ++ s)
  | .numberInteger i =>
    if 0 ≤ i then some (bytes "j:" ++ Json.decimal i.toNat) else some (bytes "i:" ++ Json.decimalInt i)
  | .numberUnsigned n => some (bytes "j:" ++ Json.decimal n)
  | j => j.dump.map (bytes "x:" ++ ·)

def schedulerError (code message : String) : ToolExecutionResult where
  isError := true
  structuredContent := .ofPairs [("error", .ofPairs [("code", .text code), ("message", .text message)])]

def deadlineError : ToolExecutionResult :=
  schedulerError "deadline_exceeded" "tool execution exceeded its deadline"

/-- The identity of a call: the number of its `Control`. -/
abbrev Handle := Nat

/-- `Impl::Control`. -/
structure Control where
  call : ScheduledToolCall
  key : Bytes
  deadline : Nat
  cancelledByClient : Bool
  stopRequested : Bool
  deriving Inhabited

inductive ThreadId where
  | worker (w : Nat)
  | client (c : Nat)
  deriving DecidableEq, Repr

/-- Where a call stands in `submit`, `run` and `finish`. -/
inductive CallPc where
  | absent
  | submitted
  | refused
  | admitted
  | suspending
  | unwinding
  | unwound
  | failed
  | queued
  | resumed
  | checkingDeadline
  | executing
  | executed (result : ToolExecutionResult)
  | recheckingDeadline (result : ToolExecutionResult)
  | finishing (haveResult timedOut : Bool) (result : ToolExecutionResult)
  | notifying (sendCompletion : Bool) (result : ToolExecutionResult)
  | completing (result : ToolExecutionResult)
  | done

inductive WorkerPc where
  | looping
  | waiting
  | running (h : Handle)
  | exited
  deriving DecidableEq, Repr

/-- The call of the scheduler's interface that a thread is in. -/
inductive Op where
  | idle
  | submitting (h : Handle)
  | notifyingReady (h : Handle)
  | cancelling (id : Json)
  | requestingStop
  | stopping (pending : List Handle)
  | shuttingDown
  | draining
  | waitingDrained
  | recheckingDrained
  | notifyingStop
  | joining (k : Nat)

inductive Event where
  | submitReturned (h : Handle) (status : ToolSubmitStatus)
  | admitted (h : Handle)
  | unwound (h : Handle)
  | executorStarted (h : Handle)
  | executorReturned (h : Handle) (result : ToolExecutionResult)
  | timedOut (h : Handle)
  | finished (h : Handle)
  | completionInvoked (h : Handle) (id : Json) (result : ToolExecutionResult)
  | completionReturned (h : Handle)
  | cancelHit (h : Handle)
  | stopHit (h : Handle)
  | closed
  | shutdownReturned (t : ThreadId)

structure State where
  budget : ResourceBudget
  control : Handle → Control
  fresh : Handle
  pc : Handle → CallPc
  ready : List Handle
  inFlight : List (Bytes × Handle)
  statistics : ToolSchedulerStats
  accepting : Bool
  stopping : Bool
  joined : Bool
  shutdownMutex : Option ThreadId
  worker : Nat → WorkerPc
  op : ThreadId → Op
  now : Nat
  history : List Event

/-- The scheduler after its constructor. -/
def initial (b : ResourceBudget) : State where
  budget := effectiveBudget b
  control := fun _ => default
  fresh := 0
  pc := fun _ => .absent
  ready := []
  inFlight := []
  statistics := {}
  accepting := true
  stopping := false
  joined := false
  shutdownMutex := none
  worker := fun w => if w < (effectiveBudget b).workerThreads then .looping else .exited
  op := fun _ => .idle
  now := 0
  history := []

/-! ### Updates of one thread or one call -/

def State.setPc (s : State) (h : Handle) (p : CallPc) : State := { s with pc := Function.update s.pc h p }

def State.setWorker (s : State) (w : Nat) (p : WorkerPc) : State :=
  { s with worker := Function.update s.worker w p }

def State.setOp (s : State) (t : ThreadId) (o : Op) : State := { s with op := Function.update s.op t o }

def State.log (s : State) (e : Event) : State := { s with history := e :: s.history }

/-- `cancelled_by_client.store(true)` on some calls. -/
def State.mark (s : State) (hs : List Handle) : State :=
  { s with control := fun h => if h ∈ hs then { s.control h with cancelledByClient := true } else s.control h }

def State.deadlineExceeded (s : State) (h : Handle) : Bool := (s.control h).deadline ≤ s.now

/-- A waiting worker that is notified evaluates its predicate again. -/
def WorkerPc.wake : WorkerPc → WorkerPc
  | .waiting => .looping
  | p => p

def WorkerPc.isWaiting : WorkerPc → Bool
  | .waiting => true
  | _ => false

/-- A waiting shutdown that is notified evaluates its predicate again. -/
def Op.wake : Op → Op
  | .waitingDrained => .recheckingDrained
  | o => o

/-- `ready_cv.notify_all()` -/
def State.notifyAllReady (s : State) : State := { s with worker := fun w => (s.worker w).wake }

/-- `done_cv.notify_all()` -/
def State.notifyAllDone (s : State) : State := { s with op := fun t => (s.op t).wake }

/-! ### `submit` -/

def returnSubmit (s : State) (t : ThreadId) (h : Handle) (status : ToolSubmitStatus) : State :=
  (s.setOp t .idle).log (.submitReturned h status)

/-- `std::make_shared<Control>()` and its fields. -/
def makeControl (s : State) (t : ThreadId) (call : ScheduledToolCall) (key : Bytes) : State :=
  { s with
    control := Function.update s.control s.fresh
      { call, key, deadline := s.now + s.budget.operationTimeoutMs, cancelledByClient := false,
        stopRequested := false }
    fresh := s.fresh + 1
    pc := Function.update s.pc s.fresh .submitted
    op := Function.update s.op t (.submitting s.fresh) }

/-- The admission section. -/
def admission (s : State) (t : ThreadId) (h : Handle) : State :=
  if !s.accepting then returnSubmit (s.setPc h .refused) t h .stopped
  else if (s.inFlight.lookup (s.control h).key).isSome then
    returnSubmit
      ({ s with statistics :=
          { s.statistics with duplicateRejections := s.statistics.duplicateRejections + 1 } }.setPc h .refused)
      t h .duplicateRequestId
  else if s.budget.maxPendingRequests ≤ s.inFlight.length then
    returnSubmit
      ({ s with statistics :=
          { s.statistics with queueRejections := s.statistics.queueRejections + 1 } }.setPc h .refused)
      t h .queueFull
  else
    ({ s with
        inFlight := ((s.control h).key, h) :: s.inFlight
        statistics := { s.statistics with
          accepted := s.statistics.accepted + 1, outstanding := s.inFlight.length + 1 } }.setPc h
      .admitted).log (.admitted h)

/-- `run(control)` up to its suspension: `frame` tells whether the coroutine frame could be allocated. -/
def startCoroutine (s : State) (h : Handle) (frame : Bool) : State :=
  s.setPc h (if frame then .suspending else .unwinding)

/-- The locked section of `enqueue`. -/
def enqueue (s : State) (t : ThreadId) (h : Handle) : State :=
  ({ s with ready := s.ready ++ [h] }.setPc h .queued).setOp t (.notifyingReady h)

/-- `ready_cv.notify_one()` and the return of `submit`; `wake` is the waiting worker it wakes, if any. -/
def notifyOneReady (s : State) (t : ThreadId) (h : Handle) : Option Nat → Option State
  | some w =>
    if (s.worker w).isWaiting then some (returnSubmit (s.setWorker w .looping) t h .accepted) else none
  | none =>
    if (List.range s.budget.workerThreads).any fun w => (s.worker w).isWaiting then none
    else some (returnSubmit s t h .accepted)

/-- The locked section of the catch block of `submit`. -/
def unwind (s : State) (h : Handle) : State :=
  let inFlight := s.inFlight.filter fun e => e.1 ≠ (s.control h).key
  ({ s with inFlight, statistics := { s.statistics with outstanding := inFlight.length } }.setPc h
    .unwound).log (.unwound h)

/-- One step of a `submit` in progress. -/
def submitStep (s : State) (t : ThreadId) (h : Handle) (frame : Bool) : Option State :=
  match s.pc h with
  | .submitted => some (admission s t h)
  | .admitted => some (startCoroutine s h frame)
  | .suspending => some (enqueue s t h)
  | .unwinding => some (unwind s h)
  | .unwound => some (returnSubmit (s.notifyAllDone.setPc h .failed) t h .stopped)
  | _ => none

/-! ### `cancel`, `request_stop` and `shutdown` -/

/-- The locked section of `cancel`. -/
def cancel (s : State) (t : ThreadId) (id : Json) : State :=
  match (requestKey id).bind fun k => s.inFlight.lookup k with
  | some h => ((s.mark [h]).setOp t (.stopping [h])).log (.cancelHit h)
  | none => s.setOp t .idle

/-- The locked section of `request_stop`. -/
def requestStop (s : State) (t : ThreadId) : State :=
  let pending := s.inFlight.map Prod.snd
  let s' := ({ s with accepting := false }.mark pending).setOp t (.stopping pending)
  { s' with history := .closed :: (pending.map .stopHit ++ s.history) }

/-- `stop_source.request_stop()` on the first of the marked calls. -/
def stopFirst (s : State) (t : ThreadId) : List Handle → State
  | [] => s.setOp t .idle
  | h :: rest =>
    { s with control := Function.update s.control h { s.control h with stopRequested := true } }.setOp t
      (.stopping rest)

/-- `shutdown()` up to its first blocking point: a worker only closes admission, another thread takes
`shutdown_mutex`. -/
def enterShutdown (s : State) (t : ThreadId) : Option State :=
  match t with
  | .worker _ => some (({ s with accepting := false }.setOp t .idle).log .closed)
  | .client _ =>
    match s.shutdownMutex with
    | some _ => none
    | none => some ({ s with shutdownMutex := some t }.setOp t .draining)

/-- The predicate of the drain. -/
def drainWait (s : State) (t : ThreadId) : State :=
  match s.inFlight with
  | [] => { s with stopping := true }.setOp t .notifyingStop
  | _ :: _ => s.setOp t .waitingDrained

def returnShutdown (s : State) (t : ThreadId) : State :=
  ({ s with shutdownMutex := none }.setOp t .idle).log (.shutdownReturned t)

/-- The locked section of a blocking `shutdown`. -/
def drain (s : State) (t : ThreadId) : State :=
  if s.joined then (returnShutdown (s.log .closed) t)
  else drainWait ({ s with accepting := false }.log .closed) t

/-- `worker.join()` on the `k`-th worker. -/
def join (s : State) (t : ThreadId) (k : Nat) : Option State :=
  if k < s.budget.workerThreads then
    match s.worker k with
    | .exited => some (s.setOp t (.joining (k + 1)))
    | _ => none
  else some (returnShutdown { s with joined := true } t)

/-- One step of the interface call that a thread is in. -/
def threadStep (s : State) (t : ThreadId) (frame : Bool) (wake : Option Nat) : Option State :=
  match s.op t with
  | .idle => none
  | .submitting h => submitStep s t h frame
  | .notifyingReady h => notifyOneReady s t h wake
  | .cancelling id => some (cancel s t id)
  | .requestingStop => some (requestStop s t)
  | .stopping pending => some (stopFirst s t pending)
  | .shuttingDown => enterShutdown s t
  | .draining => some (drain s t)
  | .waitingDrained => none
  | .recheckingDrained => some (drainWait s t)
  | .notifyingStop => some (s.notifyAllReady.setOp t (.joining 0))
  | .joining k => join s t k

/-! ### The workers -/

/-- What an executor does when it ends. -/
inductive ExecutorOutcome where
  | returned (result : ToolExecutionResult)
  | exception
  | unknownException

def ExecutorOutcome.result : ExecutorOutcome → ToolExecutionResult
  | .returned result => result
  | .exception => schedulerError "internal_error" "tool execution raised an internal exception"
  | .unknownException => schedulerError "internal_error" "tool execution raised an unknown exception"

/-- The locked section of `worker_loop`. -/
def dequeue (s : State) (w : Nat) : State :=
  match s.ready with
  | [] => s.setWorker w (if s.stopping then .exited else .waiting)
  | h :: rest => ({ s with ready := rest }.setPc h .resumed).setWorker w (.running h)

/-- The statistics and the decision to send a response, once `finish` found the call in flight. -/
def finishFound (s : State) (h : Handle) (haveResult timedOut : Bool) (result : ToolExecutionResult) : State :=
  let cancelled := (s.control h).cancelledByClient
  let inFlight := s.inFlight.filter fun e => e.1 ≠ (s.control h).key
  { s with
    inFlight
    statistics := { s.statistics with
      cancelled := s.statistics.cancelled + (if cancelled then 1 else 0)
      timedOut := s.statistics.timedOut + (if !cancelled && timedOut then 1 else 0)
      completed := s.statistics.completed + (if cancelled then 0 else 1)
      outstanding := inFlight.length
      queued := s.ready.length } }.setPc h (.notifying (!cancelled && haveResult) result)

/-- The locked section of `finish`. -/
def finish (s : State) (h : Handle) (haveResult timedOut : Bool) (result : ToolExecutionResult) : State :=
  (if s.inFlight.lookup (s.control h).key = some h then finishFound s h haveResult timedOut result
    else s.setPc h (.notifying false result)).log (.finished h)

/-- `done_cv.notify_all()` in `finish`, and what follows it. -/
def notifyDone (s : State) (w : Nat) (h : Handle) (sendCompletion : Bool) (result : ToolExecutionResult) :
    State :=
  if sendCompletion then
    (s.notifyAllDone.setPc h (.completing result)).log
      (.completionInvoked h (s.control h).call.requestId result)
  else (s.notifyAllDone.setPc h .done).setWorker w .looping

def isIdle : Op → Bool
  | .idle => true
  | _ => false

/-- One step of the coroutine that a worker runs.  The executor and the completion callback end when they have no
call of the scheduler's interface in progress. -/
def coroutineStep (s : State) (w : Nat) (h : Handle) (outcome : ExecutorOutcome) : Option State :=
  match s.pc h with
  | .resumed =>
    some (s.setPc h (if (s.control h).cancelledByClient then
        .finishing false false
          (schedulerError "internal_error" "tool execution failed before producing a result")
      else .checkingDeadline))
  | .checkingDeadline =>
    some (if s.deadlineExceeded h then (s.setPc h (.finishing true true deadlineError)).log (.timedOut h)
      else (s.setPc h .executing).log (.executorStarted h))
  | .executing =>
    if isIdle (s.op (.worker w)) then
      some ((s.setPc h (.executed outcome.result)).log (.executorReturned h outcome.result))
    else none
  | .executed result =>
    some (s.setPc h (if (s.control h).cancelledByClient then .finishing true false result
      else .recheckingDeadline result))
  | .recheckingDeadline result =>
    some (if s.deadlineExceeded h then (s.setPc h (.finishing true true deadlineError)).log (.timedOut h)
      else s.setPc h (.finishing true false result))
  | .finishing haveResult timedOut result => some (finish s h haveResult timedOut result)
  | .notifying sendCompletion result => some (notifyDone s w h sendCompletion result)
  | .completing _ =>
    if isIdle (s.op (.worker w)) then
      some (((s.setPc h .done).setWorker w .looping).log (.completionReturned h))
    else none
  | _ => none

/-- One step of a worker. -/
def workerStep (s : State) (w : Nat) (outcome : ExecutorOutcome) : Option State :=
  match s.worker w with
  | .looping => some (dequeue s w)
  | .running h => coroutineStep s w h outcome
  | .waiting | .exited => none

/-! ### The system -/

inductive Request where
  | submit (call : ScheduledToolCall)
  | cancel (id : Json)
  | requestStop
  | shutdown

/-- A worker calls the interface only from an executor or a completion callback. -/
def mayCall (s : State) : ThreadId → Bool
  | .client _ => true
  | .worker w =>
    match s.worker w with
    | .running h =>
      match s.pc h with
      | .executing | .completing _ => true
      | _ => false
    | _ => false

/-- A thread calls the scheduler.  A `submit` whose key cannot be computed throws before it does anything. -/
def invoke (s : State) (t : ThreadId) (request : Request) : Option State :=
  if mayCall s t && isIdle (s.op t) then
    match request with
    | .submit call => (requestKey call.requestId).map (makeControl s t call)
    | .cancel id => some (s.setOp t (.cancelling id))
    | .requestStop => some (s.setOp t .requestingStop)
    | .shutdown => some (s.setOp t .shuttingDown)
  else none

inductive Action where
  | invoke (t : ThreadId) (request : Request)
  | thread (t : ThreadId) (frame : Bool) (wake : Option Nat)
  | worker (w : Nat) (outcome : ExecutorOutcome)
  | wakeWorker (w : Nat)
  | wakeThread (t : ThreadId)
  | tick

/-- One step; `wakeWorker` and `wakeThread` are spurious wake-ups. -/
def step (s : State) : Action → Option State
  | .invoke t request => invoke s t request
  | .thread t frame wake => threadStep s t frame wake
  | .worker w outcome => workerStep s w outcome
  | .wakeWorker w => some (s.setWorker w (s.worker w).wake)
  | .wakeThread t => some (s.setOp t (s.op t).wake)
  | .tick => some { s with now := s.now + 1 }

/-- The scheduler with a given budget. -/
def machine (b : ResourceBudget) : Machine State Action where
  init s := s = initial b
  step := step

def system (b : ResourceBudget) : TransitionSystem State := (machine b).system

end Scheduler

end NativeMcp
