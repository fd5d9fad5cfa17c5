import NativeMcp.Lib.TransitionSystem
import NativeMcp.Server.Model

/-!
# The server over standard input and output

`run_stdio` as a transition system over the scheduler: one thread reads the input byte by byte, handles each line
and calls the scheduler, and the workers run the calls and write their results.  The reader is the scheduler's only
client thread.

What an executor returns is a function of the call.  The environment chooses the interleaving, which writes succeed,
whether the transport reports a failure, and whatever the scheduler leaves open.

`output` records which thread wrote which line.
-/

namespace NativeMcp

namespace Stdio

open Scheduler (Handle ThreadId ToolSubmitStatus Request isIdle)

/-- Where `run_stdio` stands: at the head of its loop, in a call of the scheduler's interface, on its way out after a
failure (`failing`, `stopping` and `stopped`), or gone with an exit status. -/
inductive Reader where
  | reading
  | submitting (requestId : Json)
  | cancelling
  | failing
  | stopping
  | stopped
  | shuttingDown (status : Nat)
  | returned (status : Nat)

/-- Where the completion callback of a call stands. -/
inductive Callback where
  | pending
  | wrote (line : Option Bytes)
  | stopping

structure State where
  server : Server
  scheduler : Scheduler.State
  input : Bytes
  ended : Bool := false
  line : Bytes := []
  oversized : Bool := false
  reader : Reader
  callback : Handle → Callback := fun _ => .pending
  writerFailed : Bool := false
  inputFailed : Bool := false
  output : List (ThreadId × Bytes) := []

/-- The thread of `run_stdio`. -/
def mainThread : ThreadId := .client 0

/-- The state in which the loop is entered; an invalid budget is refused. -/
def initial (budget : ResourceBudget) (tools : Option ToolService) (input : Bytes) : State where
  server := Server.create budget tools
  scheduler := Scheduler.initial budget
  input := input
  reader := if isBudgetValid budget then .reading else .returned 78

namespace State

variable (s : State)

/-- There is a scheduler only if there are tools. -/
def hasScheduler : Bool := s.server.tools.isSome

/-- The reader calls the scheduler. -/
def call (request : Request) (position : Reader) : Option State :=
  (Scheduler.invoke s.scheduler mainThread request).map fun scheduler => { s with scheduler, reader := position }

/-- `SerializedProtocolWriter::write` and its value: nothing is written once a write has failed. -/
def write (t : ThreadId) (result : ProcessResult) (good : Bool) : State × Bool :=
  if s.writerFailed then (s, false)
  else if good then ({ s with output := s.output ++ (result.response.map fun line => (t, line)).toList }, true)
  else ({ s with writerFailed := true }, false)

/-- What follows a line. -/
def proceed (success : Bool) : State := { s with reader := if success then .reading else .failing }

/-- The reader writes a result, and goes on or exits. -/
def respond (result : ProcessResult) (good : Bool) : State :=
  let (s, success) := s.write mainThread result good
  s.proceed success

/-! ### Lines -/

/-- `process_action` up to the scheduler's answer. -/
def processAction (action : LineAction) (good : Bool) : Option State :=
  match action.immediate, action.cancellation, action.toolCall with
  | some result, _, _ => some (s.respond result good)
  | none, some notice, _ =>
    if s.hasScheduler then s.call (.cancel notice.requestId) .cancelling else some (s.proceed (!s.writerFailed))
  | none, none, none => some (s.respond ⟨none, some "tool request could not be scheduled"⟩ good)
  | none, none, some call =>
    if s.hasScheduler then
      s.call (.submit ⟨call.requestId, call.name, call.arguments⟩) (.submitting call.requestId)
    else some (s.respond ⟨none, some "tool request could not be scheduled"⟩ good)

/-- A line without its carriage return. -/
def withoutCarriageReturn (line : Bytes) : Bytes := if line.getLast? = some 0x0D then line.dropLast else line

/-- What the line that has just ended comes to. -/
def currentAction (N : Nlohmann) : Option (LineAction × Server) :=
  if s.oversized then s.server.requestTooLarge.map fun r => ({ immediate := some r }, s.server)
  else s.server.acceptLine N (withoutCarriageReturn s.line)

/-- `process_current_line`; nothing reads the line again before it is cleared. -/
def processCurrentLine (N : Nlohmann) (good : Bool) : Option State := do
  let (action, server) ← s.currentAction N
  { s with server, line := [], oversized := false }.processAction action good

/-- A byte that does not end a line. -/
def push (c : UInt8) : State :=
  if s.oversized then s
  else if s.server.budget.maxRequestBytes ≤ s.line.length then { s with oversized := true }
  else { s with line := s.line ++ [c] }

/-- The end of `run_stdio`. -/
def finish : Option State :=
  if s.hasScheduler then s.call .shutdown (.shuttingDown 0)
  else some { s with reader := .returned (if s.writerFailed then 74 else 0) }

/-- The exit after a failure: `request_stop`, then `shutdown`. -/
def exit : Option State :=
  match s.reader with
  | .failing => if s.hasScheduler then s.call .requestStop .stopping else some { s with reader := .returned 74 }
  | .stopped => s.call .shutdown (.shuttingDown 74)
  | _ => none

/-- One byte of the input, or its end and what is left of a line then.  `broken` is what the transport reports. -/
def read (N : Nlohmann) (broken good : Bool) : Option State :=
  match s.input with
  | c :: rest =>
    if broken then some { s with input := rest, inputFailed := true, reader := .failing }
    else if c = 0x0A then { s with input := rest }.processCurrentLine N good
    else some ({ s with input := rest }.push c)
  | [] =>
    if s.ended then s.finish
    else if broken then some { s with ended := true, inputFailed := true, reader := .failing }
    else if s.oversized || !s.line.isEmpty then { s with ended := true }.processCurrentLine N good
    else some { s with ended := true }

/-! ### The scheduler's answers -/

/-- What the `submit` that has just returned answered. -/
def submitted : Option ToolSubmitStatus :=
  match s.scheduler.history with
  | .submitReturned _ status :: _ => some status
  | _ => none

/-- The error a refused call is answered with. -/
def refusal : ToolSubmitStatus → String × String
  | .duplicateRequestId => ("duplicate_request_id", "a tool request with this id is already in flight")
  | .stopped => ("server_stopping", "tool scheduler is no longer accepting work")
  | _ => ("server_busy", "bounded tool queue is full; retry after pending work completes")

/-- The reader's call of the scheduler has returned. -/
def answered (good : Bool) : Option State :=
  match s.reader with
  | .submitting requestId =>
    match s.submitted with
    | none => none
    | some .accepted => some (s.proceed (!s.writerFailed))
    | some status =>
      (s.server.formatToolError requestId (refusal status).1 (refusal status).2).map fun result =>
        s.respond result good
  | .cancelling => some (s.proceed (!s.writerFailed))
  | .stopping => some { s with reader := .stopped }
  | .shuttingDown status => some { s with reader := .returned (if s.writerFailed then 74 else status) }
  | .reading | .failing | .stopped | .returned _ => none

/-- One step of the call that the reader is in. -/
def advance (frame : Bool) (wake : Option Nat) (good : Bool) : Option State := do
  let scheduler ← Scheduler.threadStep s.scheduler mainThread frame wake
  let s' := { s with scheduler }
  if isIdle (scheduler.op mainThread) then s'.answered good else some s'

/-! ### The workers -/

/-- The completion callback of a call, on a worker: the result is written, and a failure stops the scheduler.  An
exception of the formatting ends the callback. -/
def complete (w : Nat) (h : Handle) (result : ToolExecutionResult) (good : Bool) : Option State :=
  match s.server.formatToolResult (s.scheduler.control h).call.requestId result with
  | none => some { s with callback := Function.update s.callback h (.wrote none) }
  | some r =>
    match s.write (.worker w) r good with
    | (s, true) => some { s with callback := Function.update s.callback h (.wrote r.response) }
    | (s, false) =>
      (Scheduler.invoke s.scheduler (.worker w) .requestStop).map fun scheduler =>
        { s with scheduler, callback := Function.update s.callback h .stopping }

/-- The call whose completion callback the worker has to run. -/
def toComplete (w : Nat) : Option (Handle × ToolExecutionResult) :=
  match s.scheduler.worker w with
  | .running h =>
    match s.scheduler.pc h, s.callback h with
    | .completing result, .pending => some (h, result)
    | _, _ => none
  | _ => none

/-- What the executor of the worker's call returns. -/
def outcome (execute : Bytes → Json → ToolExecutionResult) (w : Nat) : Scheduler.ExecutorOutcome :=
  match s.scheduler.worker w with
  | .running h => .returned (execute (s.scheduler.control h).call.name (s.scheduler.control h).call.arguments)
  | _ => .unknownException

/-- A step of the scheduler that leaves the rest as it is. -/
def pass (scheduler : Option Scheduler.State) : Option State := scheduler.map fun scheduler => { s with scheduler }

/-- One step of a worker. -/
def work (execute : Bytes → Json → ToolExecutionResult) (w : Nat) (good : Bool) : Option State :=
  match s.toComplete w with
  | some (h, result) => s.complete w h result good
  | none => s.pass (Scheduler.workerStep s.scheduler w (s.outcome execute w))

end State

/-! ### The system -/

inductive Action where
  | read (broken good : Bool)
  | exit
  | advance (frame : Bool) (wake : Option Nat) (good : Bool)
  | work (w : Nat) (good : Bool)
  | stop (w : Nat) (frame : Bool) (wake : Option Nat)
  | wakeWorker (w : Nat)
  | wakeReader
  | tick

/-- One step; `stop` is one of the `request_stop` that a worker's callback has called. -/
def step (N : Nlohmann) (execute : Bytes → Json → ToolExecutionResult) (s : State) : Action → Option State
  | .read broken good =>
    match s.reader with
    | .reading => s.read N broken good
    | _ => none
  | .exit => s.exit
  | .advance frame wake good => s.advance frame wake good
  | .work w good => if s.hasScheduler then s.work execute w good else none
  | .stop w frame wake => s.pass (Scheduler.threadStep s.scheduler (.worker w) frame wake)
  | .wakeWorker w => s.pass (Scheduler.step s.scheduler (.wakeWorker w))
  | .wakeReader => s.pass (Scheduler.step s.scheduler (.wakeThread mainThread))
  | .tick => s.pass (Scheduler.step s.scheduler .tick)

/-- `run_stdio` on an input. -/
def machine (N : Nlohmann) (execute : Bytes → Json → ToolExecutionResult) (budget : ResourceBudget)
    (tools : Option ToolService) (input : Bytes) : Machine State Action where
  init s := s = initial budget tools input
  step := step N execute

/-! ### The synchronous path -/

/-- `process_line` on each of the lines in turn: whether each was a tool call, and the result. -/
def processLines (N : Nlohmann) (execute : Bytes → Json → ToolExecutionResult) (server : Server) :
    List Bytes → Option (List (Bool × ProcessResult))
  | [] => some []
  | line :: lines => do
    let (action, _) ← server.acceptLine N line
    let (result, server) ← server.processLine N execute line
    return (action.toolCall.isSome, result) :: (← processLines N execute server lines)

end Stdio

end NativeMcp
