import NativeMcp.Lib.Program
import NativeMcp.Lib.TransitionSystem
import NativeMcp.Tools.ProcessMemory
import Mathlib.Logic.Function.Basic

/-!
# Observing a process while processes come and go

`ProcessPolicy::create` and `ProcessPolicy::inspect_memory` call by call, over what each PID stands for at the moment of
the call.  Processes exit, PIDs are given to others, the operation is cancelled and its deadline passes in any order in
between.

A moment is what one call meets: the processes, their texts, and what the call returns.  The log keeps what the calls have
found, so that a result can be compared with what it was made of.
-/

namespace NativeMcp

namespace ProcessObservation

open Program ProcessMemory ProcessParsing

/-! ### The processes behind the PIDs -/

/-- What a PID stands for: the start time of the process that is alive, and the last start time given to one. -/
structure Life where
  alive : Option Nat
  newest : Nat
  alive_le : ∀ s, alive = some s → s ≤ newest

/-- The processes, and what has been asked of the operation. -/
structure World where
  life : Nat → Life
  cancelled : Bool := false
  expired : Bool := false

inductive WorldAction where
  | exit (pid : Nat)
  | spawn (pid startTime : Nat)
  | cancel
  | expire

def World.step (w : World) : WorldAction → Option World
  | .exit pid => some { w with life := Function.update w.life pid ⟨none, (w.life pid).newest, by simp⟩ }
  | .spawn pid startTime =>
    if (w.life pid).alive = none ∧ (w.life pid).newest < startTime then
      some { w with life := Function.update w.life pid ⟨some startTime, startTime, by simp⟩ }
    else none
  | .cancel => some { w with cancelled := true }
  | .expire => some { w with expired := true }

/-- Everything that happens outside of the server.  Renames and changes of credentials show in the texts only. -/
def world : Machine World WorldAction where
  init _ := True
  step := World.step

/-- The context of the operation, or the default one, which has neither a token nor a deadline. -/
inductive OperationContext where
  | unlimited
  | operation
  deriving DecidableEq, Repr

def OperationContext.stopReason (w : World) : OperationContext → OperationStopReason
  | .unlimited => .none
  | .operation => if w.cancelled then .cancelled else if w.expired then .deadlineExceeded else .none

/-! ### The calls -/

inductive ProcFile where
  | stat
  | status
  | statm
  | smapsRollup
  deriving DecidableEq, Repr

def ProcFile.name : ProcFile → String
  | .stat => "stat"
  | .status => "status"
  | .statm => "statm"
  | .smapsRollup => "smaps_rollup"

/-- The `errno` of a failed open; `unsupported` is what `pidfd_open` says where there are no pidfds. -/
inductive OpenFailure where
  | noEntry
  | noProcess
  | notPermitted
  | unsupported (message : String)
  | other (message : String)
  deriving DecidableEq, Repr

def mapProcOpenError (failure : OpenFailure) (file : String) : ProcessMemoryError :=
  match failure with
  | .noEntry | .noProcess => error .processMissing "configured process is no longer available"
  | .notPermitted => error .permissionDenied ("permission denied reading /proc process " ++ file)
  | .unsupported message | .other message =>
    error .ioError ("failed to open /proc process " ++ file ++ ": " ++ message)

/-- The moment of one call: the world, the texts of the processes that are alive, and what the call returns. -/
structure Moment where
  world : World
  text : Nat → ProcFile → Bytes
  opens : Option OpenFailure := none
  read : ReadResult := .interrupted
  exited : Bool := false
  serverPid : Nat := 0
  effectiveUid : Nat := 0
  pageSize : Int := 0

/-- The text `stat` of a process has its start time in it. -/
def Moment.Genuine (m : Moment) : Prop :=
  ∀ pid s, (m.world.life pid).alive = some s →
    ∀ i, parseStatIdentity (m.text pid .stat) = some i → i.startTimeTicks = s

/-- The moments of one run, in order. -/
structure History (moments : List Moment) : Prop where
  genuine : ∀ m ∈ moments, m.Genuine
  ordered : moments.Pairwise fun m m' => world.system.Later m.world m'.world

/-- A text that was read, and the start time of the process it is a text of. -/
structure ProcText where
  pid : Nat
  file : ProcFile
  process : Nat
  content : Bytes
  deriving DecidableEq, Repr

/-- What has been done so far: the checks of the stop conditions and the effective UID with what they found, and the texts
that were read. -/
inductive Event where
  | check (reason : OperationStopReason)
  | text (t : ProcText)
  | user (effectiveUid : Nat)
  deriving DecidableEq, Repr

/-- The moments to come, and the log. -/
structure Observing where
  moments : List Moment
  log : List Event := []

abbrev Call (α : Type) := Program Observing ProcessMemoryError α

/-- The next call is made when its moment has come. -/
def next : Call Moment := fun s =>
  match s.moments with
  | [] => (.suspended, s)
  | m :: moments => (.returned m, { s with moments })

def note (e : Event) : Call Unit := modify fun s => { s with log := s.log ++ [e] }

def checkStop (context : OperationContext) : Call Unit := do
  let m ← next
  note (.check (context.stopReason m.world))
  match operationError (context.stopReason m.world) with
  | some stopped => raise stopped
  | none => pure ()

def openProc (file : ProcFile) (optionalFile : Bool) : Call Unit := do
  let m ← next
  match m.opens with
  | none => pure ()
  | some failure =>
    if optionalFile && failure == .noEntry then
      raise (error .procUnavailable ("optional /proc process " ++ file.name ++ " is unavailable"))
    else raise (mapProcOpenError failure file.name)

/-- The loop of `read_proc_text` and what follows it, with a bound on its rounds.  The descriptor has the text of the moment
of the first read that returns; nothing is read from a process that is gone. -/
def readLoop (context : OperationContext) (pid : Nat) (file : ProcFile) (limit : Nat) :
    Nat → Option ProcText → Nat → Call Bytes
  | 0, _, _ => suspend
  | fuel + 1, snapshot, total =>
    if limit < total then
      raise (error .dataTooLarge ("/proc process " ++ file.name ++ " exceeds the bounded read limit"))
    else do
      checkStop context
      let m ← next
      match m.read, (m.world.life pid).alive with
      | .interrupted, _ => readLoop context pid file limit fuel snapshot total
      | .returned short, some process =>
        let snapshot := snapshot.getD ⟨pid, file, process, m.text pid file⟩
        let count := ((snapshot.content.drop total).take (min (limit + 1 - total) (short + 1))).length
        if count = 0 then do
          note (.text { snapshot with content := snapshot.content.take total })
          pure (snapshot.content.take total)
        else readLoop context pid file limit fuel (some snapshot) (total + count)
      | _, _ => raise (error .ioError ("failed while reading /proc process " ++ file.name))

/-- Each round takes a moment, so that the bound is never what ends the loop. -/
def readProcText (context : OperationContext) (pid : Nat) (file : ProcFile) (limit : Nat) (optionalFile : Bool) :
    Call Bytes := do
  checkStop context
  openProc file optionalFile
  fun s => readLoop context pid file limit (s.moments.length + 1) none 0 s

structure ProcessPolicyLimits where
  maxProcesses : Nat := 16
  maxNameBytes : Nat := 64
  maxStatBytes : Nat := 8 * 1024
  maxStatusBytes : Nat := 64 * 1024
  maxStatmBytes : Nat := 4 * 1024
  maxSmapsRollupBytes : Nat := 256 * 1024
  allowLegacyProcessPinning : Bool := false
  deriving DecidableEq, Repr

def observeIdentity (context : OperationContext) (limits : ProcessPolicyLimits) (pid : Nat) : Call StatIdentity := do
  let text ← readProcText context pid .stat limits.maxStatBytes false
  lift (readIdentity (.ok text))

def failIfExited (hasPidfd : Bool) (message : String) : Call Unit :=
  if hasPidfd then do
    let m ← next
    lift (failIf m.exited .processMissing message)
  else pure ()

/-- `::geteuid()` -/
def effectiveUser : Call Nat := do
  let m ← next
  note (.user m.effectiveUid)
  pure m.effectiveUid

/-! ### `ProcessPolicy::create` -/

structure ProcessTargetConfig where
  name : Bytes
  pid : Option Nat
  deriving DecidableEq, Repr

def openPidfd (limits : ProcessPolicyLimits) : Call Bool := do
  let m ← next
  match m.opens with
  | none => do
    failIfExited true "configured process exited during startup"
    pure true
  | some (.unsupported _) =>
    if limits.allowLegacyProcessPinning then pure false
    else raise (error .kernelUnsupported "pidfd process pinning is unavailable")
  | some failure => raise (mapProcOpenError failure "pidfd")

def openDirectory : Call Unit := do
  let m ← next
  match m.opens with
  | none => pure ()
  | some failure => raise (mapProcOpenError failure "directory")

/-- `::getpid()` -/
def ownPid : Call Nat := do
  let m ← next
  pure m.serverPid

def resolvePid (target : ProcessTargetConfig) : Call Nat := do
  let pid ← target.pid.elim ownPid pure
  lift (failIf (pid = 0 || 2 ^ 31 ≤ pid) .invalidPid "configured process PID is outside the accepted range")
  pure pid

/-- The second identity must be there and have the same start time. -/
def confirms (identity : StatIdentity) (confirmed : Outcome StatIdentity) : Bool :=
  match confirmed with
  | .ok i => i.startTimeTicks == identity.startTimeTicks
  | .error _ => false

/-- One round of the loop of `create`, after the name has been checked. -/
def pinTarget (limits : ProcessPolicyLimits) (target : ProcessTargetConfig) :
    Call { handle : ProcessHandle // handle.name = target.name } := do
  let pid ← resolvePid target
  let hasPidfd ← openPidfd limits
  openDirectory
  let statusText ← readProcText .unlimited pid .status limits.maxStatusBytes false
  let status ← lift (orError (parseStatus statusText) .malformedProcData
    "could not parse bounded /proc process status data")
  let user ← effectiveUser
  lift (failIf (status.effectiveUid != user) .differentUser
    "configured process does not share the server effective UID")
  let identity ← observeIdentity .unlimited limits pid
  failIfExited hasPidfd "configured process exited while procfs identity was opened"
  let confirmed ← attempt (observeIdentity .unlimited limits pid)
  lift (failIf (!confirms identity confirmed) .processChanged "configured process changed while it was being pinned")
  return ⟨{
    name := target.name
    pid := pid
    uid := status.effectiveUid
    startTimeTicks := identity.startTimeTicks
    hasPidfd := hasPidfd }, rfl⟩

def pinTargets (limits : ProcessPolicyLimits) : List ProcessTargetConfig → ProcessPolicy → Call ProcessPolicy
  | [], policy => pure policy
  | target :: targets, policy =>
    if h : validProcessName target.name policy.maxNameBytes = true then
      if policy.processes.any (·.name == target.name) then
        raise (error .duplicateProcess "process names must be unique")
      else do
        let handle ← pinTarget limits target
        pinTargets limits targets (policy.add handle.1 (by rw [handle.2]; exact h))
    else raise (error .invalidProcessName "process name contains unsupported characters")

/-- `ProcessPolicy::create` -/
def create (limits : ProcessPolicyLimits) (processes : List ProcessTargetConfig) : Call ProcessPolicy := do
  lift (failIf (processes.isEmpty || limits.maxProcesses < processes.length) .tooManyProcesses
    "configuration must contain between one and the process limit")
  let root ← next
  lift (failIf root.opens.isSome .procUnavailable "could not open the proc filesystem")
  pinTargets limits processes ⟨[], limits.maxNameBytes, by simp⟩

/-! ### `ProcessPolicy::inspect_memory` -/

/-- The end of an observation: the process must still be there. -/
def confirmTarget (limits : ProcessPolicyLimits) (target : ProcessHandle) (before : StatIdentity) : Call Unit := do
  let after ← observeIdentity .operation limits target.pid
  lift (failIf (after.startTimeTicks != target.startTimeTicks || after.name != before.name) .processChanged
    "configured process changed during observation")
  failIfExited target.hasPidfd "configured process exited during observation"

def observeTarget (limits : ProcessPolicyLimits) (target : ProcessHandle) : Call ProcessMemoryResult := do
  failIfExited target.hasPidfd "configured process has exited"
  let before ← observeIdentity .operation limits target.pid
  lift (failIf (before.startTimeTicks != target.startTimeTicks) .processChanged
    "configured process identity no longer matches startup")
  let statusText ← readProcText .operation target.pid .status limits.maxStatusBytes false
  let status ← lift (orError (parseStatus statusText) .malformedProcData
    "could not parse bounded /proc process status data")
  lift (failIf (status.effectiveUid != target.uid) .differentUser "configured process credentials changed")
  let user ← effectiveUser
  lift (failIf (status.effectiveUid != user) .differentUser "configured process credentials changed")
  let page ← next
  lift (failIf (page.pageSize ≤ 0) .ioError "could not determine the system page size")
  let statmText ← readProcText .operation target.pid .statm limits.maxStatmBytes false
  let statm ← lift (orError (parseStatm statmText page.pageSize.toNat) .malformedProcData
    "could not parse bounded /proc process statm data")
  let rollupText ← attempt (readProcText .operation target.pid .smapsRollup limits.maxSmapsRollupBytes true)
  let rollup ← lift (readRollup rollupText)
  confirmTarget limits target before
  return {
    process := target.name
    pid := target.pid
    uid := target.uid
    name := status.name
    state := status.state
    threads := status.threads
    pageSizeBytes := page.pageSize.toNat
    pidfdPinned := target.hasPidfd
    status := status.memory
    statm := statm
    smapsRollupAvailable := rollup.1.isSome
    smapsRollupError := rollup.2
    smapsRollup := rollup.1 }

def observeMemory (limits : ProcessPolicyLimits) (policy : ProcessPolicy) (processName : Bytes) :
    Call ProcessMemoryResult := do
  checkStop .operation
  match policy.processes.find? (·.name == processName) with
  | none => raise (error .unknownProcess "requested process is not configured")
  | some target => observeTarget limits target

end ProcessObservation

end NativeMcp
