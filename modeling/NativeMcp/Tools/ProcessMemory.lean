import NativeMcp.Scheduler.Model
import NativeMcp.Tools.Definitions
import NativeMcp.Tools.ProcessParsing

/-!
# Observing the memory of a process

`ProcessPolicy::inspect_memory` over what its system calls return, and the result of `proc.memory`.  All of the result
but the name and the state that `status` reports is UTF-8 for every observation, and these two are copied unescaped:
the result is UTF-8 exactly when they are.
-/

namespace NativeMcp

open Json ProcessParsing

inductive ProcessMemoryErrorCode where
  | invalidConfig
  | tooManyProcesses
  | invalidProcessName
  | invalidPid
  | duplicateProcess
  | kernelUnsupported
  | processMissing
  | permissionDenied
  | differentUser
  | processChanged
  | procUnavailable
  | malformedProcData
  | dataTooLarge
  | ioError
  | unknownProcess
  | cancelled
  | deadlineExceeded
  deriving DecidableEq, Repr

def processMemoryErrorName : ProcessMemoryErrorCode → String
  | .invalidConfig => "invalid_config"
  | .tooManyProcesses => "process_count_invalid"
  | .invalidProcessName => "invalid_process_name"
  | .invalidPid => "invalid_pid"
  | .duplicateProcess => "duplicate_process"
  | .kernelUnsupported => "kernel_unsupported"
  | .processMissing => "process_missing"
  | .permissionDenied => "permission_denied"
  | .differentUser => "different_user"
  | .processChanged => "process_changed"
  | .procUnavailable => "proc_unavailable"
  | .malformedProcData => "malformed_proc_data"
  | .dataTooLarge => "proc_data_too_large"
  | .ioError => "io_error"
  | .unknownProcess => "unknown_process"
  | .cancelled => "cancelled"
  | .deadlineExceeded => "deadline_exceeded"

structure ProcessMemoryError where
  code : ProcessMemoryErrorCode
  message : Bytes
  deriving DecidableEq, Repr

namespace ProcessMemory

def error (code : ProcessMemoryErrorCode) (message : String) : ProcessMemoryError := ⟨code, bytes message⟩

def operationError : OperationStopReason → Option ProcessMemoryError
  | .none => none
  | .cancelled => some (error .cancelled "process observation was cancelled")
  | .deadlineExceeded => some (error .deadlineExceeded "process observation exceeded its deadline")

/-- Letters, digits, `-` and `_`. -/
def isNameByte (b : UInt8) : Bool :=
  isDigit b || (0x41 ≤ b && b ≤ 0x5A) || (0x61 ≤ b && b ≤ 0x7A) || b == 0x2D || b == 0x5F

def validProcessName (name : Bytes) (maximum : Nat) : Bool :=
  name ≠ [] && name.length ≤ maximum && name.all isNameByte

structure ProcessHandle where
  name : Bytes
  pid : Nat
  uid : Nat
  startTimeTicks : Nat
  hasPidfd : Bool
  deriving DecidableEq, Repr

/-- The pinned processes; `create` admits only valid names. -/
structure ProcessPolicy where
  processes : List ProcessHandle
  maxNameBytes : Nat
  valid : ∀ p ∈ processes, validProcessName p.name maxNameBytes = true

/-- One more process. -/
def ProcessPolicy.add (policy : ProcessPolicy) (handle : ProcessHandle)
    (h : validProcessName handle.name policy.maxNameBytes = true) : ProcessPolicy where
  processes := policy.processes ++ [handle]
  maxNameBytes := policy.maxNameBytes
  valid := by
    intro p hp
    rcases List.mem_append.1 hp with hp | hp
    · exact policy.valid p hp
    · rw [List.mem_singleton.1 hp]
      exact h

/-- What the calls of one inspection return, in the order in which they are made: the stop reason at the start, the
exit of the process as its pidfd shows it, the texts that `read_proc_text` reads or its error, the user and the page
size of the server. -/
structure Observation where
  stopReason : OperationStopReason
  exitedBefore : Bool
  statBefore : Except ProcessMemoryError Bytes
  status : Except ProcessMemoryError Bytes
  effectiveUid : Nat
  pageSize : Int
  statm : Except ProcessMemoryError Bytes
  smapsRollup : Except ProcessMemoryError Bytes
  statAfter : Except ProcessMemoryError Bytes
  exitedAfter : Bool

structure ProcessMemoryResult where
  process : Bytes
  pid : Nat
  uid : Nat
  name : Bytes
  state : Bytes
  threads : Nat
  pageSizeBytes : Nat
  pidfdPinned : Bool
  status : ProcessStatusMemory
  statm : ProcessStatmMemory
  smapsRollupAvailable : Bool
  smapsRollupError : Option String
  smapsRollup : Option ProcessSmapsRollup
  deriving DecidableEq, Repr

abbrev Outcome (α : Type) := Except ProcessMemoryError α

/-- The value, or this error. -/
def orError {α : Type} (value : Option α) (code : ProcessMemoryErrorCode) (message : String) : Outcome α :=
  match value with
  | some v => .ok v
  | none => .error (error code message)

/-- Goes on unless the condition holds. -/
def failIf (condition : Bool) (code : ProcessMemoryErrorCode) (message : String) : Outcome Unit :=
  if condition then .error (error code message) else .ok ()

def readIdentity (stat : Outcome Bytes) : Outcome StatIdentity :=
  stat.bind fun text => orError (parseStatIdentity text) .malformedProcData
    "could not parse bounded /proc process stat data"

/-- What is made of the optional text: the counters, or the name of the error. -/
def readRollup : Outcome Bytes → Outcome (Option ProcessSmapsRollup × Option String)
  | .ok text =>
    (orError (parseSmapsRollup text) .malformedProcData "could not parse bounded smaps_rollup data").map fun rollup =>
      (some rollup, none)
  | .error e => .ok (none, some (processMemoryErrorName e.code))

/-- The observation of a configured process. -/
def inspectTarget (target : ProcessHandle) (o : Observation) : Outcome ProcessMemoryResult := do
  failIf (target.hasPidfd && o.exitedBefore) .processMissing "configured process has exited"
  let before ← readIdentity o.statBefore
  failIf (before.startTimeTicks != target.startTimeTicks) .processChanged
    "configured process identity no longer matches startup"
  let statusText ← o.status
  let status ← orError (parseStatus statusText) .malformedProcData
    "could not parse bounded /proc process status data"
  failIf (status.effectiveUid != target.uid || status.effectiveUid != o.effectiveUid) .differentUser
    "configured process credentials changed"
  failIf (o.pageSize ≤ 0) .ioError "could not determine the system page size"
  let statmText ← o.statm
  let statm ← orError (parseStatm statmText o.pageSize.toNat) .malformedProcData
    "could not parse bounded /proc process statm data"
  let (rollup, rollupError) ← readRollup o.smapsRollup
  let after ← readIdentity o.statAfter
  failIf (after.startTimeTicks != target.startTimeTicks || after.name != before.name) .processChanged
    "configured process changed during observation"
  failIf (target.hasPidfd && o.exitedAfter) .processMissing "configured process exited during observation"
  return {
    process := target.name
    pid := target.pid
    uid := target.uid
    name := status.name
    state := status.state
    threads := status.threads
    pageSizeBytes := o.pageSize.toNat
    pidfdPinned := target.hasPidfd
    status := status.memory
    statm := statm
    smapsRollupAvailable := rollup.isSome
    smapsRollupError := rollupError
    smapsRollup := rollup }

def ProcessPolicy.inspectMemory (policy : ProcessPolicy) (processName : Bytes) (o : Observation) :
    Outcome ProcessMemoryResult :=
  match operationError o.stopReason with
  | some stopped => .error stopped
  | none =>
    match policy.processes.find? (·.name == processName) with
    | none => .error (error .unknownProcess "requested process is not configured")
    | some target => inspectTarget target o

end ProcessMemory

open ProcessMemory

/-! ### `proc.memory` -/

def toolError (code : String) (message : Bytes) : ToolExecutionResult where
  isError := true
  structuredContent := .ofPairs [("error", .ofPairs [("code", .text code), ("message", .string message)])]

def processErrorResult (failure : ProcessMemoryError) : ToolExecutionResult :=
  toolError (processMemoryErrorName failure.code) failure.message

def optionalNumber : Option Nat → Json
  | some n => .numberUnsigned n
  | none => .null

def statusMemoryJson (memory : ProcessStatusMemory) : Json :=
  .ofPairs [("vmPeakBytes", optionalNumber memory.vmPeakBytes), ("vmSizeBytes", optionalNumber memory.vmSizeBytes),
    ("vmHwmBytes", optionalNumber memory.vmHwmBytes), ("vmRssBytes", optionalNumber memory.vmRssBytes),
    ("rssAnonBytes", optionalNumber memory.rssAnonBytes), ("rssFileBytes", optionalNumber memory.rssFileBytes),
    ("rssShmemBytes", optionalNumber memory.rssShmemBytes), ("vmDataBytes", optionalNumber memory.vmDataBytes),
    ("vmStackBytes", optionalNumber memory.vmStackBytes),
    ("vmExecutableBytes", optionalNumber memory.vmExecutableBytes),
    ("vmLibraryBytes", optionalNumber memory.vmLibraryBytes),
    ("vmPageTableBytes", optionalNumber memory.vmPageTableBytes), ("vmSwapBytes", optionalNumber memory.vmSwapBytes),
    ("hugetlbBytes", optionalNumber memory.hugetlbBytes)]

def rollupJson (rollup : ProcessSmapsRollup) : Json :=
  .ofPairs [("rssBytes", optionalNumber rollup.rssBytes), ("pssBytes", optionalNumber rollup.pssBytes),
    ("pssAnonBytes", optionalNumber rollup.pssAnonBytes), ("pssFileBytes", optionalNumber rollup.pssFileBytes),
    ("pssShmemBytes", optionalNumber rollup.pssShmemBytes),
    ("sharedCleanBytes", optionalNumber rollup.sharedCleanBytes),
    ("sharedDirtyBytes", optionalNumber rollup.sharedDirtyBytes),
    ("privateCleanBytes", optionalNumber rollup.privateCleanBytes),
    ("privateDirtyBytes", optionalNumber rollup.privateDirtyBytes),
    ("referencedBytes", optionalNumber rollup.referencedBytes),
    ("anonymousBytes", optionalNumber rollup.anonymousBytes), ("swapBytes", optionalNumber rollup.swapBytes),
    ("swapPssBytes", optionalNumber rollup.swapPssBytes), ("lockedBytes", optionalNumber rollup.lockedBytes)]

def statmJson (statm : ProcessStatmMemory) : Json :=
  .ofPairs [("virtualBytes", .numberUnsigned statm.virtualBytes),
    ("residentBytes", .numberUnsigned statm.residentBytes), ("sharedBytes", .numberUnsigned statm.sharedBytes),
    ("textBytes", .numberUnsigned statm.textBytes), ("dataAndStackBytes", .numberUnsigned statm.dataAndStackBytes)]

/-- The structured content of a successful observation. -/
def processContent (result : ProcessMemoryResult) : Json :=
  .ofPairs [("process", .string result.process), ("pid", .numberUnsigned result.pid),
    ("uid", .numberUnsigned result.uid), ("name", .string result.name), ("state", .string result.state),
    ("threads", .numberUnsigned result.threads), ("pageSizeBytes", .numberUnsigned result.pageSizeBytes),
    ("pidfdPinned", .boolean result.pidfdPinned), ("status", statusMemoryJson result.status),
    ("statm", statmJson result.statm), ("smapsRollupAvailable", .boolean result.smapsRollupAvailable),
    ("smapsRollupError", match result.smapsRollupError with | some e => .text e | none => .null),
    ("smapsRollup", match result.smapsRollup with | some rollup => rollupJson rollup | none => .null)]

/-- `has_only_fields` -/
def hasOnlyFields (object : Json) (allowed : List String) : Bool :=
  match object with
  | .object m => m.all fun p => allowed.any fun field => p.1 == bytes field
  | _ => true

/-- A nonempty string argument. -/
def requiredString (arguments : Json) (name : String) : Option Bytes :=
  (arguments.find? name).bind fun
    | .string [] => none
    | .string s => some s
    | _ => none

def executeProcess (inspectMemory : Bytes → Outcome ProcessMemoryResult) (arguments : Json) : ToolExecutionResult :=
  if !arguments.isObject || !hasOnlyFields arguments ["process"] then
    toolError "invalid_arguments" (bytes "proc.memory arguments must match the closed schema")
  else
    match requiredString arguments "process" with
    | none => toolError "invalid_arguments" (bytes "process must be a nonempty string")
    | some process =>
      match inspectMemory process with
      | .error failure => processErrorResult failure
      | .ok result => ⟨false, processContent result⟩

end NativeMcp
