import NativeMcp.Tools.ElfAnalysis
import NativeMcp.Tools.FilePolicy
import NativeMcp.Tools.LogAnalysis
import NativeMcp.Tools.ProcessMemory

/-!
# The execution of a tool call

`ToolService::execute`: the arguments are checked field by field, the file is opened, and the analyzer's result becomes the
structured content.  What the world does to one call (the rate limiter, the file, the reads, the stop conditions) is given
by its `Surroundings`.
-/

namespace NativeMcp

open Json FilePolicy ProcessMemory

/-! ### Errors -/

def policyErrorResult (failure : PolicyError) : ToolExecutionResult :=
  toolError (policyErrorName failure.code) failure.message

def analysisErrorResult (failure : LogAnalysisError) : ToolExecutionResult :=
  toolError (logAnalysisErrorName failure.code) (bytes failure.message)

def elfErrorResult (failure : ElfAnalysisError) : ToolExecutionResult :=
  toolError (elfAnalysisErrorName failure.code) failure.message

def invalidArguments (message : String) : ToolExecutionResult := toolError "invalid_arguments" (bytes message)

/-! ### Arguments -/

def optionalBoundedSize (arguments : Json) (name : String) (fallback maximum : Nat) : Option Nat :=
  match arguments.find? name with
  | none => some fallback
  | some (.numberUnsigned raw) => if raw = 0 ∨ maximum < raw then none else some raw
  | some _ => none

/-- A boolean argument, with its value where it is absent. -/
def optionalBoolean (arguments : Json) (name : String) (fallback : Bool) : Option Bool :=
  match arguments.find? name with
  | none => some fallback
  | some (.boolean b) => some b
  | some _ => none

/-- What the world does to one call: whether the rate limiter grants it, what opening its path gives, the stop reason when
an analyzer starts and the turns of its reads, what inspecting the file and observing the process give. -/
structure Surroundings where
  granted : Bool
  opened : RootHandle → Bytes → Except PolicyError ReadOnlyFile
  stopReason : OperationStopReason
  turns : List ReadTurn
  inspected : ReadOnlyFile → Except ElfAnalysisError ElfInspectionResult
  observation : Observation

/-! ### The tools -/

def searchContent (root path : Bytes) (caseSensitive : Bool) (result : LogSearchResult) : Json :=
  .ofPairs [("root", .string root), ("path", .string path), ("caseSensitive", .boolean caseSensitive),
    ("bytesScanned", .numberUnsigned result.bytesScanned), ("linesScanned", .numberUnsigned result.linesScanned),
    ("matchLimitReached", .boolean result.matchLimitReached),
    ("fileChangedDuringRead", .boolean result.fileChangedDuringRead),
    ("matches", .array (result.lineMatches.map fun found =>
      .ofPairs [("line", .numberUnsigned found.lineNumber), ("byteOffset", .numberUnsigned found.byteOffset),
        ("preview", .string found.preview), ("previewTruncatedStart", .boolean found.previewTruncatedStart),
        ("previewTruncatedEnd", .boolean found.previewTruncatedEnd)]))]

/-- `none` while the search is reading. -/
def executeSearch (policy : FilesystemPolicy) (limits : LogAnalysisLimits) (arguments : Json) (s : Surroundings) :
    Option ToolExecutionResult :=
  if !arguments.isObject || !hasOnlyFields arguments ["root", "path", "query", "caseSensitive", "maxMatches"] then
    some (invalidArguments "logs.search arguments must match the closed schema")
  else
    match requiredString arguments "root", requiredString arguments "path", requiredString arguments "query" with
    | some root, some path, some query =>
      match optionalBoolean arguments "caseSensitive" true with
      | none => some (invalidArguments "caseSensitive must be a boolean")
      | some caseSensitive =>
        match optionalBoundedSize arguments "maxMatches" 20 limits.maxMatches with
        | none => some (invalidArguments "maxMatches must be a positive bounded integer")
        | some maxMatches =>
          match policy.openRegularFile root path (s.opened · path) with
          | .error failure => some (policyErrorResult failure)
          | .ok file =>
            (LogAnalyzer.search limits file ⟨query, caseSensitive, maxMatches⟩ s.stopReason s.turns).map fun
              | .error failure => analysisErrorResult failure
              | .ok result => ⟨false, searchContent root path caseSensitive result⟩
    | _, _, _ => some (invalidArguments "root, path, and query must be nonempty strings")

def tailContent (root path : Bytes) (result : LogTailResult) : Json :=
  .ofPairs [("root", .string root), ("path", .string path), ("bytesScanned", .numberUnsigned result.bytesScanned),
    ("linesScanned", .numberUnsigned result.linesScanned),
    ("fileChangedDuringRead", .boolean result.fileChangedDuringRead),
    ("lines", .array (result.lines.map fun line =>
      .ofPairs [("line", .numberUnsigned line.lineNumber), ("byteOffset", .numberUnsigned line.byteOffset),
        ("preview", .string line.preview), ("previewTruncatedStart", .boolean line.previewTruncatedStart)]))]

def executeTail (policy : FilesystemPolicy) (limits : LogAnalysisLimits) (arguments : Json) (s : Surroundings) :
    Option ToolExecutionResult :=
  if !arguments.isObject || !hasOnlyFields arguments ["root", "path", "maxLines"] then
    some (invalidArguments "logs.tail arguments must match the closed schema")
  else
    match requiredString arguments "root", requiredString arguments "path" with
    | some root, some path =>
      match optionalBoundedSize arguments "maxLines" 20 limits.maxTailLines with
      | none => some (invalidArguments "maxLines must be a positive bounded integer")
      | some maxLines =>
        match policy.openRegularFile root path (s.opened · path) with
        | .error failure => some (policyErrorResult failure)
        | .ok file =>
          (LogAnalyzer.tail limits file ⟨maxLines⟩ s.stopReason s.turns).map fun
            | .error failure => analysisErrorResult failure
            | .ok result => ⟨false, tailContent root path result⟩
    | _, _ => some (invalidArguments "root and path must be nonempty strings")

def optionalText : Option Bytes → Json
  | some s => .string s
  | none => .null

def elfContent (root path : Bytes) (result : ElfInspectionResult) : Json :=
  .ofPairs [("root", .string root), ("path", .string path), ("class", .string result.elfClass),
    ("endianness", .string result.endianness), ("fileType", .string result.fileType),
    ("fileTypeNumber", .numberUnsigned result.fileTypeNumber), ("machine", .string result.machine),
    ("machineNumber", .numberUnsigned result.machineNumber), ("osAbi", .string result.osAbi),
    ("osAbiNumber", .numberUnsigned result.osAbiNumber), ("entryPoint", .string result.entryPoint),
    ("programHeaderCount", .numberUnsigned result.programHeaderCount),
    ("interpreter", optionalText result.interpreter),
    ("neededLibraries", .array (result.neededLibraries.map .string)),
    ("neededLibrariesTruncated", .boolean result.neededLibrariesTruncated), ("buildId", optionalText result.buildId),
    ("stackPolicy", .string result.stackPolicy), ("relro", .string result.relro),
    ("positionIndependent", .boolean result.positionIndependent), ("pieExecutable", .boolean result.pieExecutable),
    ("writableExecutableLoadSegment", .boolean result.writableExecutableLoadSegment),
    ("fileChangedDuringRead", .boolean result.fileChangedDuringRead),
    ("metadataBytesRead", .numberUnsigned result.metadataBytesRead),
    ("segments", .array (result.segments.map fun segment =>
      .ofPairs [("type", .string segment.type), ("flags", .string segment.flags),
        ("fileOffset", .numberUnsigned segment.fileOffset), ("fileSize", .numberUnsigned segment.fileSize),
        ("memorySize", .numberUnsigned segment.memorySize), ("virtualAddress", .string segment.virtualAddress)])),
    ("segmentSummariesTruncated", .boolean result.segmentSummariesTruncated)]

def executeElf (policy : FilesystemPolicy) (arguments : Json) (s : Surroundings) : ToolExecutionResult :=
  if !arguments.isObject || !hasOnlyFields arguments ["root", "path"] then
    invalidArguments "elf.inspect arguments must match the closed schema"
  else
    match requiredString arguments "root", requiredString arguments "path" with
    | some root, some path =>
      match policy.openRegularFile root path (s.opened · path) with
      | .error failure => policyErrorResult failure
      | .ok file =>
        match s.inspected file with
        | .error failure => elfErrorResult failure
        | .ok result => ⟨false, elfContent root path result⟩
    | _, _ => invalidArguments "root and path must be nonempty strings"

/-! ### The service -/

/-- A `ToolService` with its policies. -/
structure Service where
  filesystem : Option FilesystemPolicy := none
  process : Option ProcessPolicy := none
  logLimits : LogAnalysisLimits := {}
  elfLimits : ElfInspectionLimits := {}

namespace Service

/-- What decides the definitions. -/
def tools (service : Service) : ToolService where
  hasFilesystemPolicy := service.filesystem.isSome
  hasProcessPolicy := service.process.isSome
  logLimits := service.logLimits
  elfLimits := service.elfLimits

/-- `ToolService::execute`, `none` while it is reading. -/
def execute (service : Service) (name : Bytes) (arguments : Json) (s : Surroundings) : Option ToolExecutionResult :=
  if !s.granted then some (toolError "rate_limited" (bytes "too many tool calls; retry after a short pause"))
  else
    (if name = bytes kSearchTool then service.filesystem.map (executeSearch · service.logLimits arguments s)
      else if name = bytes kTailTool then service.filesystem.map (executeTail · service.logLimits arguments s)
      else if name = bytes kElfInspectTool then service.filesystem.map fun policy => some (executeElf policy arguments s)
      else if name = bytes kProcessMemoryTool then
        service.process.map fun policy => some (executeProcess (policy.inspectMemory · s.observation) arguments)
      else none).getD (some (toolError "unknown_tool" (bytes "requested tool is not available")))

end Service

end NativeMcp
