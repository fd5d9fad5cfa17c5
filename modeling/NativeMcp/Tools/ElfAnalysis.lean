import NativeMcp.Lib.Program
import NativeMcp.Tools.LogAnalysis

/-!
# Inspecting ELF files

`ElfAnalyzer::inspect` over an arbitrary file, call by call: what each `pread` returns, what each check of the stop
conditions finds and what `fstat` says come from outside.

What the C++ code must never do is an exception of its own here: an index behind the end of a buffer (`outOfBounds`), and
an unchecked 64-bit operation whose value wraps (`wrapped`).
-/

namespace NativeMcp

inductive ElfAnalysisErrorCode where
  | invalidFormat
  | unsupportedFeature
  | metadataTooLarge
  | readFailed
  | cancelled
  | deadlineExceeded
  deriving DecidableEq, Repr

def elfAnalysisErrorName : ElfAnalysisErrorCode → String
  | .invalidFormat => "invalid_elf"
  | .unsupportedFeature => "unsupported_elf_feature"
  | .metadataTooLarge => "elf_metadata_too_large"
  | .readFailed => "elf_read_failed"
  | .cancelled => "cancelled"
  | .deadlineExceeded => "deadline_exceeded"

structure ElfAnalysisError where
  code : ElfAnalysisErrorCode
  message : Bytes
  deriving DecidableEq, Repr

structure ElfSegmentSummary where
  type : Bytes
  flags : Bytes
  fileOffset : Nat
  fileSize : Nat
  memorySize : Nat
  virtualAddress : Bytes
  deriving DecidableEq, Repr

structure ElfInspectionResult where
  elfClass : Bytes
  endianness : Bytes
  fileType : Bytes
  fileTypeNumber : Nat
  machine : Bytes
  machineNumber : Nat
  osAbi : Bytes
  osAbiNumber : Nat
  entryPoint : Bytes
  programHeaderCount : Nat
  interpreter : Option Bytes
  neededLibraries : List Bytes
  neededLibrariesTruncated : Bool
  buildId : Option Bytes
  stackPolicy : Bytes
  relro : Bytes
  positionIndependent : Bool
  pieExecutable : Bool
  writableExecutableLoadSegment : Bool
  fileChangedDuringRead : Bool
  metadataBytesRead : Nat
  segments : List ElfSegmentSummary
  segmentSummariesTruncated : Bool
  deriving DecidableEq, Repr

namespace ElfAnalyzer

open Program

inductive Fault where
  | error (e : ElfAnalysisError)
  | outOfBounds
  | wrapped
  deriving DecidableEq, Repr

/-- What `same_snapshot` compares. -/
structure Snapshot where
  device : Nat
  inode : Nat
  mode : Nat
  size : Int
  modifiedSeconds : Int
  modifiedNanoseconds : Int
  changedSeconds : Int
  changedNanoseconds : Int
  deriving DecidableEq, Repr

/-- A call of `pread`: where, how much was asked for and how much came. -/
structure Pread where
  offset : Nat
  requested : Nat
  count : Nat
  deriving DecidableEq, Repr

/-- What comes from outside, and what has been done.  A `pread` behind the last turn returns all that is there. -/
structure Inspecting where
  stopReason : Nat → OperationStopReason
  turns : List ReadResult
  before : Option Snapshot
  after : Option Snapshot
  checks : Nat := 0
  bytesRead : Nat := 0
  log : List Pread := []

abbrev Elf (α : Type) := Program Inspecting Fault α

def fail {α : Type} (code : ElfAnalysisErrorCode) (message : String) : Elf α := raise (.error ⟨code, bytes message⟩)

def operationError : OperationStopReason → Option ElfAnalysisError
  | .cancelled => some ⟨.cancelled, bytes "ELF inspection was cancelled"⟩
  | .deadlineExceeded => some ⟨.deadlineExceeded, bytes "ELF inspection exceeded its deadline"⟩
  | .none => none

def nextStopReason : Elf OperationStopReason := fun s =>
  (.returned (s.stopReason s.checks), { s with checks := s.checks + 1 })

def checkOperation : Elf Unit := do
  let reason ← nextStopReason
  match operationError reason with
  | some stopped => raise (.error stopped)
  | none => pure ()

/-! ### Arithmetic -/

def kMaxUint64 : Nat := 2 ^ 64 - 1

def checkedAdd (left right : Nat) : Option Nat := if kMaxUint64 - left < right then none else some (left + right)

def checkedMultiply (left right : Nat) : Option Nat :=
  if left ≠ 0 ∧ kMaxUint64 / left < right then none else some (left * right)

/-- A 64-bit value that the code takes as it is. -/
def fitting (value : Nat) : Elf Nat := if value ≤ kMaxUint64 then pure value else raise .wrapped

def rangeInside (offset size limit : Nat) : Bool :=
  match checkedAdd offset size with
  | some last => last ≤ limit
  | none => false

/-! ### Reading the file -/

structure Reader where
  file : ReadOnlyFile
  metadataLimit : Nat

def Reader.fileLimit (reader : Reader) : Nat := min reader.file.observedSize reader.file.maxReadBytes

inductive PreadResult where
  | interrupted
  | failed
  | returned (data : Bytes)

/-- `::pread` -/
def pread (file : ReadOnlyFile) (offset requested : Nat) : Elf PreadResult := fun s =>
  let result := match s.turns.headD (.returned requested) with
    | .interrupted => PreadResult.interrupted
    | .failed => .failed
    | .returned short => .returned (LogAnalyzer.pread file requested offset short)
  let count := match result with
    | .returned data => data.length
    | _ => 0
  (.returned result, { s with turns := s.turns.tail, log := s.log ++ [⟨offset, requested, count⟩] })

/-- The loop of `Reader::read`, with a bound on its rounds. -/
def readLoop (file : ReadOnlyFile) (offset size : Nat) : Nat → Bytes → Elf Bytes
  | 0, _ => suspend
  | fuel + 1, output =>
    if output.length < size then do
      checkOperation
      let position ← fitting (offset + output.length)
      let result ← pread file position (size - output.length)
      match result with
      | .interrupted => readLoop file offset size fuel output
      | .failed => fail .readFailed "failed while reading bounded ELF metadata"
      | .returned data =>
        if data = [] then fail .invalidFormat "ELF metadata ended unexpectedly"
        else readLoop file offset size fuel (output ++ data)
    else pure output

/-- Each round takes a turn or at least one byte, so that the bound is never what ends the loop. -/
def readAll (file : ReadOnlyFile) (offset size : Nat) : Elf Bytes := fun s =>
  readLoop file offset size (s.turns.length + size + 1) [] s

/-- `Reader::read` -/
def Reader.read (reader : Reader) (offset size : Nat) : Elf Bytes := do
  checkOperation
  if !rangeInside offset size reader.fileLimit then
    fail .invalidFormat "ELF metadata points outside the approved file range"
  else do
    let s ← get
    if reader.metadataLimit - min s.bytesRead reader.metadataLimit < size then
      fail .metadataTooLarge "ELF metadata exceeds the inspection byte budget"
    else do
      let output ← readAll reader.file offset size
      let total ← fitting (s.bytesRead + size)
      modify fun s => { s with bytesRead := total }
      pure output

/-! ### Reading a buffer -/

def byteAt (data : Bytes) (index : Nat) : Elf UInt8 :=
  match data[index]? with
  | some value => pure value
  | none => raise .outOfBounds

/-- The bytes that are read from `start` on. -/
def bytesAt (data : Bytes) (start size : Nat) : Elf Bytes :=
  if start + size ≤ data.length then pure ((data.drop start).take size) else raise .outOfBounds

def readU16 (data : Bytes) (offset : Nat) (little : Bool) : Elf Nat := do
  let first ← byteAt data offset
  let second ← byteAt data (offset + 1)
  pure (if little then first.toNat ||| second.toNat <<< 8 else second.toNat ||| first.toNat <<< 8)

/-- The loops of `read_u32` and `read_u64`. -/
def readUint (data : Bytes) (offset : Nat) (little : Bool) : Nat → Nat → Nat → Elf Nat
  | _, 0, value => pure value
  | index, count + 1, value => do
    let next ← byteAt data (offset + index)
    readUint data offset little (index + 1) count
      (if little then value ||| next.toNat <<< (index * 8) else value <<< 8 ||| next.toNat)

def readU32 (data : Bytes) (offset : Nat) (little : Bool) : Elf Nat := readUint data offset little 0 4 0

def readU64 (data : Bytes) (offset : Nat) (little : Bool) : Elf Nat := readUint data offset little 0 8 0

/-- `is_64 ? read_u64(…) : read_u32(…)` -/
def readWord (data : Bytes) (offset : Nat) (is64 little : Bool) : Elf Nat :=
  if is64 then readU64 data offset little else readU32 data offset little

/-! ### Texts -/

def hexDigit (value : UInt8) : UInt8 := LogAnalyzer.hex.getD value.toNat 0

def hexByte (value : UInt8) : Bytes := [hexDigit (value >>> 4 &&& 0x0F), hexDigit (value &&& 0x0F)]

def bytesToHex (data : Bytes) : Bytes := data.flatMap hexByte

def escapeBytes (data : Bytes) : Bytes :=
  data.flatMap fun value =>
    if 0x20 ≤ value ∧ value ≤ 0x7E ∧ value ≠ 0x5C then [value]
    else if value = 0x5C then bytes "\\\\"
    else bytes "\\x" ++ hexByte value

def hexValue (value : Nat) : Bytes := bytes ("0x" ++ String.ofList ((Nat.toDigits 16 value).map Char.toUpper))

def fileTypeName (type : Nat) : Bytes :=
  bytes (match type with
    | 0 => "none"
    | 1 => "relocatable"
    | 2 => "executable"
    | 3 => "shared_object"
    | 4 => "core"
    | _ => "unknown")

def machineName (machine : Nat) : Bytes :=
  bytes (match machine with
    | 0 => "none"
    | 3 => "x86"
    | 62 => "x86_64"
    | 40 => "arm"
    | 183 => "aarch64"
    | 8 => "mips"
    | 243 => "riscv"
    | 20 => "powerpc"
    | 21 => "powerpc64"
    | 22 => "s390"
    | _ => "unknown")

def osAbiName (abi : UInt8) : Bytes :=
  bytes (match abi.toNat with
    | 0 => "system_v"
    | 3 => "linux"
    | 9 => "freebsd"
    | 2 => "netbsd"
    | 6 => "solaris"
    | _ => "unknown")

def ptLoad : Nat := 1
def ptDynamic : Nat := 2
def ptInterp : Nat := 3
def ptNote : Nat := 4
def ptGnuStack : Nat := 0x6474E551
def ptGnuRelro : Nat := 0x6474E552

def segmentTypeName (type : Nat) : Bytes :=
  bytes (match type with
    | 0 => "null"
    | 1 => "load"
    | 2 => "dynamic"
    | 3 => "interpreter"
    | 4 => "note"
    | 6 => "program_headers"
    | 7 => "tls"
    | 0x6474E550 => "gnu_eh_frame"
    | 0x6474E551 => "gnu_stack"
    | 0x6474E552 => "gnu_relro"
    | _ => "other")

def isReadable (flags : Nat) : Bool := flags &&& 4 != 0
def isWritable (flags : Nat) : Bool := flags &&& 2 != 0
def isExecutable (flags : Nat) : Bool := flags &&& 1 != 0

def segmentFlags (flags : Nat) : Bytes :=
  [if isReadable flags then 0x52 else 0x2D, if isWritable flags then 0x57 else 0x2D,
    if isExecutable flags then 0x58 else 0x2D]

/-! ### The headers -/

structure Header where
  is64 : Bool
  little : Bool
  osAbi : UInt8
  type : Nat
  machine : Nat
  entry : Nat
  programOffset : Nat
  programEntrySize : Nat
  programCount : Nat
  deriving DecidableEq, Repr

structure ProgramHeader where
  type : Nat
  flags : Nat
  offset : Nat
  virtualAddress : Nat
  fileSize : Nat
  memorySize : Nat
  deriving DecidableEq, Repr

/-- The class, the byte order and the ABI. -/
def checkIdentification (identification : Bytes) : Elf (Bool × Bool × UInt8) := do
  let magic0 ← byteAt identification 0
  let magic1 ← byteAt identification 1
  let magic2 ← byteAt identification 2
  let magic3 ← byteAt identification 3
  if magic0 ≠ 0x7F ∨ magic1 ≠ 0x45 ∨ magic2 ≠ 0x4C ∨ magic3 ≠ 0x46 then
    fail .invalidFormat "file does not contain the ELF magic value"
  else do
    let elfClass ← byteAt identification 4
    if elfClass ≠ 2 ∧ elfClass ≠ 1 then fail .unsupportedFeature "ELF class is not 32-bit or 64-bit"
    else do
      let dataEncoding ← byteAt identification 5
      if dataEncoding ≠ 1 ∧ dataEncoding ≠ 2 then fail .unsupportedFeature "ELF byte order is unsupported"
      else do
        let version ← byteAt identification 6
        if version ≠ 1 then fail .invalidFormat "ELF identification version is invalid"
        else do
          let osAbi ← byteAt identification 7
          pure (elfClass == 2, dataEncoding == 1, osAbi)

def headerSize (is64 : Bool) : Nat := if is64 then 64 else 52

def programHeaderSize (is64 : Bool) : Nat := if is64 then 56 else 32

/-- The fields of the header after its identification, and the checks up to the program-header table. -/
def checkHeader (limits : ElfInspectionLimits) (fileLimit : Nat) (is64 little : Bool) (osAbi : UInt8) (header : Bytes) :
    Elf Header := do
  let type ← readU16 header 16 little
  let machine ← readU16 header 18 little
  let version ← readU32 header 20 little
  if version ≠ 1 then fail .invalidFormat "ELF header version is invalid"
  else do
    let entry ← readWord header 24 is64 little
    let programOffset ← readWord header (if is64 then 32 else 28) is64 little
    let size ← readU16 header (if is64 then 52 else 40) little
    let programEntrySize ← readU16 header (if is64 then 54 else 42) little
    let programCount ← readU16 header (if is64 then 56 else 44) little
    if size ≠ headerSize is64 then fail .invalidFormat "ELF header size is invalid"
    else if programCount = 0xFFFF then
      fail .unsupportedFeature "extended ELF program-header numbering is not supported"
    else if limits.maxProgramHeaders < programCount then
      fail .metadataTooLarge "ELF program-header count exceeds the inspection limit"
    else if 0 < programCount ∧
        (programEntrySize ≠ programHeaderSize is64 ∨ limits.maxProgramHeaderEntryBytes < programEntrySize) then
      fail .invalidFormat "ELF program-header entry size is invalid"
    else if !((checkedMultiply programCount programEntrySize).any fun tableSize =>
        rangeInside programOffset tableSize fileLimit) then
      fail .invalidFormat "ELF program-header table is out of range"
    else pure ⟨is64, little, osAbi, type, machine, entry, programOffset, programEntrySize, programCount⟩

/-- The fields of one entry of the program-header table. -/
def parseProgramHeader (is64 little : Bool) (raw : Bytes) : Elf ProgramHeader := do
  let type ← readU32 raw 0 little
  if is64 then do
    let flags ← readU32 raw 4 little
    let offset ← readU64 raw 8 little
    let virtualAddress ← readU64 raw 16 little
    let fileSize ← readU64 raw 32 little
    let memorySize ← readU64 raw 40 little
    pure ⟨type, flags, offset, virtualAddress, fileSize, memorySize⟩
  else do
    let offset ← readU32 raw 4 little
    let virtualAddress ← readU32 raw 8 little
    let fileSize ← readU32 raw 16 little
    let memorySize ← readU32 raw 20 little
    let flags ← readU32 raw 24 little
    pure ⟨type, flags, offset, virtualAddress, fileSize, memorySize⟩

def readProgramHeader (reader : Reader) (header : Header) (index : Nat) : Elf ProgramHeader := do
  let distance ← fitting (index * header.programEntrySize)
  let offset ← fitting (header.programOffset + distance)
  let raw ← reader.read offset header.programEntrySize
  let parsed ← parseProgramHeader header.is64 header.little raw
  if 0 < parsed.fileSize ∧ !rangeInside parsed.offset parsed.fileSize reader.fileLimit then
    fail .invalidFormat "ELF segment points outside the approved file range"
  else if parsed.type = ptLoad ∧ parsed.memorySize < parsed.fileSize then
    fail .invalidFormat "ELF load segment memory size is smaller than its file size"
  else pure parsed

/-- The entries from `index` on. -/
def readProgramHeaders (reader : Reader) (header : Header) : Nat → Nat → Elf (List ProgramHeader)
  | _, 0 => pure []
  | index, count + 1 => do
    let parsed ← readProgramHeader reader header index
    let rest ← readProgramHeaders reader header (index + 1) count
    pure (parsed :: rest)

/-! ### The segments -/

/-- What the loop over the segments has gathered. -/
structure SegmentScan where
  segments : List ElfSegmentSummary := []
  truncated : Bool := false
  writableExecutable : Bool := false
  interpreter : Option Bytes := none
  dynamicSegment : Option ProgramHeader := none
  noteSegments : List ProgramHeader := []
  haveStack : Bool := false
  executableStack : Bool := false
  haveRelro : Bool := false

def summary (program : ProgramHeader) : ElfSegmentSummary where
  type := segmentTypeName program.type
  flags := segmentFlags program.flags
  fileOffset := program.offset
  fileSize := program.fileSize
  memorySize := program.memorySize
  virtualAddress := hexValue program.virtualAddress

def readInterpreter (reader : Reader) (limits : ElfInspectionLimits) (program : ProgramHeader)
    (interpreter : Option Bytes) : Elf (Option Bytes) :=
  if program.type = ptInterp then
    if interpreter.isSome then fail .unsupportedFeature "multiple ELF interpreter segments are unsupported"
    else if program.fileSize = 0 ∨ limits.maxInterpreterBytes < program.fileSize then
      fail .metadataTooLarge "ELF interpreter string exceeds the inspection limit"
    else do
      let data ← reader.read program.offset program.fileSize
      match data.idxOf? 0 with
      | none => fail .invalidFormat "ELF interpreter string is not terminated"
      | some terminator => do
        let text ← bytesAt data 0 terminator
        pure (some (escapeBytes text))
  else pure interpreter

def findDynamic (program : ProgramHeader) (dynamicSegment : Option ProgramHeader) : Elf (Option ProgramHeader) :=
  if program.type = ptDynamic then
    if dynamicSegment.isSome then fail .unsupportedFeature "multiple ELF dynamic segments are unsupported"
    else pure (some program)
  else pure dynamicSegment

/-- One round of the loop. -/
def scanSegment (reader : Reader) (limits : ElfInspectionLimits) (scan : SegmentScan) (program : ProgramHeader) :
    Elf SegmentScan := do
  checkOperation
  let interpreter ← readInterpreter reader limits program scan.interpreter
  let dynamicSegment ← findDynamic program scan.dynamicSegment
  pure {
    segments :=
      if scan.segments.length < limits.maxSegmentSummaries then scan.segments ++ [summary program] else scan.segments
    truncated := scan.truncated || !decide (scan.segments.length < limits.maxSegmentSummaries)
    writableExecutable := scan.writableExecutable ||
      (program.type == ptLoad && isWritable program.flags && isExecutable program.flags)
    interpreter := interpreter
    dynamicSegment := dynamicSegment
    noteSegments := if program.type = ptNote then scan.noteSegments ++ [program] else scan.noteSegments
    haveStack := scan.haveStack || program.type == ptGnuStack
    executableStack := if program.type = ptGnuStack then isExecutable program.flags else scan.executableStack
    haveRelro := scan.haveRelro || program.type == ptGnuRelro }

def scanSegments (reader : Reader) (limits : ElfInspectionLimits) : List ProgramHeader → SegmentScan → Elf SegmentScan
  | [], scan => pure scan
  | program :: programs, scan => do
    let scan ← scanSegment reader limits scan program
    scanSegments reader limits programs scan

/-! ### The dynamic table -/

def dtNull : Nat := 0
def dtNeeded : Nat := 1
def dtStrtab : Nat := 5
def dtStrsz : Nat := 10
def dtBindNow : Nat := 24
def dtFlags : Nat := 30
def dtFlags1 : Nat := 0x6FFFFFFB

structure DynamicScan where
  bindNow : Bool := false
  stringTableAddress : Option Nat := none
  stringTableSize : Option Nat := none
  neededOffsets : List Nat := []
  terminated : Bool := false

/-- `DF_BIND_NOW` and `DF_1_NOW` -/
def bindsNow (tag value : Nat) : Bool :=
  tag == dtBindNow || (tag == dtFlags && value &&& 8 != 0) || (tag == dtFlags1 && value &&& 1 != 0)

/-- One entry that does not end the table. -/
def DynamicScan.add (scan : DynamicScan) (tag value : Nat) : DynamicScan :=
  if tag = dtStrtab then { scan with stringTableAddress := some value }
  else if tag = dtStrsz then { scan with stringTableSize := some value }
  else if tag = dtNeeded then { scan with neededOffsets := scan.neededOffsets ++ [value] }
  else if bindsNow tag value then { scan with bindNow := true }
  else scan

def dynamicEntrySize (is64 : Bool) : Nat := if is64 then 16 else 8

/-- The check before every 64th entry. -/
def checkEntry (index : Nat) : Elf Unit := if index &&& 63 = 0 then checkOperation else pure ()

/-- The entries from `index` on. -/
def scanDynamic (is64 little : Bool) (data : Bytes) : Nat → Nat → DynamicScan → Elf DynamicScan
  | _, 0, scan => pure scan
  | index, count + 1, scan => do
    checkEntry index
    let tag ← readWord data (index * dynamicEntrySize is64) is64 little
    let value ← readWord data (index * dynamicEntrySize is64 + (if is64 then 8 else 4)) is64 little
    if tag = dtNull then pure { scan with terminated := true }
    else scanDynamic is64 little data (index + 1) count (scan.add tag value)

def readDynamic (reader : Reader) (limits : ElfInspectionLimits) (header : Header)
    (dynamicSegment : Option ProgramHeader) : Elf DynamicScan :=
  match dynamicSegment with
  | none => pure {}
  | some segment =>
    if segment.fileSize = 0 then pure {}
    else if segment.fileSize % dynamicEntrySize header.is64 ≠ 0 ∨
        limits.maxDynamicEntries < segment.fileSize / dynamicEntrySize header.is64 then
      fail .metadataTooLarge "ELF dynamic table exceeds the inspection limit"
    else do
      let data ← reader.read segment.offset segment.fileSize
      let scan ← scanDynamic header.is64 header.little data 0 (data.length / dynamicEntrySize header.is64) {}
      if scan.terminated then pure scan else fail .invalidFormat "ELF dynamic table is not terminated"

/-! ### The needed libraries -/

def virtualToFile (headers : List ProgramHeader) (address size : Nat) : Option Nat :=
  match headers with
  | [] => none
  | header :: headers =>
    if header.type ≠ ptLoad ∨ address < header.virtualAddress then virtualToFile headers address size
    else if header.fileSize < address - header.virtualAddress ∨
        header.fileSize - (address - header.virtualAddress) < size then
      virtualToFile headers address size
    else
      match checkedAdd header.offset (address - header.virtualAddress) with
      | some result => some result
      | none => virtualToFile headers address size

/-- The loop that looks for the end of a name, with a bound on its rounds. -/
def nameEnd (limit : Nat) (strings : Bytes) (start : Nat) : Nat → Nat → Elf Nat
  | 0, _ => suspend
  | fuel + 1, position =>
    if position < strings.length then do
      let next ← byteAt strings position
      if next ≠ 0 ∧ position - start ≤ limit then nameEnd limit strings start fuel (position + 1) else pure position
    else pure position

def readName (limits : ElfInspectionLimits) (strings : Bytes) (needed : Nat) : Elf Bytes :=
  if strings.length ≤ needed then fail .invalidFormat "ELF needed-library offset is outside the string table"
  else do
    let last ← nameEnd limits.maxLibraryNameBytes strings needed (strings.length + 1) needed
    if strings.length ≤ last then fail .metadataTooLarge "ELF needed-library name is invalid or too long"
    else do
      let terminator ← byteAt strings last
      if terminator ≠ 0 ∨ limits.maxLibraryNameBytes < last - needed then
        fail .metadataTooLarge "ELF needed-library name is invalid or too long"
      else do
        let name ← bytesAt strings needed (last - needed)
        pure (escapeBytes name)

/-- The names, and whether some were left out. -/
def readNames (limits : ElfInspectionLimits) (strings : Bytes) :
    List Nat → List Bytes → Elf (List Bytes × Bool)
  | [], names => pure (names, false)
  | needed :: rest, names => do
    checkOperation
    if limits.maxNeededLibraries ≤ names.length then pure (names, true)
    else do
      let name ← readName limits strings needed
      readNames limits strings rest (names ++ [name])

def readNeeded (reader : Reader) (limits : ElfInspectionLimits) (headers : List ProgramHeader) (scan : DynamicScan) :
    Elf (List Bytes × Bool) :=
  if scan.neededOffsets = [] then pure ([], false)
  else
    match scan.stringTableAddress, scan.stringTableSize with
    | some address, some size =>
      if limits.maxDynamicStringBytes < size then
        fail .metadataTooLarge "ELF dynamic string table is missing or too large"
      else
        match virtualToFile headers address size with
        | none => fail .invalidFormat "ELF dynamic string table is not backed by a load segment"
        | some offset => do
          let strings ← reader.read offset size
          readNames limits strings scan.neededOffsets []
    | _, _ => fail .metadataTooLarge "ELF dynamic string table is missing or too large"

/-! ### The notes -/

/-- `(value + 3U) & ~std::uint64_t{3U}` -/
def align4 (value : Nat) : Elf Nat := do
  let sum ← fitting (value + 3)
  pure (sum / 4 * 4)

/-- `name[0] == 'G' && name[1] == 'N' && name[2] == 'U' && name[3] == 0U` -/
def isGnu (data : Bytes) (position : Nat) : Elf Bool := do
  let name0 ← byteAt data position
  if name0 ≠ 0x47 then pure false
  else do
    let name1 ← byteAt data (position + 1)
    if name1 ≠ 0x4E then pure false
    else do
      let name2 ← byteAt data (position + 2)
      if name2 ≠ 0x55 then pure false
      else do
        let name3 ← byteAt data (position + 3)
        pure (name3 == 0)

def ntGnuBuildId : Nat := 3

/-- What a note whose range is inside means for the build ID. -/
def takeBuildId (limits : ElfInspectionLimits) (data : Bytes) (position alignedName nameSize descriptionSize type : Nat)
    (buildId : Option Bytes) : Elf (Option Bytes) :=
  if buildId.isNone ∧ type = ntGnuBuildId ∧ nameSize = 4 then do
    let gnu ← isGnu data position
    if gnu then
      if limits.maxBuildIdBytes < descriptionSize then
        fail .metadataTooLarge "GNU build ID exceeds the inspection limit"
      else do
        let description ← bytesAt data (position + alignedName) descriptionSize
        pure (some (bytesToHex description))
    else pure buildId
  else pure buildId

/-- One note: where the next one begins, and the build ID. -/
def parseNote (limits : ElfInspectionLimits) (little : Bool) (data : Bytes) (position : Nat) (buildId : Option Bytes) :
    Elf (Nat × Option Bytes) :=
  if data.length - position < 12 then fail .invalidFormat "ELF note header is truncated"
  else do
    let nameSize ← readU32 data position little
    let descriptionSize ← readU32 data (position + 4) little
    let type ← readU32 data (position + 8) little
    let alignedName ← align4 nameSize
    let alignedDescription ← align4 descriptionSize
    match (checkedAdd (position + 12) alignedName).bind (checkedAdd · alignedDescription) with
    | none => fail .invalidFormat "ELF note payload is out of range"
    | some next =>
      if data.length < next then fail .invalidFormat "ELF note payload is out of range"
      else do
        let buildId ← takeBuildId limits data (position + 12) alignedName nameSize descriptionSize type buildId
        pure (next, buildId)

/-- The inner loop of `parse_notes`, with a bound on its rounds. -/
def parseSegmentNotes (limits : ElfInspectionLimits) (little : Bool) (data : Bytes) :
    Nat → Nat → Option Bytes → Elf (Option Bytes)
  | 0, _, _ => suspend
  | fuel + 1, position, buildId =>
    if position < data.length then do
      let (next, buildId) ← parseNote limits little data position buildId
      parseSegmentNotes limits little data fuel next buildId
    else pure buildId

/-- `parse_notes`, after `noteBytes` bytes of notes. -/
def parseNotes (reader : Reader) (limits : ElfInspectionLimits) (little : Bool) :
    List ProgramHeader → Nat → Option Bytes → Elf (Option Bytes)
  | [], _, buildId => pure buildId
  | header :: headers, noteBytes, buildId =>
    if header.type ≠ ptNote ∨ header.fileSize = 0 then parseNotes reader limits little headers noteBytes buildId
    else if limits.maxNoteBytes - min noteBytes limits.maxNoteBytes < header.fileSize then
      fail .metadataTooLarge "ELF note data exceeds the inspection limit"
    else do
      let noteBytes ← fitting (noteBytes + header.fileSize)
      let data ← reader.read header.offset header.fileSize
      let buildId ← parseSegmentNotes limits little data (data.length + 1) 0 buildId
      parseNotes reader limits little headers noteBytes buildId

/-! ### `ElfAnalyzer::inspect` -/

/-- The identification and the header. -/
def readHeader (reader : Reader) (limits : ElfInspectionLimits) : Elf Header := do
  let identification ← reader.read 0 16
  let (is64, little, osAbi) ← checkIdentification identification
  let header ← reader.read 0 (headerSize is64)
  checkHeader limits reader.fileLimit is64 little osAbi header

def relroName (haveRelro bindNow : Bool) : Bytes :=
  bytes (if !haveRelro then "none" else if bindNow then "full" else "partial")

def stackPolicyName (haveStack executableStack : Bool) : Bytes :=
  bytes (if !haveStack then "unspecified" else if executableStack then "executable" else "non_executable")

def etDyn : Nat := 3

def inspect (limits : ElfInspectionLimits) (file : ReadOnlyFile) : Elf ElfInspectionResult := do
  checkOperation
  let start ← get
  match start.before with
  | none => fail .readFailed "failed to snapshot the approved ELF file"
  | some before =>
    if before.size < 0 then fail .readFailed "failed to snapshot the approved ELF file"
    else do
      let reader : Reader := ⟨file, limits.maxMetadataBytes⟩
      let header ← readHeader reader limits
      let programHeaders ← readProgramHeaders reader header 0 header.programCount
      let scan ← scanSegments reader limits programHeaders {}
      let table ← readDynamic reader limits header scan.dynamicSegment
      let (neededLibraries, neededLibrariesTruncated) ← readNeeded reader limits programHeaders table
      let buildId ← parseNotes reader limits header.little scan.noteSegments 0 none
      let s ← get
      pure {
        elfClass := bytes (if header.is64 then "ELF64" else "ELF32")
        endianness := bytes (if header.little then "little" else "big")
        fileType := fileTypeName header.type
        fileTypeNumber := header.type
        machine := machineName header.machine
        machineNumber := header.machine
        osAbi := osAbiName header.osAbi
        osAbiNumber := header.osAbi.toNat
        entryPoint := hexValue header.entry
        programHeaderCount := header.programCount
        interpreter := scan.interpreter
        neededLibraries := neededLibraries
        neededLibrariesTruncated := neededLibrariesTruncated
        buildId := buildId
        stackPolicy := stackPolicyName scan.haveStack scan.executableStack
        relro := relroName scan.haveRelro table.bindNow
        positionIndependent := header.type == etDyn
        pieExecutable := header.type == etDyn && scan.interpreter.isSome
        writableExecutableLoadSegment := scan.writableExecutable
        fileChangedDuringRead := s.after != some before
        metadataBytesRead := s.bytesRead
        segments := scan.segments
        segmentSummariesTruncated := scan.truncated }

end ElfAnalyzer

end NativeMcp
