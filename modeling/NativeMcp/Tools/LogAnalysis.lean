import NativeMcp.Foundation
import NativeMcp.Lib.StringSearch
import NativeMcp.Tools.Definitions

/-!
# Searching and tailing a log

`LogAnalyzer::search` and `LogAnalyzer::tail`.  Both read the file through a loop of `pread` calls, each of which may be
interrupted, fail, or return fewer bytes than it was asked for (`readLoop`), and hand every byte to a scanner that keeps
only bounded state.
-/

namespace NativeMcp

open StringSearch

inductive LogAnalysisErrorCode where
  | invalidArguments
  | inputTooLarge
  | readFailed
  | cancelled
  | deadlineExceeded
  deriving DecidableEq, Repr

def logAnalysisErrorName : LogAnalysisErrorCode → String
  | .invalidArguments => "invalid_arguments"
  | .inputTooLarge => "input_too_large"
  | .readFailed => "read_failed"
  | .cancelled => "cancelled"
  | .deadlineExceeded => "deadline_exceeded"

structure LogAnalysisError where
  code : LogAnalysisErrorCode
  message : String
  deriving DecidableEq, Repr

structure LogSearchOptions where
  query : Bytes
  caseSensitive : Bool := true
  maxMatches : Nat := 20
  deriving DecidableEq, Repr

structure LogMatch where
  lineNumber : Nat
  byteOffset : Nat
  preview : Bytes
  previewTruncatedStart : Bool
  previewTruncatedEnd : Bool
  deriving DecidableEq, Repr

structure LogSearchResult where
  bytesScanned : Nat := 0
  linesScanned : Nat := 0
  matchLimitReached : Bool := false
  fileChangedDuringRead : Bool := false
  lineMatches : List LogMatch := []
  deriving DecidableEq, Repr

structure LogTailOptions where
  maxLines : Nat := 20
  deriving DecidableEq, Repr

structure LogTailLine where
  lineNumber : Nat
  byteOffset : Nat
  preview : Bytes
  previewTruncatedStart : Bool
  deriving DecidableEq, Repr

structure LogTailResult where
  bytesScanned : Nat := 0
  linesScanned : Nat := 0
  fileChangedDuringRead : Bool := false
  lines : List LogTailLine := []
  deriving DecidableEq, Repr

/-- An approved file: what its descriptor reads, its size when it was opened and the most that may be read of it, and
the size that `fstat` gives after the scan, if it gives one. -/
structure ReadOnlyFile where
  contents : Bytes
  observedSize : Nat
  maxReadBytes : Nat
  sizeAfter : Option Nat

/-- One round of a read loop: the stop reason when the loop asks, and the call. -/
structure ReadTurn where
  stopReason : OperationStopReason
  read : ReadResult

namespace LogAnalyzer

def error (code : LogAnalysisErrorCode) (message : String) : LogAnalysisError := ⟨code, message⟩

def operationError : OperationStopReason → Option LogAnalysisError
  | .none => none
  | .cancelled => some (error .cancelled "log analysis was cancelled")
  | .deadlineExceeded => some (error .deadlineExceeded "log analysis exceeded its deadline")

def newline : UInt8 := 0x0A

def carriageReturn : UInt8 := 0x0D

def foldAscii (value : UInt8) : UInt8 :=
  if 0x41 ≤ value ∧ value ≤ 0x5A then value + (0x61 - 0x41) else value

def comparable (value : UInt8) (caseSensitive : Bool) : UInt8 :=
  if caseSensitive then value else foldAscii value

def hex : List UInt8 := bytes "0123456789ABCDEF"

def escapeByte (value : UInt8) : Bytes :=
  if value = 0x09 then bytes "\\t"
  else if 0x20 ≤ value ∧ value ≤ 0x7E then [value]
  else bytes "\\x" ++ [hex.getD (value >>> 4 &&& 0x0F).toNat 0, hex.getD (value &&& 0x0F).toNat 0]

def escapePreview (preview : Bytes) : Bytes := preview.flatMap escapeByte

def queryIsValid (query : Bytes) (limits : LogAnalysisLimits) : Bool :=
  if query = [] ∨ limits.maxQueryBytes < query.length then false
  else !query.contains 0 && !query.contains newline && !query.contains carriageReturn

def fileSizeChanged (file : ReadOnlyFile) : Bool :=
  match file.sizeAfter with
  | none => true
  | some size => size != file.observedSize

def readLimit (file : ReadOnlyFile) : Nat := min file.observedSize file.maxReadBytes

/-! ### Reading -/

def pread (file : ReadOnlyFile) (requested offset short : Nat) : Bytes :=
  (file.contents.drop offset).take (min requested (short + 1))

/-- The loop that both functions read with, over a state with an offset, a condition that ends the scan, and what is
done with the bytes of one read.  The loop is over when no byte is left, when the scan is done, or at the end of the
file, which came early; it is waiting (`none`) when the turns run out. -/
def readLoop {σ : Type} (limits : LogAnalysisLimits) (file : ReadOnlyFile) (offset : σ → Nat) (stop : σ → Bool)
    (consume : σ → Bytes → σ) (s : σ) : List ReadTurn → Option (Except LogAnalysisError (σ × Bool))
  | [] => if offset s < readLimit file && !stop s then none else some (.ok (s, false))
  | turn :: turns =>
    if offset s < readLimit file && !stop s then
      match operationError turn.stopReason with
      | some e => some (.error e)
      | none =>
        let remaining := readLimit file - offset s
        let requested := min remaining limits.readChunkBytes
        match turn.read with
        | .interrupted => readLoop limits file offset stop consume s turns
        | .failed => some (.error (error .readFailed "failed while reading the approved log file"))
        | .returned short =>
          let buffer := pread file requested (offset s) short
          if buffer = [] then some (.ok (s, offset s < readLimit file))
          else readLoop limits file offset stop consume (consume s buffer) turns
    else some (.ok (s, false))

/-! ### Searching -/

/-- What one search does not change. -/
structure SearchSetup where
  pattern : Bytes
  failure : List Nat
  caseSensitive : Bool
  maxMatches : Nat
  maxPreviewBytes : Nat
  recentCapacity : Nat

def searchSetup (limits : LogAnalysisLimits) (options : LogSearchOptions) : SearchSetup :=
  let pattern := options.query.map fun value => comparable value options.caseSensitive
  let beforeBudget := limits.maxPreviewBytes / 2
  { pattern, failure := buildFailureTable pattern, caseSensitive := options.caseSensitive,
    maxMatches := options.maxMatches, maxPreviewBytes := limits.maxPreviewBytes,
    recentCapacity := min limits.maxPreviewBytes (beforeBudget + pattern.length) }

structure SearchState where
  linesScanned : Nat := 0
  lineMatches : List LogMatch := []
  matchLimitReached : Bool := false
  absoluteOffset : Nat := 0
  lineNumber : Nat := 1
  lineStartOffset : Nat := 0
  lineBytes : Nat := 0
  matched : Nat := 0
  recent : Bytes := []
  preview : Bytes := []
  found : Bool := false
  previewTruncatedStart : Bool := false
  previewTruncatedEnd : Bool := false
  matchOffset : Nat := 0
  captureRemaining : Nat := 0
  haveUnterminatedLine : Bool := false
  stop : Bool := false

/-- A deque of at most `capacity` values that takes one more at its back. -/
def pushBounded (capacity : Nat) (deque : Bytes) (value : UInt8) : Bytes :=
  if capacity < (deque ++ [value]).length then (deque ++ [value]).tail else deque ++ [value]

/-- `if (!preview.empty() && preview.back() == '\r') preview.pop_back()` -/
def popReturn (preview : Bytes) : Bytes :=
  if preview.getLast? = some carriageReturn then preview.dropLast else preview

namespace SearchState

def resetLine (s : SearchState) : SearchState :=
  { s with
    lineBytes := 0
    matched := 0
    recent := []
    preview := []
    found := false
    previewTruncatedStart := false
    previewTruncatedEnd := false
    matchOffset := 0
    captureRemaining := 0
    haveUnterminatedLine := false }

def pushMatch (c : SearchSetup) (s : SearchState) : SearchState :=
  if s.found then
    let lineMatches := s.lineMatches ++ [{
      lineNumber := s.lineNumber
      byteOffset := s.matchOffset
      preview := escapePreview (popReturn s.preview)
      previewTruncatedStart := s.previewTruncatedStart
      previewTruncatedEnd := s.previewTruncatedEnd }]
    if c.maxMatches ≤ lineMatches.length then { s with lineMatches, matchLimitReached := true, stop := true }
    else { s with lineMatches }
  else s

def finishLine (c : SearchSetup) (s : SearchState) : SearchState :=
  let s := pushMatch c { s with linesScanned := s.linesScanned + 1 }
  resetLine { s with lineNumber := s.lineNumber + 1, lineStartOffset := s.absoluteOffset + 1 }

/-- One byte of the file. -/
def scanByte (c : SearchSetup) (s : SearchState) (value : UInt8) : SearchState :=
  if value = newline then
    let s := finishLine c s
    { s with absoluteOffset := s.absoluteOffset + 1 }
  else
    let s := { s with haveUnterminatedLine := true, lineBytes := s.lineBytes + 1 }
    let s :=
      if s.found then
        if 0 < s.captureRemaining then
          { s with preview := s.preview ++ [value], captureRemaining := s.captureRemaining - 1 }
        else { s with previewTruncatedEnd := true }
      else
        let recent := pushBounded c.recentCapacity s.recent value
        let current := comparable value c.caseSensitive
        let matched := advance c.pattern c.failure s.matched current
        if matched = c.pattern.length then
          { s with
            recent, matched
            found := true
            matchOffset := s.absoluteOffset + 1 - c.pattern.length
            preview := recent
            previewTruncatedStart := recent.length < s.lineBytes
            captureRemaining := c.maxPreviewBytes - recent.length }
        else { s with recent, matched }
    { s with absoluteOffset := s.absoluteOffset + 1 }

/-- The bytes of one read; none is looked at after the line that reached the limit. -/
def scanBuffer (c : SearchSetup) (s : SearchState) (buffer : Bytes) : SearchState :=
  buffer.foldl (fun s value => if s.stop then s else scanByte c s value) s

/-- What follows the loop. -/
def toResult (c : SearchSetup) (s : SearchState) (endOfFile sizeChanged : Bool) : LogSearchResult :=
  let bytesScanned := s.absoluteOffset
  let s := if !s.stop && s.haveUnterminatedLine then finishLine c s else s
  { bytesScanned, linesScanned := s.linesScanned, matchLimitReached := s.matchLimitReached,
    fileChangedDuringRead := endOfFile || sizeChanged, lineMatches := s.lineMatches }

end SearchState

def searchAccepted (limits : LogAnalysisLimits) (options : LogSearchOptions) : Bool :=
  queryIsValid options.query limits && options.maxMatches != 0 && options.maxMatches ≤ limits.maxMatches &&
    limits.maxPreviewBytes != 0 && limits.readChunkBytes != 0

/-- `LogAnalyzer::search`, given the stop reason at the start and the turns of its read loop. -/
def search (limits : LogAnalysisLimits) (file : ReadOnlyFile) (options : LogSearchOptions)
    (stopReason : OperationStopReason) (turns : List ReadTurn) : Option (Except LogAnalysisError LogSearchResult) :=
  match operationError stopReason with
  | some e => some (.error e)
  | none =>
    if !searchAccepted limits options then
      some (.error (error .invalidArguments "search arguments are outside the accepted limits"))
    else if limits.maxScanBytes < file.observedSize then
      some (.error (error .inputTooLarge "log file exceeds the synchronous scan limit"))
    else
      let c := searchSetup limits options
      (readLoop limits file (·.absoluteOffset) (·.stop) (SearchState.scanBuffer c) {} turns).map
        (·.map fun r => r.1.toResult c r.2 (fileSizeChanged file))

/-! ### Tailing -/

structure TailState where
  linesScanned : Nat := 0
  retained : List LogTailLine := []
  linePreview : Bytes := []
  absoluteOffset : Nat := 0
  lineNumber : Nat := 1
  lineStartOffset : Nat := 0
  lineBytes : Nat := 0
  haveUnterminatedLine : Bool := false

namespace TailState

def finishLine (maxLines : Nat) (s : TailState) : TailState :=
  let retained := s.retained ++ [{
    lineNumber := s.lineNumber
    byteOffset := s.lineStartOffset
    preview := escapePreview (popReturn s.linePreview)
    previewTruncatedStart := s.linePreview.length < s.lineBytes }]
  { s with
    retained := if maxLines < retained.length then retained.tail else retained
    linesScanned := s.linesScanned + 1
    lineNumber := s.lineNumber + 1
    lineStartOffset := s.absoluteOffset + 1
    linePreview := []
    lineBytes := 0
    haveUnterminatedLine := false }

def scanByte (limits : LogAnalysisLimits) (maxLines : Nat) (s : TailState) (value : UInt8) : TailState :=
  if value = newline then
    let s := finishLine maxLines s
    { s with absoluteOffset := s.absoluteOffset + 1 }
  else
    { s with
      haveUnterminatedLine := true
      lineBytes := s.lineBytes + 1
      linePreview := pushBounded limits.maxPreviewBytes s.linePreview value
      absoluteOffset := s.absoluteOffset + 1 }

def scanBuffer (limits : LogAnalysisLimits) (maxLines : Nat) (s : TailState) (buffer : Bytes) : TailState :=
  buffer.foldl (scanByte limits maxLines) s

def toResult (maxLines : Nat) (s : TailState) (endOfFile sizeChanged : Bool) : LogTailResult :=
  let bytesScanned := s.absoluteOffset
  let s := if s.haveUnterminatedLine then finishLine maxLines s else s
  { bytesScanned, linesScanned := s.linesScanned, fileChangedDuringRead := endOfFile || sizeChanged,
    lines := s.retained }

end TailState

def tailAccepted (limits : LogAnalysisLimits) (options : LogTailOptions) : Bool :=
  options.maxLines != 0 && options.maxLines ≤ limits.maxTailLines && limits.maxPreviewBytes != 0 &&
    limits.readChunkBytes != 0

/-- `LogAnalyzer::tail` -/
def tail (limits : LogAnalysisLimits) (file : ReadOnlyFile) (options : LogTailOptions)
    (stopReason : OperationStopReason) (turns : List ReadTurn) : Option (Except LogAnalysisError LogTailResult) :=
  match operationError stopReason with
  | some e => some (.error e)
  | none =>
    if !tailAccepted limits options then
      some (.error (error .invalidArguments "tail arguments are outside the accepted limits"))
    else if limits.maxScanBytes < file.observedSize then
      some (.error (error .inputTooLarge "log file exceeds the synchronous scan limit"))
    else
      (readLoop limits file (·.absoluteOffset) (fun _ => false) (TailState.scanBuffer limits options.maxLines) {}
        turns).map (·.map fun r => r.1.toResult options.maxLines r.2 (fileSizeChanged file))

end LogAnalyzer

end NativeMcp
