import NativeMcp.Tools.LogLines

/-!
# The last lines of a log

`tail` returns the last lines of the bytes it may read, whatever the schedule of its reads.
-/

namespace NativeMcp

namespace LogAnalyzer

/-- A line as `tail` shows it: the end of its bytes, without a final carriage return. -/
def tailLine (maxPreviewBytes : Nat) (l : LogLine) : LogTailLine where
  lineNumber := l.number
  byteOffset := l.offset
  preview := escapePreview (popReturn (l.content.rtake maxPreviewBytes))
  previewTruncatedStart := maxPreviewBytes < l.content.length

/-- The lines and counts of a whole content. -/
def tailResult (maxPreviewBytes maxLines : Nat) (content : Bytes) (fileChanged : Bool) : LogTailResult where
  bytesScanned := content.length
  linesScanned := (logicalLines content).length
  fileChangedDuringRead := fileChanged
  lines := ((logicalLines content).rtake maxLines).map (tailLine maxPreviewBytes)

namespace TailState

/-- The state after the lines `done` and the bytes `current` of the next one. -/
structure Within (maxPreviewBytes maxLines : Nat) (done : List LogLine) (current : Bytes) (s : TailState) : Prop where
  retained : s.retained = (done.rtake maxLines).map (tailLine maxPreviewBytes)
  linesScanned : s.linesScanned = done.length
  linePreview : s.linePreview = current.rtake maxPreviewBytes
  lineBytes : s.lineBytes = current.length
  haveUnterminatedLine : s.haveUnterminatedLine = decide (current ≠ [])
  absoluteOffset : s.absoluteOffset = s.lineStartOffset + current.length

variable {limits : LogAnalysisLimits} {maxLines : Nat} {done : List LogLine} {current rest : Bytes} {s : TailState}

theorem within_init (limits : LogAnalysisLimits) (maxLines : Nat) : Within limits.maxPreviewBytes maxLines [] [] {} := by
  constructor <;> simp

/-- A finished line is the last one retained. -/
theorem finishLine_retained (h : Within limits.maxPreviewBytes maxLines done current s) (terminated : Bool) :
    (finishLine maxLines s).retained =
      ((done ++ [LogLine.mk s.lineNumber s.lineStartOffset current terminated]).rtake maxLines).map
        (tailLine limits.maxPreviewBytes) := by
  have hlen : (current.rtake limits.maxPreviewBytes).length < current.length ↔
      limits.maxPreviewBytes < current.length := by
    rw [length_rtake]
    omega
  have hline : (⟨s.lineNumber, s.lineStartOffset, escapePreview (popReturn s.linePreview),
      decide (s.linePreview.length < s.lineBytes)⟩ : LogTailLine) =
        tailLine limits.maxPreviewBytes ⟨s.lineNumber, s.lineStartOffset, current, terminated⟩ := by
    simp only [tailLine, h.linePreview, h.lineBytes, hlen]
  rw [rtake_concat]
  simp only [finishLine, hline, h.retained, List.length_append, List.length_map, List.length_singleton]
  split <;> simp

theorem within_newline (h : Within limits.maxPreviewBytes maxLines done current s) :
    Within limits.maxPreviewBytes maxLines (done ++ [LogLine.mk s.lineNumber s.lineStartOffset current true]) []
      (scanByte limits maxLines s newline) := by
  have hscan : scanByte limits maxLines s newline =
      { finishLine maxLines s with absoluteOffset := s.absoluteOffset + 1 } := by
    simp [scanByte, finishLine]
  rw [hscan]
  constructor
  · exact finishLine_retained h true
  · simp [finishLine, h.linesScanned]
  · simp [finishLine]
  · rfl
  · rfl
  · rfl

theorem within_byte (h : Within limits.maxPreviewBytes maxLines done current s) {value : UInt8}
    (hv : value ≠ newline) :
    Within limits.maxPreviewBytes maxLines done (current ++ [value]) (scanByte limits maxLines s value) := by
  obtain ⟨hret, hlines, hprev, hbytes, hun, hoff⟩ := h
  constructor
  · simpa [scanByte, hv] using hret
  · simpa [scanByte, hv] using hlines
  · simp [scanByte, hv, hprev, pushBounded_rtake]
  · simp [scanByte, hv, hbytes]
  · simp [scanByte, hv]
  · simp [scanByte, hv, hoff]
    omega

/-- The scan of the remaining bytes, by induction on them: a newline finishes the line, any other byte extends it. -/
theorem toResult_scan (rest : Bytes) (h : Within limits.maxPreviewBytes maxLines done current s) (endOfFile sizeChanged : Bool) :
    toResult maxLines (rest.foldl (scanByte limits maxLines) s) endOfFile sizeChanged =
      { bytesScanned := s.absoluteOffset + rest.length
        linesScanned := (done ++ linesFrom s.lineNumber s.lineStartOffset current rest).length
        fileChangedDuringRead := endOfFile || sizeChanged
        lines := ((done ++ linesFrom s.lineNumber s.lineStartOffset current rest).rtake maxLines).map
          (tailLine limits.maxPreviewBytes) } := by
  induction rest generalizing done current s with
  | nil =>
    by_cases hc : current = []
    · have hun := h.haveUnterminatedLine
      simp [toResult, linesFrom, hc, hun, h.linesScanned, h.retained]
    · have hun := h.haveUnterminatedLine
      have hret := finishLine_retained h false
      simp [toResult, linesFrom, hc, hun, hret]
      simp [finishLine, h.linesScanned]
  | cons value rest ih =>
    rw [List.foldl_cons]
    by_cases hv : value = newline
    · subst hv
      rw [ih (within_newline h)]
      have hoff := h.absoluteOffset
      simp [linesFrom, scanByte, finishLine, hoff]
      omega
    · rw [ih (within_byte h hv)]
      simp [linesFrom, hv, scanByte]
      omega

end TailState

/-- The file was shorter than what was to be read, or has another size after the scan. -/
def tailFileChanged (file : ReadOnlyFile) : Bool :=
  decide (file.contents.length < readLimit file) || fileSizeChanged file

section Runs

variable {limits : LogAnalysisLimits} {file : ReadOnlyFile} {options : LogTailOptions} {turns : List ReadTurn}

theorem tail_eq (haccept : tailAccepted limits options = true) (hsize : file.observedSize ≤ limits.maxScanBytes)
    (turns : List ReadTurn) : tail limits file options .none turns =
      (readLoop limits file (·.absoluteOffset) (fun _ => false)
        (scanAll (fun _ => false) (TailState.scanByte limits options.maxLines)) {} turns).map
          (·.map fun r => r.1.toResult options.maxLines r.2 (fileSizeChanged file)) := by
  have hconsume : TailState.scanBuffer limits options.maxLines =
      scanAll (fun _ => false) (TailState.scanByte limits options.maxLines) := by
    funext s buffer
    simp [TailState.scanBuffer, scanAll]
  simp [tail, operationError, haccept, hconsume, Nat.not_lt.2 hsize]

/-- The outcome of every run of `tail` on an accepted request. -/
theorem tail_spec (haccept : tailAccepted limits options = true) (hsize : file.observedSize ≤ limits.maxScanBytes)
    (ht : ∀ t ∈ turns, t.benign) :
    (∀ outcome, tail limits file options .none turns = some outcome →
      outcome = .ok (tailResult limits.maxPreviewBytes options.maxLines (readable file) (tailFileChanged file))) ∧
    (readLimit file < turns.countP ReadTurn.returns → (tail limits file options .none turns).isSome = true) := by
  have hchunk : limits.readChunkBytes ≠ 0 := by
    simp only [tailAccepted, Bool.and_eq_true, bne_iff_ne] at haccept
    exact haccept.2
  have hstep : ∀ (s : TailState) (value : UInt8),
      (TailState.scanByte limits options.maxLines s value).absoluteOffset = s.absoluteOffset + 1 := by
    intro s value
    unfold TailState.scanByte
    split <;> rfl
  rw [tail_eq haccept hsize]
  constructor
  · intro outcome ho
    obtain ⟨r, hloop, rfl⟩ := Option.map_eq_some_iff.1 ho
    cases r with
    | error e => exact absurd hloop (readLoop_ne_error ht e)
    | ok r =>
      have hscan := TailState.toResult_scan (readable file) (TailState.within_init limits options.maxLines)
        (decide (file.contents.length < readLimit file)) (fileSizeChanged file)
      rw [readLoop_spec hstep hchunk (Nat.zero_le _) hloop]
      simp only [Except.map, loopEnd, scanAll, Bool.false_eq_true, if_false, Bool.not_false, Bool.true_and,
        List.drop_zero, hscan]
      simp [tailResult, tailFileChanged, logicalLines]
  · intro hcount
    rw [Option.isSome_map]
    exact readLoop_isSome hstep ht hcount

end Runs

/-- `tail` returns the last lines, with counts of everything it may read.  The result is settled by the file, the
options and the limits: it is the same for every size of the reads and every schedule of them, and a run is over once
more reads have returned than there are bytes to read. -/
theorem tail_correct (limits : LogAnalysisLimits) (file : ReadOnlyFile) (options : LogTailOptions)
    (haccept : tailAccepted limits options = true) (hsize : file.observedSize ≤ limits.maxScanBytes) :
    ∃ r : LogTailResult,
      r.lines = ((logicalLines (readable file)).rtake options.maxLines).map (tailLine limits.maxPreviewBytes) ∧
      r.lines.length = min options.maxLines (logicalLines (readable file)).length ∧
      r.linesScanned = (logicalLines (readable file)).length ∧
      r.bytesScanned = (readable file).length ∧
      ∀ chunk, chunk ≠ 0 → ∀ turns : List ReadTurn, (∀ t ∈ turns, t.benign) →
        (tail { limits with readChunkBytes := chunk } file options .none turns = none ∨
          tail { limits with readChunkBytes := chunk } file options .none turns = some (.ok r)) ∧
        (readLimit file < turns.countP ReadTurn.returns →
          tail { limits with readChunkBytes := chunk } file options .none turns = some (.ok r)) := by
  refine ⟨tailResult limits.maxPreviewBytes options.maxLines (readable file) (tailFileChanged file),
    rfl, ?_, rfl, rfl, ?_⟩
  · rw [tailResult, List.length_map, length_rtake]
  · intro chunk hchunk turns ht
    have hacc : tailAccepted { limits with readChunkBytes := chunk } options = true := by
      simp only [tailAccepted, Bool.and_eq_true, bne_iff_ne] at haccept ⊢
      exact ⟨haccept.1, hchunk⟩
    obtain ⟨hres, hend⟩ := tail_spec hacc hsize ht
    constructor
    · cases hrun : tail { limits with readChunkBytes := chunk } file options .none turns with
      | none => exact .inl rfl
      | some outcome => exact .inr (congrArg some (hres outcome hrun))
    · intro hcount
      obtain ⟨outcome, hrun⟩ := Option.isSome_iff_exists.1 (hend hcount)
      rw [hrun, hres outcome hrun]

/-- Three lines, read one byte at a time with an interruption: the last two are returned. -/
theorem tail_correct_two_of_three : ∃ r : LogTailResult,
    r.lines.map (fun l => (l.lineNumber, l.byteOffset, l.preview)) = [(2, 2, bytes "bb"), (3, 6, bytes "c")] ∧
      tail { readChunkBytes := 1 } ⟨bytes "a\nbb\r\nc", 7, 100, some 7⟩ { maxLines := 2 } .none
        (⟨.none, .interrupted⟩ :: List.replicate 8 ⟨.none, .returned 0⟩) = some (.ok r) := by
  obtain ⟨r, hlines, -, -, -, hrun⟩ := tail_correct {}
    ⟨bytes "a\nbb\r\nc", 7, 100, some 7⟩ { maxLines := 2 } (by decide) (by decide)
  refine ⟨r, ?_, (hrun 1 (by decide) _ ?_).2 (by decide)⟩
  · rw [hlines]
    decide +kernel
  · intro t ht
    rcases List.mem_cons.1 ht with rfl | ht
    · exact ⟨rfl, by decide⟩
    · rw [List.eq_of_mem_replicate ht]
      exact ⟨rfl, by decide⟩

end LogAnalyzer

end NativeMcp
