import Mathlib.Data.List.DropRight
import NativeMcp.Tools.LogAnalysis

/-!
# The lines of a log, and what the read loop delivers

`logicalLines` splits a content at its newlines; it is the reference both functions are compared with.  `readLoop_spec`
says that the loop of reads amounts to one pass over the bytes within the read limit, whatever the turns, and
`readLoop_isSome` that it is over once enough reads have returned.
-/

namespace NativeMcp

/-- Neither a stop nor a failure. -/
def ReadTurn.benign (turn : ReadTurn) : Prop := turn.stopReason = .none ∧ turn.read ≠ .failed

def ReadTurn.returns (turn : ReadTurn) : Bool :=
  match turn.read with
  | .returned _ => true
  | _ => false

namespace LogAnalyzer

/-- A line: its number in the file, the offset of its first byte, its bytes without the newline, and whether a newline
ends it. -/
structure LogLine where
  number : Nat
  offset : Nat
  content : Bytes
  terminated : Bool
  deriving DecidableEq, Repr

def LogLine.raw (l : LogLine) : Bytes := if l.terminated then l.content ++ [newline] else l.content

/-- The lines of the bytes `current ++ rest`, of which `current` has no newline; a tail without a newline is a line
unless it is empty. -/
def linesFrom (number offset : Nat) (current : Bytes) : Bytes → List LogLine
  | [] => if current = [] then [] else [⟨number, offset, current, false⟩]
  | value :: rest =>
    if value = newline then
      ⟨number, offset, current, true⟩ :: linesFrom (number + 1) (offset + current.length + 1) [] rest
    else linesFrom number offset (current ++ [value]) rest

def logicalLines (content : Bytes) : List LogLine := linesFrom 1 0 [] content

/-- The bytes that a scan may read. -/
def readable (file : ReadOnlyFile) : Bytes := file.contents.take (readLimit file)

/-! ### Facts about the lines -/

theorem raw_linesFrom (number offset : Nat) (current rest : Bytes) :
    (linesFrom number offset current rest).flatMap LogLine.raw = current ++ rest := by
  induction rest generalizing number offset current with
  | nil =>
    unfold linesFrom
    split
    · simp_all
    · simp [LogLine.raw]
  | cons value rest ih =>
    unfold linesFrom
    split
    · rename_i h
      simp [ih, LogLine.raw, h]
    · simp [ih]

theorem raw_logicalLines (content : Bytes) : (logicalLines content).flatMap LogLine.raw = content := by
  simp [logicalLines, raw_linesFrom]

/-- The bytes of the lines, their newlines included. -/
def rawLength (lines : List LogLine) : Nat := (lines.flatMap LogLine.raw).length

@[simp] theorem rawLength_nil : rawLength [] = 0 := rfl

@[simp] theorem rawLength_cons (l : LogLine) (lines : List LogLine) :
    rawLength (l :: lines) = l.raw.length + rawLength lines := by
  simp [rawLength]

/-- A line has no newline inside, its number counts the lines before it, and its offset their bytes. -/
theorem linesFrom_getElem? {number offset : Nat} {current rest : Bytes} (hc : newline ∉ current) {i : Nat} {l : LogLine}
    (h : (linesFrom number offset current rest)[i]? = some l) :
    l.number = number + i ∧ l.offset = offset + rawLength ((linesFrom number offset current rest).take i) ∧
      newline ∉ l.content := by
  induction rest generalizing number offset current i with
  | nil =>
    unfold linesFrom at h ⊢
    split at h
    · simp at h
    · cases i with
      | zero =>
        simp only [List.getElem?_cons_zero, Option.some.injEq] at h
        subst h
        simp [hc]
      | succ i => simp at h
  | cons value rest ih =>
    unfold linesFrom at h ⊢
    split at h
    · rename_i hv
      rw [if_pos hv]
      cases i with
      | zero =>
        simp only [List.getElem?_cons_zero, Option.some.injEq] at h
        subst h
        simp [hc]
      | succ i =>
        rw [List.getElem?_cons_succ] at h
        obtain ⟨hn, ho, hm⟩ := ih (by simp) h
        refine ⟨by omega, ?_, hm⟩
        rw [ho, List.take_succ_cons, rawLength_cons]
        simp [LogLine.raw]
        omega
    · rename_i hv
      rw [if_neg hv]
      exact ih (by simp [hc, Ne.symm hv]) h

theorem logicalLines_getElem? {content : Bytes} {i : Nat} {l : LogLine} (h : (logicalLines content)[i]? = some l) :
    l.number = i + 1 ∧ l.offset = rawLength ((logicalLines content).take i) ∧ newline ∉ l.content := by
  obtain ⟨hn, ho, hm⟩ := linesFrom_getElem? (by simp) h
  exact ⟨by omega, by simpa [logicalLines] using ho, hm⟩

/-! ### Bounded deques

A deque that drops its front value when it is too long holds the last values pushed. -/

theorem length_rtake {α : Type} (n : Nat) (l : List α) : (l.rtake n).length = min n l.length := by
  rw [List.rtake, List.length_drop]
  omega

theorem rtake_concat {α : Type} (n : Nat) (l : List α) (value : α) :
    (l ++ [value]).rtake n =
      if n < (l.rtake n ++ [value]).length then (l.rtake n ++ [value]).tail else l.rtake n ++ [value] := by
  rw [List.length_append, List.length_singleton, length_rtake]
  split
  case isTrue h =>
    have htail : (l.rtake n ++ [value]).tail = (l ++ [value]).drop (l.length - n + 1) := by
      rw [List.rtake, ← List.drop_append_of_le_length (by omega), List.tail_drop]
    rw [htail, List.rtake, List.length_append, List.length_singleton]
    congr 1
    omega
  case isFalse h =>
    rw [List.rtake, List.rtake, List.length_append, List.length_singleton, ← List.drop_append_of_le_length (by omega)]
    congr 1
    omega

theorem pushBounded_rtake (capacity : Nat) (l : Bytes) (value : UInt8) :
    pushBounded capacity (l.rtake capacity) value = (l ++ [value]).rtake capacity :=
  (rtake_concat capacity l value).symm

/-! ### The read loop -/

section ReadLoop

variable {σ : Type} {limits : LogAnalysisLimits} {file : ReadOnlyFile} {offset : σ → Nat} {stop : σ → Bool}
  {step : σ → UInt8 → σ}

/-- A pass over bytes that ends when the scan is done. -/
def scanAll (stop : σ → Bool) (step : σ → UInt8 → σ) (s : σ) (buffer : Bytes) : σ :=
  buffer.foldl (fun s value => if stop s then s else step s value) s

theorem scanAll_append (s : σ) (b b' : Bytes) :
    scanAll stop step s (b ++ b') = scanAll stop step (scanAll stop step s b) b' := List.foldl_append

theorem scanAll_of_stop {s : σ} (h : stop s = true) (buffer : Bytes) : scanAll stop step s buffer = s := by
  induction buffer with
  | nil => rfl
  | cons value buffer ih => simpa [scanAll, h] using ih

variable (hstep : ∀ s value, offset (step s value) = offset s + 1)
include hstep

variable (stop) in
theorem offset_scanAll_le (s : σ) (buffer : Bytes) :
    offset (scanAll stop step s buffer) ≤ offset s + buffer.length := by
  induction buffer generalizing s with
  | nil => exact Nat.le_refl _
  | cons value buffer ih =>
    by_cases h : stop s = true
    · rw [scanAll_of_stop h]
      omega
    · have heq : scanAll stop step s (value :: buffer) = scanAll stop step (step s value) buffer := by
        simp [scanAll, h]
      have := ih (step s value)
      rw [heq, List.length_cons]
      rw [hstep] at this
      omega

theorem offset_scanAll {s : σ} {buffer : Bytes} (h : stop (scanAll stop step s buffer) = false) :
    offset (scanAll stop step s buffer) = offset s + buffer.length := by
  induction buffer generalizing s with
  | nil => rfl
  | cons value buffer ih =>
    by_cases hs : stop s = true
    · rw [scanAll_of_stop hs, hs] at h
      cases h
    · have heq : scanAll stop step s (value :: buffer) = scanAll stop step (step s value) buffer := by
        simp [scanAll, hs]
      rw [heq] at h ⊢
      rw [ih h, hstep, List.length_cons]
      omega

omit hstep in
/-- What one read returns begins what is left to read. -/
theorem pread_spec (limits : LogAnalysisLimits) (file : ReadOnlyFile) (offset : σ → Nat) (s : σ) (short : Nat) :
    ∃ rest, (readable file).drop (offset s) =
      pread file (min (readLimit file - offset s) limits.readChunkBytes) (offset s) short ++ rest := by
  refine ⟨((readable file).drop (offset s)).drop
    (min (min (readLimit file - offset s) limits.readChunkBytes) (short + 1)), ?_⟩
  have hmin : min (min (min (readLimit file - offset s) limits.readChunkBytes) (short + 1))
      (readLimit file - offset s) = min (min (readLimit file - offset s) limits.readChunkBytes) (short + 1) := by
    omega
  have htake : pread file (min (readLimit file - offset s) limits.readChunkBytes) (offset s) short =
      ((readable file).drop (offset s)).take
        (min (min (readLimit file - offset s) limits.readChunkBytes) (short + 1)) := by
    rw [readable, List.drop_take, List.take_take, pread, hmin]
  rw [htake, List.take_append_drop]

omit hstep in
/-- A read that was asked for something and returns nothing is at the end of the file. -/
theorem pread_eq_nil {s : σ} {short : Nat} (hchunk : limits.readChunkBytes ≠ 0) (hlt : offset s < readLimit file)
    (h : pread file (min (readLimit file - offset s) limits.readChunkBytes) (offset s) short = []) :
    file.contents.length ≤ offset s := by
  have hlen := congrArg List.length h
  simp only [pread, List.length_take, List.length_drop, List.length_nil] at hlen
  omega

omit hstep in
theorem readable_drop_eq_nil {s : σ} (h : readLimit file ≤ offset s ∨ file.contents.length ≤ offset s) :
    (readable file).drop (offset s) = [] := by
  rw [readable, List.drop_eq_nil_iff, List.length_take]
  omega

/-- How a loop that is in `s` ends. -/
def loopEnd (file : ReadOnlyFile) (offset : σ → Nat) (stop : σ → Bool) (step : σ → UInt8 → σ) (s : σ) : σ × Bool :=
  let t := scanAll stop step s ((readable file).drop (offset s))
  (t, !stop t && decide (file.contents.length < readLimit file))

omit hstep in
theorem loopEnd_of_over {s : σ} (hs : offset s ≤ file.contents.length)
    (h : (decide (offset s < readLimit file) && !stop s) = false) :
    loopEnd file offset stop step s = (s, false) := by
  unfold loopEnd
  rw [Bool.and_eq_false_iff] at h
  rcases h with h | h
  · have hle : readLimit file ≤ offset s := by simpa using h
    have hlong : decide (file.contents.length < readLimit file) = false := decide_eq_false (by omega)
    rw [readable_drop_eq_nil (.inl hle), hlong]
    simp [scanAll]
  · have hstop : stop s = true := by simpa using h
    rw [scanAll_of_stop hstop]
    simp [hstop]

/-- Bytes that a read returns may be scanned first. -/
theorem loopEnd_scanAll {s : σ} {b rest : Bytes} (h : (readable file).drop (offset s) = b ++ rest) :
    loopEnd file offset stop step (scanAll stop step s b) = loopEnd file offset stop step s := by
  have hscan : scanAll stop step (scanAll stop step s b)
      ((readable file).drop (offset (scanAll stop step s b))) =
        scanAll stop step s ((readable file).drop (offset s)) := by
    rw [h, scanAll_append]
    by_cases hstop : stop (scanAll stop step s b) = true
    · rw [scanAll_of_stop hstop, scanAll_of_stop hstop]
    · rw [offset_scanAll hstep (by simpa using hstop), ← List.drop_drop, h, List.drop_left]
  unfold loopEnd
  rw [hscan]

/-- A loop that is over amounts to one pass over what may be read, and reports an early end of the file exactly when the
file is shorter than that and the scan went to its end. -/
theorem readLoop_spec (hchunk : limits.readChunkBytes ≠ 0) {turns : List ReadTurn} {s : σ}
    (hs : offset s ≤ file.contents.length) {r : σ × Bool}
    (h : readLoop limits file offset stop (scanAll stop step) s turns = some (.ok r)) :
    r = loopEnd file offset stop step s := by
  induction turns generalizing s with
  | nil =>
    unfold readLoop at h
    split at h
    · cases h
    · rename_i hend
      rw [loopEnd_of_over hs (by simpa using hend)]
      exact (Except.ok.inj (Option.some.inj h)).symm
  | cons turn turns ih =>
    unfold readLoop at h
    split at h
    case isFalse hend =>
      rw [loopEnd_of_over hs (by simpa using hend)]
      exact (Except.ok.inj (Option.some.inj h)).symm
    case isTrue hgo =>
      obtain ⟨hlt, hstop⟩ : offset s < readLimit file ∧ stop s = false := by simpa using hgo
      split at h
      · cases h
      · cases hread : turn.read with
        | interrupted =>
          rw [hread] at h
          exact ih hs h
        | failed =>
          rw [hread] at h
          cases h
        | returned short =>
          rw [hread] at h
          simp only at h
          split at h
          case isTrue hnil =>
            have hend := pread_eq_nil hchunk hlt hnil
            have hshort : file.contents.length < readLimit file := by omega
            rw [← Except.ok.inj (Option.some.inj h), loopEnd, readable_drop_eq_nil (.inr hend)]
            simp [scanAll, hstop, hlt, hshort]
          case isFalse hne =>
            obtain ⟨rest, hrest⟩ := pread_spec limits file offset s short
            rw [ih ?_ h, loopEnd_scanAll hstep hrest]
            -- the bytes read are bytes of the file
            have hle := offset_scanAll_le stop hstep s
              (pread file (min (readLimit file - offset s) limits.readChunkBytes) (offset s) short)
            have hlen : (pread file (min (readLimit file - offset s) limits.readChunkBytes) (offset s) short).length ≤
                file.contents.length - offset s := by
              rw [pread, List.length_take, List.length_drop]
              omega
            omega

omit hstep in
/-- Only a stop or a failed read is an error. -/
theorem readLoop_ne_error {turns : List ReadTurn} (ht : ∀ t ∈ turns, t.benign) {s : σ} (e : LogAnalysisError) :
    readLoop limits file offset stop (scanAll stop step) s turns ≠ some (.error e) := by
  induction turns generalizing s with
  | nil =>
    unfold readLoop
    split <;> simp
  | cons turn turns ih =>
    obtain ⟨⟨hnone, hfail⟩, ht⟩ := List.forall_mem_cons.1 ht
    unfold readLoop
    split
    · rw [hnone]
      cases hread : turn.read with
      | interrupted => exact ih ht
      | failed => exact absurd hread hfail
      | returned short =>
        simp only [operationError]
        split
        · simp
        · exact ih ht
    · simp

/-- Every read that returns takes the scan on, so the loop ends. -/
theorem readLoop_isSome {turns : List ReadTurn} (ht : ∀ t ∈ turns, t.benign)
    {s : σ} (h : readLimit file < turns.countP ReadTurn.returns + offset s) :
    (readLoop limits file offset stop (scanAll stop step) s turns).isSome = true := by
  induction turns generalizing s with
  | nil =>
    unfold readLoop
    rw [List.countP_nil] at h
    have : decide (offset s < readLimit file) = false := decide_eq_false (by omega)
    simp [this]
  | cons turn turns ih =>
    obtain ⟨⟨hnone, hfail⟩, ht⟩ := List.forall_mem_cons.1 ht
    unfold readLoop
    split
    case isFalse => rfl
    case isTrue hgo =>
      obtain ⟨hlt, hstop⟩ : offset s < readLimit file ∧ stop s = false := by simpa using hgo
      rw [List.countP_cons] at h
      rw [hnone]
      cases hread : turn.read with
      | interrupted =>
        have hret : turn.returns = false := by simp [ReadTurn.returns, hread]
        rw [hret] at h
        exact ih ht (by simpa using h)
      | failed => exact absurd hread hfail
      | returned short =>
        have hret : turn.returns = true := by simp [ReadTurn.returns, hread]
        rw [if_pos hret] at h
        simp only [operationError]
        split
        case isTrue => rfl
        case isFalse hne =>
          by_cases hover : stop (scanAll stop step s
              (pread file (min (readLimit file - offset s) limits.readChunkBytes) (offset s) short)) = true
          · generalize scanAll stop step s _ = t at hover
            cases turns <;> simp [readLoop, hover]
          · apply ih ht
            rw [offset_scanAll hstep (by simpa using hover)]
            have := List.length_pos_of_ne_nil hne
            omega

end ReadLoop

end LogAnalyzer

end NativeMcp
