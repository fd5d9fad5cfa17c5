import NativeMcp.Tools.LogLines

/-!
# Searching a log

`search` reports the first lines that contain the query, each with the place of its first occurrence, whatever the
schedule of its reads.  Within a line the scanner is either searching, with the overlap of the query and the last bytes,
or capturing the bytes of the preview (`SearchState.Within`).
-/

namespace NativeMcp

open StringSearch

namespace LogAnalyzer

/-! ### The reference -/

/-- Where the first occurrence of the query begins in a line. -/
def occurrence (c : SearchSetup) (content : Bytes) : Option Nat :=
  firstOccurrence c.pattern (content.map fun value => comparable value c.caseSensitive)

/-- How many bytes of the line come before the preview, for an occurrence at `i`. -/
def captureStart (c : SearchSetup) (i : Nat) : Nat := i + c.pattern.length - c.recentCapacity

/-- The bytes of the line that the preview is made of, a final carriage return included. -/
def captured (c : SearchSetup) (content : Bytes) (i : Nat) : Bytes :=
  (content.drop (captureStart c i)).take c.maxPreviewBytes

def searchMatch (c : SearchSetup) (l : LogLine) : Option LogMatch :=
  (occurrence c l.content).map fun i =>
    { lineNumber := l.number
      byteOffset := l.offset + i
      preview := escapePreview (popReturn (captured c l.content i))
      previewTruncatedStart := captureStart c i != 0
      previewTruncatedEnd := captureStart c i + c.maxPreviewBytes < l.content.length }

/-- The lines up to the one with the last match that is wanted. -/
def scannedLines (c : SearchSetup) : Nat → List LogLine → List LogLine
  | _, [] => []
  | wanted, l :: lines =>
    if (occurrence c l.content).isSome then
      if wanted ≤ 1 then [l] else l :: scannedLines c (wanted - 1) lines
    else l :: scannedLines c wanted lines

/-- The result over a whole content. -/
def searchResult (c : SearchSetup) (content : Bytes) (fileChanged : Bool) : LogSearchResult :=
  let scanned := scannedLines c c.maxMatches (logicalLines content)
  { bytesScanned := rawLength scanned
    linesScanned := scanned.length
    matchLimitReached := c.maxMatches ≤ (scanned.filterMap (searchMatch c)).length
    fileChangedDuringRead := fileChanged
    lineMatches := scanned.filterMap (searchMatch c) }

theorem isSome_searchMatch (c : SearchSetup) (l : LogLine) :
    (searchMatch c l).isSome = (occurrence c l.content).isSome := Option.isSome_map

theorem filterMap_scannedLines (c : SearchSetup) {wanted : Nat} (hw : 0 < wanted) (lines : List LogLine) :
    (scannedLines c wanted lines).filterMap (searchMatch c) = (lines.filterMap (searchMatch c)).take wanted := by
  induction lines generalizing wanted with
  | nil => simp [scannedLines]
  | cons l lines ih =>
    unfold scannedLines
    cases ho : searchMatch c l with
    | none =>
      have hsome : (occurrence c l.content).isSome = false := by rw [← isSome_searchMatch, ho]; rfl
      simp [hsome, ho, ih hw]
    | some m =>
      have hsome : (occurrence c l.content).isSome = true := by rw [← isSome_searchMatch, ho]; rfl
      obtain ⟨wanted, rfl⟩ : ∃ n, wanted = n + 1 := ⟨wanted - 1, by omega⟩
      by_cases h1 : wanted = 0
      · simp [hsome, ho, h1]
      · have hlt : ¬ wanted + 1 ≤ 1 := by omega
        simp [hsome, ho, hlt, ih (Nat.pos_of_ne_zero h1)]

theorem prefix_scannedLines (c : SearchSetup) (wanted : Nat) (lines : List LogLine) :
    scannedLines c wanted lines <+: lines := by
  induction lines generalizing wanted with
  | nil => exact List.nil_prefix
  | cons l lines ih =>
    unfold scannedLines
    split
    · split
      · exact List.prefix_append [l] lines
      · exact (List.prefix_cons_inj l).2 (ih _)
    · exact (List.prefix_cons_inj l).2 (ih _)

/-- A scan that finds less than is wanted covers all lines. -/
theorem scannedLines_eq_self (c : SearchSetup) {wanted : Nat} {lines : List LogLine}
    (h : ((scannedLines c wanted lines).filterMap (searchMatch c)).length < wanted) :
    scannedLines c wanted lines = lines := by
  induction lines generalizing wanted with
  | nil => rfl
  | cons l lines ih =>
    unfold scannedLines at h ⊢
    cases ho : occurrence c l.content with
    | none =>
      have hm : searchMatch c l = none := by rw [searchMatch, ho]; rfl
      simp only [ho, Option.isSome_none, Bool.false_eq_true, if_false, List.filterMap_cons_none hm] at h ⊢
      rw [ih h]
    | some i =>
      have hm : (searchMatch c l).isSome = true := by rw [isSome_searchMatch, ho]; rfl
      obtain ⟨m, hm⟩ := Option.isSome_iff_exists.1 hm
      simp only [ho, Option.isSome_some, if_true] at h ⊢
      split at h
      · rw [List.filterMap_cons_some hm] at h
        simp at h
        omega
      · rename_i hlt
        rw [List.filterMap_cons_some hm, List.length_cons] at h
        rw [if_neg hlt, ih (by omega)]

/-- Before the last line scanned less than is wanted has been found. -/
theorem length_filterMap_dropLast (c : SearchSetup) {wanted : Nat} (hw : 0 < wanted) (lines : List LogLine) :
    ((scannedLines c wanted lines).dropLast.filterMap (searchMatch c)).length < wanted := by
  induction lines generalizing wanted with
  | nil => simpa [scannedLines] using hw
  | cons l lines ih =>
    have hcons : ∀ (rest : List LogLine) (n : Nat), (rest.dropLast.filterMap (searchMatch c)).length < n →
        ((l :: rest).dropLast.filterMap (searchMatch c)).length < n + (searchMatch c l).toList.length := by
      intro rest n h
      cases rest with
      | nil => simp at h ⊢; omega
      | cons r rest =>
        rw [List.dropLast_cons_of_ne_nil (List.cons_ne_nil r rest)]
        cases hm : searchMatch c l with
        | none => rw [List.filterMap_cons_none hm]; simpa using h
        | some m => rw [List.filterMap_cons_some hm]; simpa using h
    unfold scannedLines
    cases ho : occurrence c l.content with
    | none =>
      have := hcons _ _ (ih hw)
      simpa [ho, searchMatch] using this
    | some i =>
      by_cases h1 : wanted ≤ 1
      · simpa [h1] using hw
      · have hrest : 0 < wanted - 1 := by omega
        have := hcons _ _ (ih hrest)
        simp only [searchMatch, ho, Option.map_some, Option.toList_some, List.length_singleton] at this
        rw [Option.isSome_some, if_pos rfl, if_neg h1]
        have hsub : wanted - 1 + 1 = wanted := by omega
        rwa [hsub] at this

/-! ### Within a line -/

/-- The setups of accepted searches. -/
structure SearchSetup.Good (c : SearchSetup) : Prop where
  failure : c.failure = buildFailureTable c.pattern
  pattern : 0 < c.pattern.length
  recentCapacity : c.recentCapacity ≤ c.maxPreviewBytes
  maxMatches : 0 < c.maxMatches

theorem good_searchSetup {limits : LogAnalysisLimits} {options : LogSearchOptions}
    (h : searchAccepted limits options = true) : (searchSetup limits options).Good := by
  simp only [searchAccepted, queryIsValid, Bool.and_eq_true, bne_iff_ne] at h
  obtain ⟨⟨⟨⟨hq, hm⟩, -⟩, -⟩, -⟩ := h
  constructor
  · rfl
  · split at hq
    · cases hq
    · rename_i hne
      rw [not_or] at hne
      simpa [searchSetup] using List.length_pos_of_ne_nil hne.1
  · exact Nat.min_le_left _ _
  · exact Nat.pos_of_ne_zero hm

namespace SearchState

/-- The state while the line has no occurrence of the query yet. -/
structure Searching (c : SearchSetup) (current : Bytes) (s : SearchState) : Prop where
  found : s.found = false
  matched : Longest c.pattern (current.map fun value => comparable value c.caseSensitive) s.matched
  recent : s.recent = current.rtake c.recentCapacity
  previewTruncatedEnd : s.previewTruncatedEnd = false

/-- The state once the first occurrence of the query, at `i`, has been read. -/
structure Capturing (c : SearchSetup) (current : Bytes) (i : Nat) (s : SearchState) : Prop where
  found : s.found = true
  matchOffset : s.matchOffset = s.lineStartOffset + i
  preview : s.preview = captured c current i
  captureRemaining : s.captureRemaining + s.preview.length = c.maxPreviewBytes
  previewTruncatedStart : s.previewTruncatedStart = (captureStart c i != 0)
  previewTruncatedEnd : s.previewTruncatedEnd = decide (captureStart c i + c.maxPreviewBytes < current.length)

/-- The state after the bytes `current` of a line. -/
structure Within (c : SearchSetup) (current : Bytes) (s : SearchState) : Prop where
  lineBytes : s.lineBytes = current.length
  haveUnterminatedLine : s.haveUnterminatedLine = decide (current ≠ [])
  absoluteOffset : s.absoluteOffset = s.lineStartOffset + current.length
  stop : s.stop = false
  matchLimitReached : s.matchLimitReached = false
  searching : occurrence c current = none → Searching c current s
  capturing : ∀ i, occurrence c current = some i → Capturing c current i s

variable {c : SearchSetup} {current rest : Bytes} {s : SearchState} {value : UInt8}

theorem occurrence_nil (hc : c.Good) : occurrence c [] = none := by
  rw [occurrence, firstOccurrence_eq_none]
  intro h
  have hlen := h.length_le
  have hpos := hc.pattern
  rw [List.length_map, List.length_nil] at hlen
  omega

theorem occurrence_concat_of_some {i : Nat} (h : occurrence c current = some i) (value : UInt8) :
    occurrence c (current ++ [value]) = some i := by
  rw [occurrence, List.map_append]
  exact firstOccurrence_append h _

/-- The occurrence of a line ends inside it. -/
theorem le_length_of_occurrence {i : Nat} (h : occurrence c current = some i) :
    i + c.pattern.length ≤ current.length := by
  obtain ⟨hi, hp, -⟩ := firstOccurrence_eq_some.1 h
  have := hp.length_le
  simp only [List.length_map, List.length_drop] at hi this
  omega

/-- The bytes of a preview are bytes of the line, at most as many as a preview has. -/
theorem length_captured (c : SearchSetup) (current : Bytes) (i : Nat) :
    (captured c current i).length = min c.maxPreviewBytes (current.length - captureStart c i) := by
  simp [captured]

/-- An occurrence that the last byte completes: the preview starts from the recent bytes. -/
theorem captured_of_end {i : Nat} (hc : c.Good) (h : i + c.pattern.length = current.length) :
    captured c current i = current.rtake c.recentCapacity := by
  rw [captured, captureStart, h, List.rtake, List.take_of_length_le]
  rw [List.length_drop]
  have := hc.recentCapacity
  omega

theorem captured_concat {i : Nat} (h : captureStart c i ≤ current.length) (value : UInt8) :
    captured c (current ++ [value]) i =
      if (captured c current i).length < c.maxPreviewBytes then captured c current i ++ [value]
      else captured c current i := by
  rw [length_captured, captured, captured, List.drop_append_of_le_length h, List.take_append, List.length_drop]
  split
  case isTrue hlt =>
    obtain ⟨n, hn⟩ : ∃ n, c.maxPreviewBytes - (current.length - captureStart c i) = n + 1 :=
      ⟨c.maxPreviewBytes - (current.length - captureStart c i) - 1, by omega⟩
    rw [hn, List.take_succ_cons, List.take_nil]
  case isFalse hge =>
    have hn : c.maxPreviewBytes - (current.length - captureStart c i) = 0 := by omega
    rw [hn]
    simp

/-- A byte that is no newline leaves the results and the place of the line. -/
theorem scanByte_frame (c : SearchSetup) (s : SearchState) (hv : value ≠ newline) :
    (scanByte c s value).lineStartOffset = s.lineStartOffset ∧ (scanByte c s value).lineNumber = s.lineNumber ∧
      (scanByte c s value).linesScanned = s.linesScanned ∧ (scanByte c s value).lineMatches = s.lineMatches ∧
      (scanByte c s value).stop = s.stop ∧ (scanByte c s value).matchLimitReached = s.matchLimitReached ∧
      (scanByte c s value).lineBytes = s.lineBytes + 1 ∧ (scanByte c s value).haveUnterminatedLine = true ∧
      (scanByte c s value).absoluteOffset = s.absoluteOffset + 1 := by
  unfold scanByte
  rw [if_neg hv]
  by_cases hf : s.found = true
  · by_cases hr : 0 < s.captureRemaining <;> simp [hf, hr]
  · simp only [hf, if_false, Bool.false_eq_true]
    split <;> simp

/-- A byte that completes no occurrence extends the overlap; one that does starts the capture. -/
theorem searching_byte (hc : c.Good) (h : Searching c current s) (hv : value ≠ newline)
    (hbytes : s.lineBytes = current.length) (hoff : s.absoluteOffset = s.lineStartOffset + current.length)
    (hnone : occurrence c current = none) :
    (occurrence c (current ++ [value]) = none → Searching c (current ++ [value]) (scanByte c s value)) ∧
      ∀ i, occurrence c (current ++ [value]) = some i → Capturing c (current ++ [value]) i (scanByte c s value) := by
  have hT : IsFailureTable c.pattern c.failure c.pattern.length := by
    rw [hc.failure]
    exact isFailureTable_buildFailureTable c.pattern
  have hlong : Longest c.pattern ((current ++ [value]).map fun value => comparable value c.caseSensitive)
      (advance c.pattern c.failure s.matched (comparable value c.caseSensitive)) := by
    rw [List.map_append]
    exact longest_advance (fun m h0 hm => hT m h0 (Nat.le_trans hm h.matched.overlap.1)) h.matched
  have hocc : occurrence c (current ++ [value]) =
      if c.pattern <:+ (current ++ [value]).map fun value => comparable value c.caseSensitive then
        some (current.length + 1 - c.pattern.length) else none := by
    rw [occurrence, List.map_append]
    have := firstOccurrence_concat hnone (comparable value c.caseSensitive)
    rwa [List.length_map] at this
  simp only [hocc, ← hlong.eq_length_iff]
  by_cases hfull : advance c.pattern c.failure s.matched (comparable value c.caseSensitive) = c.pattern.length
  · rw [if_pos hfull]
    have hscan : scanByte c s value =
        { s with
          haveUnterminatedLine := true
          lineBytes := s.lineBytes + 1
          recent := (current ++ [value]).rtake c.recentCapacity
          matched := c.pattern.length
          found := true
          matchOffset := s.absoluteOffset + 1 - c.pattern.length
          preview := (current ++ [value]).rtake c.recentCapacity
          previewTruncatedStart := ((current ++ [value]).rtake c.recentCapacity).length < s.lineBytes + 1
          captureRemaining := c.maxPreviewBytes - ((current ++ [value]).rtake c.recentCapacity).length
          absoluteOffset := s.absoluteOffset + 1 } := by
      simp [scanByte, hv, h.found, h.recent, pushBounded_rtake, hfull]
    have hle : c.pattern.length ≤ current.length + 1 := by
      have := hlong.overlap.le_length
      simpa [hfull] using this
    refine ⟨by simp, ?_⟩
    rintro i ⟨rfl⟩
    have hend : current.length + 1 - c.pattern.length + c.pattern.length = (current ++ [value]).length := by
      rw [List.length_append, List.length_singleton]
      omega
    have hcap := hc.recentCapacity
    rw [hscan]
    constructor
    · rfl
    · show s.absoluteOffset + 1 - c.pattern.length = s.lineStartOffset + (current.length + 1 - c.pattern.length)
      omega
    · exact (captured_of_end hc hend).symm
    · simp only [length_rtake]
      omega
    · simp only [length_rtake, hbytes, captureStart, hend, List.length_append, List.length_singleton]
      rw [Bool.eq_iff_iff]
      simp
      omega
    · simp only [h.previewTruncatedEnd, captureStart, hend]
      simp
      omega
  · rw [if_neg hfull]
    have hscan : scanByte c s value =
        { s with
          haveUnterminatedLine := true
          lineBytes := s.lineBytes + 1
          recent := (current ++ [value]).rtake c.recentCapacity
          matched := advance c.pattern c.failure s.matched (comparable value c.caseSensitive)
          absoluteOffset := s.absoluteOffset + 1 } := by
      simp [scanByte, hv, h.found, h.recent, pushBounded_rtake, hfull]
    refine ⟨fun _ => ?_, by simp⟩
    rw [hscan]
    exact ⟨h.found, hlong, rfl, h.previewTruncatedEnd⟩

/-- Captured bytes are counted down, the rest only noted. -/
theorem capturing_byte {i : Nat} (h : Capturing c current i s) (hv : value ≠ newline)
    (hocc : occurrence c current = some i) : Capturing c (current ++ [value]) i (scanByte c s value) := by
  have hle := le_length_of_occurrence hocc
  have hstart : captureStart c i ≤ current.length := by
    unfold captureStart
    omega
  have hcap := captured_concat hstart value
  have hlen := length_captured c current i
  have hrem := h.captureRemaining
  rw [h.preview] at hrem
  by_cases hr : 0 < s.captureRemaining
  · have hscan : scanByte c s value =
        { s with
          haveUnterminatedLine := true
          lineBytes := s.lineBytes + 1
          preview := captured c (current ++ [value]) i
          captureRemaining := s.captureRemaining - 1
          absoluteOffset := s.absoluteOffset + 1 } := by
      rw [hcap, if_pos (by omega)]
      simp [scanByte, hv, h.found, h.preview, hr]
    rw [hscan]
    constructor
    · exact h.found
    · exact h.matchOffset
    · rfl
    · simp only [hcap, if_pos (show (captured c current i).length < c.maxPreviewBytes by omega), List.length_append,
        List.length_singleton]
      omega
    · exact h.previewTruncatedStart
    · simp only [h.previewTruncatedEnd, List.length_append, List.length_singleton]
      rw [Bool.eq_iff_iff]
      simp
      omega
  · have hscan : scanByte c s value =
        { s with
          haveUnterminatedLine := true
          lineBytes := s.lineBytes + 1
          preview := captured c (current ++ [value]) i
          previewTruncatedEnd := true
          absoluteOffset := s.absoluteOffset + 1 } := by
      rw [hcap, if_neg (by omega)]
      simp [scanByte, hv, h.found, h.preview, hr]
    rw [hscan]
    constructor
    · exact h.found
    · exact h.matchOffset
    · rfl
    · simp only [hcap, if_neg (show ¬ (captured c current i).length < c.maxPreviewBytes by omega)]
      omega
    · exact h.previewTruncatedStart
    · simp only [List.length_append, List.length_singleton]
      symm
      rw [decide_eq_true_iff]
      omega

/-- One more byte of the line. -/
theorem within_byte (hc : c.Good) (h : Within c current s) (hv : value ≠ newline) :
    Within c (current ++ [value]) (scanByte c s value) := by
  obtain ⟨hstart, -, -, -, hstop, hlimit, hbytes, hun, hoff⟩ := scanByte_frame c s hv
  have habs := h.absoluteOffset
  constructor
  · rw [hbytes, h.lineBytes, List.length_append, List.length_singleton]
  · rw [hun]
    simp
  · rw [hoff, hstart, habs, List.length_append, List.length_singleton]
    omega
  · rw [hstop, h.stop]
  · rw [hlimit, h.matchLimitReached]
  · intro hnone
    cases hocc : occurrence c current with
    | some i =>
      rw [occurrence_concat_of_some hocc] at hnone
      cases hnone
    | none => exact (searching_byte hc (h.searching hocc) hv h.lineBytes habs hocc).1 hnone
  · intro i hi
    cases hocc : occurrence c current with
    | some k =>
      rw [occurrence_concat_of_some hocc] at hi
      rw [← Option.some.inj hi]
      exact capturing_byte (h.capturing k hocc) hv hocc
    | none => exact (searching_byte hc (h.searching hocc) hv h.lineBytes habs hocc).2 i hi

/-! ### A whole scan -/

/-- The match that the end of the line reports, if any. -/
def reported (c : SearchSetup) (current : Bytes) (s : SearchState) : List LogMatch :=
  (searchMatch c ⟨s.lineNumber, s.lineStartOffset, current, false⟩).toList

/-- The end of the line brings the last match wanted. -/
def isLast (c : SearchSetup) (current : Bytes) (s : SearchState) : Bool :=
  (occurrence c current).isSome && decide (c.maxMatches ≤ s.lineMatches.length + (reported c current s).length)

/-- The state at the start of the next line. -/
def nextLine (c : SearchSetup) (current : Bytes) (s : SearchState) (offset : Nat) : SearchState where
  linesScanned := s.linesScanned + 1
  lineMatches := s.lineMatches ++ reported c current s
  matchLimitReached := isLast c current s
  absoluteOffset := offset
  lineNumber := s.lineNumber + 1
  lineStartOffset := s.absoluteOffset + 1
  stop := isLast c current s

theorem finishLine_spec (h : Within c current s) : finishLine c s = nextLine c current s s.absoluteOffset := by
  have hstop := h.stop
  have hlimit := h.matchLimitReached
  cases hocc : occurrence c current with
  | none =>
    have hfound := (h.searching hocc).found
    simp [finishLine, pushMatch, resetLine, nextLine, reported, isLast, searchMatch, hocc, hfound, hstop, hlimit]
  | some i =>
    obtain ⟨hfound, hoff, hprev, -, hts, hte⟩ := h.capturing i hocc
    by_cases hfull : c.maxMatches ≤ s.lineMatches.length + 1 <;>
      simp [finishLine, pushMatch, resetLine, nextLine, reported, isLast, searchMatch, hocc, hfound, hoff, hprev, hts,
        hte, hstop, hlimit, hfull]

/-- A new line starts with nothing matched. -/
theorem within_nextLine (hc : c.Good) (h : isLast c current s = false) :
    Within c [] (nextLine c current s (s.absoluteOffset + 1)) := by
  have hnone := occurrence_nil hc
  constructor
  · rfl
  · rfl
  · rfl
  · exact h
  · exact h
  · intro _
    exact ⟨rfl, longest_nil, by simp [nextLine], rfl⟩
  · intro i hi
    rw [hnone] at hi
    cases hi

/-- The scan goes on after a line unless it had the last match wanted. -/
theorem scannedLines_cons (c : SearchSetup) (s : SearchState) (hw : s.lineMatches.length < c.maxMatches)
    (terminated : Bool) (lines : List LogLine) :
    scannedLines c (c.maxMatches - s.lineMatches.length) (⟨s.lineNumber, s.lineStartOffset, current, terminated⟩ :: lines) =
      ⟨s.lineNumber, s.lineStartOffset, current, terminated⟩ ::
        if isLast c current s then []
        else scannedLines c (c.maxMatches - (s.lineMatches ++ reported c current s).length) lines := by
  rw [scannedLines, isLast, List.length_append]
  cases hocc : occurrence c current with
  | none => simp [reported, searchMatch, hocc]
  | some i =>
    by_cases hlast : c.maxMatches ≤ s.lineMatches.length + 1
    · have hwanted : c.maxMatches - s.lineMatches.length ≤ 1 := by omega
      simp [reported, searchMatch, hocc, hlast, hwanted]
    · have hwanted : ¬ c.maxMatches - s.lineMatches.length ≤ 1 := by omega
      simp [reported, searchMatch, hocc, hlast, hwanted, Nat.sub_add_eq]

/-- What one line adds to the matches. -/
theorem filterMap_cons_reported (c : SearchSetup) (s : SearchState) (terminated : Bool) (lines : List LogLine) :
    (LogLine.mk s.lineNumber s.lineStartOffset current terminated :: lines).filterMap (searchMatch c) =
      reported c current s ++ lines.filterMap (searchMatch c) := by
  have hsame : searchMatch c ⟨s.lineNumber, s.lineStartOffset, current, terminated⟩ =
      searchMatch c ⟨s.lineNumber, s.lineStartOffset, current, false⟩ := rfl
  rw [List.filterMap_cons, hsame, reported]
  split <;> simp_all

theorem isLast_iff (c : SearchSetup) (current : Bytes) (s : SearchState) (hw : s.lineMatches.length < c.maxMatches) :
    isLast c current s = decide (c.maxMatches ≤ s.lineMatches.length + (reported c current s).length) := by
  rw [isLast]
  cases hocc : occurrence c current with
  | none => simp [reported, searchMatch, hocc, hw]
  | some i => simp

/-- The scan of the remaining bytes, by induction on them: a newline finishes the line, any other byte extends it, and
nothing is scanned after the line with the last match wanted. -/
theorem toResult_scan (rest : Bytes) (hc : c.Good) (h : Within c current s) (hw : s.lineMatches.length < c.maxMatches)
    (endOfFile sizeChanged : Bool) :
    let scanned := scannedLines c (c.maxMatches - s.lineMatches.length)
      (linesFrom s.lineNumber s.lineStartOffset current rest)
    (scanAll (·.stop) (scanByte c) s rest).toResult c endOfFile sizeChanged =
      { bytesScanned := s.lineStartOffset + rawLength scanned
        linesScanned := s.linesScanned + scanned.length
        matchLimitReached :=
          decide (c.maxMatches ≤ (s.lineMatches ++ scanned.filterMap (searchMatch c)).length)
        fileChangedDuringRead := endOfFile || sizeChanged
        lineMatches := s.lineMatches ++ scanned.filterMap (searchMatch c) } := by
  have hoff := h.absoluteOffset
  have hstop := h.stop
  induction rest generalizing current s with
  | nil =>
    have hun := h.haveUnterminatedLine
    have hlimit := h.matchLimitReached
    by_cases hcur : current = []
    · subst hcur
      simp [scanAll, toResult, linesFrom, scannedLines, hun, hoff, hlimit]
      omega
    · have hfin := finishLine_spec h
      simp only [linesFrom, if_neg hcur, scannedLines_cons c s hw, scannedLines, ite_self,
        filterMap_cons_reported, List.filterMap_nil, List.append_nil]
      simp [scanAll, toResult, hfin, nextLine, isLast_iff c current s hw, LogLine.raw, hoff, hstop, hun, hcur]
  | cons value rest ih =>
    by_cases hv : value = newline
    · subst hv
      have hscan : scanAll (·.stop) (scanByte c) s (newline :: rest) =
          scanAll (·.stop) (scanByte c) (nextLine c current s (s.absoluteOffset + 1)) rest := by
        simp [scanAll, hstop, scanByte, finishLine_spec h, nextLine]
      simp only [linesFrom, if_true, scannedLines_cons c s hw, filterMap_cons_reported]
      rw [hscan]
      by_cases hlast : isLast c current s = true
      · -- the last match wanted: the rest is not looked at
        have hfrozen : (nextLine c current s (s.absoluteOffset + 1)).stop = true := hlast
        rw [scanAll_of_stop hfrozen, if_pos hlast]
        rw [isLast_iff c current s hw] at hlast
        simp [toResult, nextLine, isLast_iff c current s hw, LogLine.raw, hoff]
        omega
      · rw [Bool.not_eq_true] at hlast
        have hmore : (nextLine c current s (s.absoluteOffset + 1)).lineMatches.length < c.maxMatches := by
          rw [isLast_iff c current s hw, decide_eq_false_iff_not] at hlast
          simp only [nextLine, List.length_append]
          omega
        have hrest := ih (within_nextLine hc hlast) hmore rfl hlast
        simp only [hlast, Bool.false_eq_true, if_false]
        rw [hrest]
        simp [nextLine, hoff, LogLine.raw]
        omega
    · have hscan : scanAll (·.stop) (scanByte c) s (value :: rest) =
          scanAll (·.stop) (scanByte c) (scanByte c s value) rest := by
        simp [scanAll, hstop]
      obtain ⟨hstart, hnum, hlines, hmatches, -⟩ := scanByte_frame c s hv
      have hw' := within_byte hc h hv
      have hrest := ih hw' (by rw [hmatches]; exact hw) hw'.absoluteOffset hw'.stop
      simp only [hstart, hnum, hlines, hmatches] at hrest
      simp only [linesFrom, if_neg hv]
      rw [hscan]
      exact hrest

theorem absoluteOffset_scanByte (c : SearchSetup) (s : SearchState) (value : UInt8) :
    (scanByte c s value).absoluteOffset = s.absoluteOffset + 1 := by
  by_cases hv : value = newline
  · have hfin : (finishLine c s).absoluteOffset = s.absoluteOffset := by
      unfold finishLine pushMatch
      by_cases hf : s.found = true
      · simp only [hf, if_true]
        split <;> rfl
      · simp [hf, resetLine]
    rw [scanByte, if_pos hv]
    show (finishLine c s).absoluteOffset + 1 = _
    rw [hfin]
  · obtain ⟨-, -, -, -, -, -, -, -, h⟩ := scanByte_frame c s hv
    exact h

end SearchState

/-- The file was shorter than what was to be read, or has another size after the scan. -/
def searchFileChanged (c : SearchSetup) (file : ReadOnlyFile) : Bool :=
  (loopEnd file (·.absoluteOffset) (·.stop) (SearchState.scanByte c) {}).2 || fileSizeChanged file

section Runs

variable {limits : LogAnalysisLimits} {file : ReadOnlyFile} {options : LogSearchOptions} {turns : List ReadTurn}

theorem search_eq (haccept : searchAccepted limits options = true) (hsize : file.observedSize ≤ limits.maxScanBytes)
    (turns : List ReadTurn) : search limits file options .none turns =
      (readLoop limits file (·.absoluteOffset) (·.stop)
        (scanAll (·.stop) (SearchState.scanByte (searchSetup limits options))) {} turns).map
          (·.map fun r => r.1.toResult (searchSetup limits options) r.2 (fileSizeChanged file)) := by
  have hconsume : SearchState.scanBuffer (searchSetup limits options) =
      scanAll (·.stop) (SearchState.scanByte (searchSetup limits options)) := rfl
  simp [search, operationError, haccept, Nat.not_lt.2 hsize, hconsume]

/-- A search that returns a result was accepted and ran to its end. -/
theorem search_ok {stopReason : OperationStopReason} {r : LogSearchResult}
    (h : search limits file options stopReason turns = some (.ok r)) :
    searchAccepted limits options = true ∧
      r = searchResult (searchSetup limits options) (readable file)
        (searchFileChanged (searchSetup limits options) file) := by
  have haccept : stopReason = .none ∧ searchAccepted limits options = true ∧
      file.observedSize ≤ limits.maxScanBytes := by
    unfold search at h
    split at h
    · cases h
    · rename_i hnone
      split at h
      · cases h
      · rename_i hacc
        split at h
        · cases h
        · rename_i hsize
          refine ⟨?_, by simpa using hacc, by omega⟩
          cases stopReason <;> first | rfl | cases hnone
  obtain ⟨rfl, haccept, hsize⟩ := haccept
  refine ⟨haccept, ?_⟩
  have hgood := good_searchSetup haccept
  have hchunk : limits.readChunkBytes ≠ 0 := by
    simp only [searchAccepted, Bool.and_eq_true, bne_iff_ne] at haccept
    exact haccept.2
  rw [search_eq haccept hsize] at h
  generalize searchSetup limits options = c at h hgood
  obtain ⟨outcome, hloop, ho⟩ := Option.map_eq_some_iff.1 h
  cases outcome with
  | error e => cases ho
  | ok s =>
    have hstart : SearchState.Within c [] {} := by
      have hnone := SearchState.occurrence_nil hgood
      refine ⟨rfl, rfl, rfl, rfl, rfl, fun _ => ⟨rfl, longest_nil, by simp, rfl⟩, ?_⟩
      intro i hi
      rw [hnone] at hi
      cases hi
    have hscan := SearchState.toResult_scan (readable file) hgood hstart hgood.maxMatches
      (loopEnd file (·.absoluteOffset) (·.stop) (SearchState.scanByte c) {}).2 (fileSizeChanged file)
    rw [readLoop_spec (SearchState.absoluteOffset_scanByte c) hchunk (Nat.zero_le _) hloop] at ho
    rw [← Except.ok.inj ho]
    simp only [loopEnd, List.drop_zero] at hscan ⊢
    rw [hscan, Nat.zero_add, Nat.zero_add]
    rfl

/-- The outcome of every run of `search` on an accepted request. -/
theorem search_spec (haccept : searchAccepted limits options = true) (hsize : file.observedSize ≤ limits.maxScanBytes)
    (ht : ∀ t ∈ turns, t.benign) :
    (∀ outcome, search limits file options .none turns = some outcome →
      outcome = .ok (searchResult (searchSetup limits options) (readable file)
        (searchFileChanged (searchSetup limits options) file))) ∧
    (readLimit file < turns.countP ReadTurn.returns → (search limits file options .none turns).isSome = true) := by
  constructor
  · intro outcome ho
    cases outcome with
    | ok r => rw [(search_ok ho).2]
    | error e =>
      rw [search_eq haccept hsize] at ho
      obtain ⟨outcome, hloop, he⟩ := Option.map_eq_some_iff.1 ho
      cases outcome with
      | error e => exact absurd hloop (readLoop_ne_error ht e)
      | ok s => cases he
  · intro hcount
    rw [search_eq haccept hsize, Option.isSome_map]
    exact readLoop_isSome (SearchState.absoluteOffset_scanByte _) ht hcount

end Runs

/-! ### What a search reports -/

/-- Where a line contains the query: the number of the line and the offset of its leftmost occurrence. -/
def place (options : LogSearchOptions) (l : LogLine) : Option (Nat × Nat) :=
  (firstOccurrence (options.query.map fun value => comparable value options.caseSensitive)
    (l.content.map fun value => comparable value options.caseSensitive)).map fun i => (l.number, l.offset + i)

theorem place_eq (limits : LogAnalysisLimits) (options : LogSearchOptions) (l : LogLine) :
    place options l = (searchMatch (searchSetup limits options) l).map fun m => (m.lineNumber, m.byteOffset) := by
  rw [searchMatch, Option.map_map]
  rfl

theorem filterMap_place (limits : LogAnalysisLimits) (options : LogSearchOptions) (lines : List LogLine) :
    lines.filterMap (place options) =
      (lines.filterMap (searchMatch (searchSetup limits options))).map fun m => (m.lineNumber, m.byteOffset) := by
  rw [List.map_filterMap]
  exact List.filterMap_congr fun l _ => place_eq limits options l

/-- `search` reports the first lines that contain the query, up to the limit, and counts the lines and bytes up to and
including the line that reached it.  The result is settled by the file, the options and the limits: it is the same for
every size of the reads and every schedule of them, and a run is over once more reads have returned than there are bytes
to read. -/
theorem search_correct (limits : LogAnalysisLimits) (file : ReadOnlyFile) (options : LogSearchOptions)
    (haccept : searchAccepted limits options = true) (hsize : file.observedSize ≤ limits.maxScanBytes) :
    ∃ (r : LogSearchResult) (scanned : List LogLine),
      r.lineMatches.map (fun m => (m.lineNumber, m.byteOffset)) =
        ((logicalLines (readable file)).filterMap (place options)).take options.maxMatches ∧
      (r.matchLimitReached = true ↔ r.lineMatches.length = options.maxMatches) ∧
      r.linesScanned = scanned.length ∧
      r.bytesScanned = rawLength scanned ∧
      scanned <+: logicalLines (readable file) ∧
      scanned.filterMap (place options) = r.lineMatches.map (fun m => (m.lineNumber, m.byteOffset)) ∧
      (r.matchLimitReached = false → scanned = logicalLines (readable file)) ∧
      (scanned.dropLast.filterMap (place options)).length < options.maxMatches ∧
      ∀ chunk, chunk ≠ 0 → ∀ turns : List ReadTurn, (∀ t ∈ turns, t.benign) →
        (search { limits with readChunkBytes := chunk } file options .none turns = none ∨
          search { limits with readChunkBytes := chunk } file options .none turns = some (.ok r)) ∧
        (readLimit file < turns.countP ReadTurn.returns →
          search { limits with readChunkBytes := chunk } file options .none turns = some (.ok r)) := by
  have hgood := good_searchSetup haccept
  have hmax := hgood.maxMatches
  have htake := filterMap_scannedLines (searchSetup limits options) hmax (logicalLines (readable file))
  have hlen : ((scannedLines (searchSetup limits options) options.maxMatches (logicalLines (readable file))).filterMap
      (searchMatch (searchSetup limits options))).length ≤ options.maxMatches := by
    have := congrArg List.length htake
    rw [List.length_take] at this
    exact this ▸ Nat.min_le_left _ _
  refine ⟨searchResult (searchSetup limits options) (readable file)
      (searchFileChanged (searchSetup limits options) file),
    scannedLines (searchSetup limits options) options.maxMatches (logicalLines (readable file)),
    ?_, ?_, rfl, rfl, prefix_scannedLines _ _ _, filterMap_place limits options _, ?_, ?_, ?_⟩
  · rw [filterMap_place limits, ← List.map_take]
    exact congrArg _ htake
  · show decide _ = true ↔ _
    rw [decide_eq_true_iff]
    exact ⟨fun h => Nat.le_antisymm hlen h, fun h => Nat.le_of_eq h.symm⟩
  · intro h
    apply scannedLines_eq_self
    have h : decide _ = false := h
    rw [decide_eq_false_iff_not, Nat.not_le] at h
    exact h
  · rw [filterMap_place limits, List.length_map]
    exact length_filterMap_dropLast (searchSetup limits options) hmax _
  · intro chunk hchunk turns ht
    have hacc : searchAccepted { limits with readChunkBytes := chunk } options = true := by
      simp only [searchAccepted, Bool.and_eq_true, bne_iff_ne] at haccept ⊢
      exact ⟨haccept.1, hchunk⟩
    obtain ⟨hres, hend⟩ := search_spec hacc hsize ht
    constructor
    · cases hrun : search { limits with readChunkBytes := chunk } file options .none turns with
      | none => exact .inl rfl
      | some outcome => exact .inr (congrArg some (hres outcome hrun))
    · intro hcount
      obtain ⟨outcome, hrun⟩ := Option.isSome_iff_exists.1 (hend hcount)
      rw [hrun, hres outcome hrun]
      rfl

/-- Two lines contain the query, the first one is wanted; the reads return two bytes each, which splits the match. -/
theorem search_correct_first : ∃ r : LogSearchResult,
    r.lineMatches.map (fun m => (m.lineNumber, m.byteOffset)) = [(2, 3)] ∧
      search { readChunkBytes := 2 } ⟨bytes "a\nxERR\nerr", 10, 10, some 10⟩
        { query := bytes "er", caseSensitive := false, maxMatches := 1 } .none
        (List.replicate 11 ⟨.none, .returned 5⟩) = some (.ok r) := by
  obtain ⟨r, -, hplaces, -, -, -, -, -, -, -, hrun⟩ := search_correct {}
    ⟨bytes "a\nxERR\nerr", 10, 10, some 10⟩ { query := bytes "er", caseSensitive := false, maxMatches := 1 } (by decide +kernel) (by decide)
  refine ⟨r, ?_, (hrun 2 (by decide) _ ?_).2 (by decide)⟩
  · rw [hplaces]
    decide +kernel
  · intro t ht
    rw [List.eq_of_mem_replicate ht]
    exact ⟨rfl, by decide⟩

end LogAnalyzer

end NativeMcp
