import Mathlib.Data.List.Infix
import NativeMcp.Tools.LogSearch

/-!
# The previews of a search

A preview shows a window of its line, the carriage return before the line end left out.  The window is where the scanner
captured it, and the flag for bytes left out before it is right.  The flag for bytes left out behind it counts the
carriage return when the capture ended just before it, although the text leaves it out in every case: there, and only
there, the flag is wrong (`windowOf_iff`).
-/

namespace NativeMcp

open StringSearch

namespace LogAnalyzer

/-- The text of a line: its bytes without a final carriage return. -/
def LogLine.text (l : LogLine) : Bytes := popReturn l.content

/-- The bytes that a preview shows. -/
def shown (c : SearchSetup) (l : LogLine) (i : Nat) : Bytes := popReturn (captured c l.content i)

/-- What a preview promises of a line whose first occurrence is at `i`: the bytes shown are a window of the text that
has the occurrence inside, and the flags say what the window leaves out. -/
structure Window (c : SearchSetup) (l : LogLine) (i : Nat) (m : LogMatch) (before after : Bytes) : Prop where
  text : l.text = before ++ shown c l i ++ after
  start : before.length ≤ i
  finish : i + c.pattern.length ≤ before.length + (shown c l i).length
  bounded : (shown c l i).length ≤ c.maxPreviewBytes
  truncatedStart : m.previewTruncatedStart = true ↔ before ≠ []
  truncatedEnd : m.previewTruncatedEnd = true ↔ after ≠ []

/-- The text ends where the capture ends, and a carriage return follows that is not the last of several. -/
def CutAtReturn (c : SearchSetup) (l : LogLine) (i : Nat) : Prop :=
  l.content.getLast? = some carriageReturn ∧ l.text.length = captureStart c i + c.maxPreviewBytes ∧
    l.text.getLast? ≠ some carriageReturn

/-! ### Leaving out a carriage return -/

theorem popReturn_cases (l : Bytes) :
    (popReturn l = l ∧ l.getLast? ≠ some carriageReturn) ∨ l = popReturn l ++ [carriageReturn] := by
  unfold popReturn
  split
  case isTrue h =>
    obtain ⟨t, rfl⟩ := List.getLast?_eq_some_iff.1 h
    right
    simp
  case isFalse h => exact .inl ⟨rfl, h⟩

theorem popReturn_concat (l : Bytes) : popReturn (l ++ [carriageReturn]) = l := by simp [popReturn]

theorem prefix_popReturn (l : Bytes) : popReturn l <+: l := by
  rcases popReturn_cases l with ⟨h, -⟩ | h
  · exact ⟨[], by rw [h, List.append_nil]⟩
  · exact ⟨_, h.symm⟩

/-! ### The window -/

/-- The setups of accepted searches whose query fits into a preview. -/
structure SearchSetup.Fits (c : SearchSetup) : Prop extends c.Good where
  noReturn : carriageReturn ∉ c.pattern
  fits : c.pattern.length ≤ c.recentCapacity

variable {c : SearchSetup} {l : LogLine} {i : Nat}

/-- The last byte of an occurrence is no carriage return. -/
theorem getElem?_ne_return (hc : c.Fits) (h : occurrence c l.content = some i) :
    l.content[i + c.pattern.length - 1]? ≠ some carriageReturn := by
  obtain ⟨-, ⟨t, ht⟩, -⟩ := firstOccurrence_eq_some.1 h
  have hpos := hc.pattern
  intro hr
  have hget : (c.pattern ++ t)[c.pattern.length - 1]? = some carriageReturn := by
    have hidx : i + (c.pattern.length - 1) = i + c.pattern.length - 1 := by omega
    have hret : comparable carriageReturn c.caseSensitive = carriageReturn := by
      cases c.caseSensitive <;> rfl
    rw [ht, List.getElem?_drop, List.getElem?_map, hidx, hr, Option.map_some, hret]
  rw [List.getElem?_append_left (by omega)] at hget
  exact hc.noReturn (List.mem_of_getElem? hget)

theorem occurrence_le_text (hc : c.Fits) (h : occurrence c l.content = some i) :
    i + c.pattern.length ≤ l.text.length := by
  have hle := SearchState.le_length_of_occurrence h
  rcases popReturn_cases l.content with ⟨heq, -⟩ | heq
  · rw [LogLine.text, heq]
    exact hle
  · by_contra hlt
    have hlen := congrArg List.length heq
    rw [List.length_append, List.length_singleton] at hlen
    rw [LogLine.text] at hlt
    have hlast : i + c.pattern.length - 1 = (popReturn l.content).length := by omega
    apply getElem?_ne_return hc h
    rw [hlast, heq, popReturn_concat, List.getElem?_concat_length]

theorem captureStart_le (hc : c.Fits) (i : Nat) : captureStart c i ≤ i := by
  have := hc.fits
  unfold captureStart
  omega

/-- The occurrence ends within the capacity of the preview. -/
theorem occurrence_le_capture (hc : c.Fits) (i : Nat) :
    i + c.pattern.length ≤ captureStart c i + c.maxPreviewBytes := by
  have := hc.recentCapacity
  unfold captureStart
  omega

/-- The bytes shown are bytes of the text. -/
theorem prefix_shown (hc : c.Fits) (h : occurrence c l.content = some i) :
    shown c l i <+: l.text.drop (captureStart c i) := by
  have hle := occurrence_le_text hc h
  have hs := captureStart_le hc i
  have hcap : captured c l.content i <+: l.content.drop (captureStart c i) := List.take_prefix _ _
  rcases popReturn_cases l.content with ⟨heq, -⟩ | heq
  · rw [LogLine.text, heq]
    exact (prefix_popReturn _).trans hcap
  · have hdrop : l.content.drop (captureStart c i) = l.text.drop (captureStart c i) ++ [carriageReturn] := by
      rw [LogLine.text, ← List.drop_append_of_le_length (by rw [LogLine.text] at hle; omega), ← heq]
    rw [hdrop] at hcap
    rcases List.prefix_concat_iff.1 hcap with hcap | hcap
    · exact ⟨[], by rw [shown, hcap, popReturn_concat, List.append_nil]⟩
    · exact (prefix_popReturn _).trans hcap

/-- The bytes shown reach to the end of the occurrence. -/
theorem occurrence_le_shown (hc : c.Fits) (h : occurrence c l.content = some i) :
    i + c.pattern.length ≤ captureStart c i + (shown c l i).length := by
  have hle := SearchState.le_length_of_occurrence h
  have hs := captureStart_le hc i
  have hcap := occurrence_le_capture hc i
  have hlen := SearchState.length_captured c l.content i
  have hpos := hc.pattern
  rcases popReturn_cases (captured c l.content i) with ⟨heq, -⟩ | heq
  · rw [shown, heq]
    omega
  · by_contra hlt
    have hlen' := congrArg List.length heq
    rw [List.length_append, List.length_singleton] at hlen'
    rw [shown] at hlt
    -- then the byte left out would be the last one of the occurrence
    have hidx : i + c.pattern.length - 1 = captureStart c i + (popReturn (captured c l.content i)).length := by omega
    apply getElem?_ne_return hc h
    have hget : (captured c l.content i)[(popReturn (captured c l.content i)).length]? = some carriageReturn := by
      rw [heq, popReturn_concat, List.getElem?_concat_length]
    rw [hidx, ← List.getElem?_drop]
    rw [captured, List.getElem?_take] at hget
    split at hget
    · exact hget
    · cases hget

theorem getLast?_drop_of_lt {l : Bytes} {n : Nat} (h : n < l.length) : (l.drop n).getLast? = l.getLast? := by
  rw [List.getLast?_drop, if_neg (by omega)]

/-- Text is left out behind the bytes shown exactly when bytes of the line are left out behind the bytes captured,
unless the one byte left out is the carriage return. -/
theorem text_omitted_iff (hc : c.Fits) (h : occurrence c l.content = some i) :
    (captureStart c i + c.maxPreviewBytes < l.content.length ↔
      captureStart c i + (shown c l i).length < l.text.length) ↔ ¬ CutAtReturn c l i := by
  have hle := occurrence_le_text hc h
  have hs := captureStart_le hc i
  have hpos := hc.pattern
  have hlen := SearchState.length_captured c l.content i
  have hshown := (prefix_popReturn (captured c l.content i)).length_le
  unfold CutAtReturn shown
  unfold LogLine.text at hle ⊢
  rcases popReturn_cases l.content with ⟨htext, hlast⟩ | htext
  · -- the line has no carriage return at its end
    rw [htext] at hle ⊢
    refine ⟨fun _ hcut => hlast hcut.1, fun _ => ?_⟩
    by_cases hlt : captureStart c i + c.maxPreviewBytes < l.content.length
    · exact ⟨fun _ => by omega, fun _ => hlt⟩
    · have hall : captured c l.content i = l.content.drop (captureStart c i) := by
        rw [captured, List.take_of_length_le]
        rw [List.length_drop]
        omega
      have hkeep : popReturn (captured c l.content i) = captured c l.content i := by
        unfold popReturn
        rw [hall, getLast?_drop_of_lt (by omega), if_neg hlast]
      rw [hkeep]
      omega
  · have hlong := congrArg List.length htext
    rw [List.length_append, List.length_singleton] at hlong
    have hend : l.content.getLast? = some carriageReturn := by
      rw [htext, List.getLast?_concat]
    have hdrop : l.content.drop (captureStart c i) =
        (popReturn l.content).drop (captureStart c i) ++ [carriageReturn] := by
      rw [← List.drop_append_of_le_length (by omega), ← htext]
    by_cases hcut : (popReturn l.content).length = captureStart c i + c.maxPreviewBytes
    · -- the capture holds all of the text, and the carriage return follows
      have hall : captured c l.content i = (popReturn l.content).drop (captureStart c i) := by
        rw [captured, hdrop, List.take_append_of_le_length (by rw [List.length_drop]; omega), List.take_of_length_le]
        rw [List.length_drop]
        omega
      have hlast : (captured c l.content i).getLast? = (popReturn l.content).getLast? := by
        rw [hall, getLast?_drop_of_lt (by omega)]
      have hfull := congrArg List.length hall
      rw [List.length_drop] at hfull
      rcases popReturn_cases (captured c l.content i) with ⟨hkeep, hne⟩ | hpop
      · rw [hlast] at hne
        rw [hkeep]
        refine ⟨fun hiff => ?_, fun hno => absurd ⟨hend, hcut, hne⟩ hno⟩
        have := hiff.1 (by omega)
        omega
      · have hlen' := congrArg List.length hpop
        rw [List.length_append, List.length_singleton] at hlen'
        have hreturn : (popReturn l.content).getLast? = some carriageReturn := by
          rw [← hlast, hpop, List.getLast?_concat]
        refine ⟨fun _ hno => hno.2.2 hreturn, fun _ => ?_⟩
        omega
    · refine ⟨fun _ h => hcut h.2.1, fun _ => ?_⟩
      by_cases hlt : captureStart c i + c.maxPreviewBytes < l.content.length
      · exact ⟨fun _ => by omega, fun _ => hlt⟩
      · have hall : captured c l.content i = l.content.drop (captureStart c i) := by
          rw [captured, List.take_of_length_le]
          rw [List.length_drop]
          omega
        rw [hall, hdrop, popReturn_concat, List.length_drop]
        omega

/-- Bytes shown at an offset of the text are there in the line. -/
theorem prefix_drop_of_text {before window after : Bytes} (h : l.text = before ++ window ++ after) :
    window <+: l.content.drop before.length := by
  obtain ⟨rest, hrest⟩ := prefix_popReturn l.content
  rw [← hrest]
  change window <+: (l.text ++ rest).drop before.length
  rw [h, List.append_assoc, List.append_assoc, List.drop_left]
  exact List.prefix_append _ _

/-- No earlier part of the text shows the same bytes with the first occurrence inside: the occurrence would be there
earlier, too. -/
theorem captureStart_le_of_window (hc : c.Fits) (h : occurrence c l.content = some i) {before after : Bytes}
    (ht : l.text = before ++ shown c l i ++ after) : captureStart c i ≤ before.length := by
  by_contra hlt
  obtain ⟨-, hp, hmin⟩ := firstOccurrence_eq_some.1 h
  have hs := captureStart_le hc i
  have hle := occurrence_le_shown hc h
  obtain ⟨rest, hrest⟩ := prefix_shown hc h
  have htext : l.text = l.text.take (captureStart c i) ++ shown c l i ++ rest := by
    rw [List.append_assoc, hrest, List.take_append_drop]
  have hhere := prefix_drop_of_text htext
  have hthere := prefix_drop_of_text ht
  have hlen : (l.text.take (captureStart c i)).length = captureStart c i := by
    have := occurrence_le_text hc h
    rw [List.length_take]
    omega
  rw [hlen] at hhere
  -- the occurrence within the bytes shown
  have hin : c.pattern <+: ((shown c l i).map fun value => comparable value c.caseSensitive).drop
      (i - captureStart c i) := by
    have hdrop := (hhere.map fun value => comparable value c.caseSensitive).drop (i - captureStart c i)
    rw [List.map_drop, List.drop_drop, Nat.add_sub_cancel' hs] at hdrop
    apply List.prefix_of_prefix_length_le hp hdrop
    rw [List.length_drop, List.length_map]
    omega
  have hearlier := hin.trans ((hthere.map fun value => comparable value c.caseSensitive).drop (i - captureStart c i))
  rw [List.map_drop, List.drop_drop] at hearlier
  exact hmin _ (by omega) hearlier

/-- The preview of a match keeps its promise exactly when the capture was not cut just before the carriage return. -/
theorem window_iff (hc : c.Fits) (h : occurrence c l.content = some i) {m : LogMatch} (hm : searchMatch c l = some m) :
    (∃ before after, Window c l i m before after) ↔ ¬ CutAtReturn c l i := by
  have hiff := text_omitted_iff hc h
  have hle := occurrence_le_text hc h
  have hs := captureStart_le hc i
  have hstart : m.previewTruncatedStart = (captureStart c i != 0) := by
    simp only [searchMatch, h, Option.map_some, Option.some.injEq] at hm
    exact hm ▸ rfl
  have hend : m.previewTruncatedEnd = decide (captureStart c i + c.maxPreviewBytes < l.content.length) := by
    simp only [searchMatch, h, Option.map_some, Option.some.injEq] at hm
    exact hm ▸ rfl
  constructor
  · rintro ⟨before, after, hw⟩ hcut
    have hb := captureStart_le_of_window hc h hw.text
    have hlong : captureStart c i + c.maxPreviewBytes < l.content.length := by
      rcases popReturn_cases l.content with ⟨-, hne⟩ | heq
      · exact absurd hcut.1 hne
      · have hlen := congrArg List.length heq
        have htext := hcut.2.1
        rw [List.length_append, List.length_singleton] at hlen
        unfold LogLine.text at htext
        omega
    have hno : ¬ captureStart c i + (shown c l i).length < l.text.length :=
      fun hlt => hiff.1 ⟨fun _ => hlt, fun _ => hlong⟩ hcut
    have hafter : after ≠ [] := hw.truncatedEnd.1 (by rw [hend, decide_eq_true_iff]; exact hlong)
    have hlen := congrArg List.length hw.text
    have := List.length_pos_of_ne_nil hafter
    simp only [List.length_append] at hlen
    omega
  · intro hcut
    obtain ⟨rest, hrest⟩ := prefix_shown hc h
    have hlen := congrArg List.length hrest
    rw [List.length_append, List.length_drop] at hlen
    refine ⟨l.text.take (captureStart c i), rest, ?_, ?_, ?_, ?_, ?_, ?_⟩
    · rw [List.append_assoc, hrest, List.take_append_drop]
    · rw [List.length_take]
      omega
    · rw [List.length_take, Nat.min_eq_left (by omega)]
      exact occurrence_le_shown hc h
    · have hcap := (prefix_popReturn (captured c l.content i)).length_le
      rw [SearchState.length_captured] at hcap
      exact Nat.le_trans hcap (Nat.min_le_left _ _)
    · have hpos := hc.pattern
      rw [hstart, bne_iff_ne, Ne, Ne, List.take_eq_nil_iff]
      constructor
      · rintro h0 (h1 | h1)
        · exact h0 h1
        · rw [h1, List.length_nil] at hle
          omega
      · exact fun h0 h1 => h0 (.inl h1)
    · rw [hend, decide_eq_true_iff, hiff.2 hcut, ← List.length_pos_iff]
      omega

/-! ### The matches of a search -/

/-- Folding makes letters of letters only. -/
theorem eq_return_of_comparable {value : UInt8} {caseSensitive : Bool}
    (h : comparable value caseSensitive = carriageReturn) : value = carriageReturn := by
  cases caseSensitive with
  | true => exact h
  | false =>
    by_cases hletter : 0x41 ≤ value ∧ value ≤ 0x5A
    · simp only [comparable, foldAscii, hletter, and_self, if_true, Bool.false_eq_true, if_false] at h
      have hvalue : value = carriageReturn - (0x61 - 0x41) := by rw [← h, UInt8.add_sub_cancel]
      rw [hvalue] at hletter
      exact absurd hletter (by decide)
    · simpa [comparable, foldAscii, hletter] using h

theorem fits_searchSetup {limits : LogAnalysisLimits} {options : LogSearchOptions}
    (h : searchAccepted limits options = true) (hq : options.query.length ≤ limits.maxPreviewBytes) :
    (searchSetup limits options).Fits where
  toGood := good_searchSetup h
  noReturn := by
    simp only [searchAccepted, queryIsValid, Bool.and_eq_true] at h
    obtain ⟨⟨⟨⟨h, -⟩, -⟩, -⟩, -⟩ := h
    split at h
    · cases h
    · simp only [Bool.and_eq_true, Bool.not_eq_true', List.contains_eq_mem, decide_eq_false_iff_not] at h
      intro hmem
      obtain ⟨b, hb, hret⟩ := List.mem_map.1 hmem
      exact h.2 (eq_return_of_comparable hret ▸ hb)
  fits := by
    simp only [searchSetup, List.length_map]
    omega

/-- What a reported preview promises: it escapes the bytes shown of the line with the number of the match, and these are
a window of that line. -/
def Truthful (c : SearchSetup) (content : Bytes) (m : LogMatch) : Prop :=
  ∃ l i, l ∈ logicalLines content ∧ l.number = m.lineNumber ∧ occurrence c l.content = some i ∧
    m.byteOffset = l.offset + i ∧ m.preview = escapePreview (shown c l i) ∧ ∃ before after, Window c l i m before after

/-- The lines that a search reports: the first ones that contain the query. -/
def reportedLines (c : SearchSetup) (content : Bytes) : List LogLine :=
  ((logicalLines content).filter fun l => (occurrence c l.content).isSome).take c.maxMatches

theorem take_filterMap {α β : Type} (f : α → Option β) (n : Nat) (l : List α) :
    (l.filterMap f).take n = ((l.filter fun a => (f a).isSome).take n).filterMap f := by
  induction l generalizing n with
  | nil => simp
  | cons a l ih =>
    cases hf : f a with
    | none => simp [hf, ih]
    | some b =>
      cases n with
      | zero => simp
      | succ n => simp [hf, ih]

theorem mem_searchResult (hc : c.Good) {content : Bytes} {changed : Bool} {m : LogMatch} :
    m ∈ (searchResult c content changed).lineMatches ↔ ∃ l ∈ reportedLines c content, searchMatch c l = some m := by
  have htake := filterMap_scannedLines c hc.maxMatches (logicalLines content)
  have hfilter : ((logicalLines content).filter fun l => (searchMatch c l).isSome) =
      (logicalLines content).filter fun l => (occurrence c l.content).isSome :=
    List.filter_congr fun l _ => isSome_searchMatch c l
  rw [searchResult, htake, take_filterMap, hfilter, List.mem_filterMap]
  rfl

theorem eq_of_number_eq {content : Bytes} {l l' : LogLine} (h : l ∈ logicalLines content)
    (h' : l' ∈ logicalLines content) (hn : l.number = l'.number) : l = l' := by
  obtain ⟨k, hk⟩ := List.mem_iff_getElem?.1 h
  obtain ⟨k', hk'⟩ := List.mem_iff_getElem?.1 h'
  have hnum := (logicalLines_getElem? hk).1
  have hnum' := (logicalLines_getElem? hk').1
  have hkk : k = k' := by omega
  subst hkk
  exact Option.some.inj (hk.symm.trans hk')

/-- The previews of a search are truthful exactly when no reported line is cut just before its carriage return.  A query
longer than a preview is excluded. -/
theorem previews_truthful_iff (limits : LogAnalysisLimits) (file : ReadOnlyFile) (options : LogSearchOptions)
    (stopReason : OperationStopReason) (turns : List ReadTurn) {r : LogSearchResult}
    (hq : options.query.length ≤ limits.maxPreviewBytes)
    (h : search limits file options stopReason turns = some (.ok r)) :
    (∀ m ∈ r.lineMatches, Truthful (searchSetup limits options) (readable file) m) ↔
      ∀ l ∈ reportedLines (searchSetup limits options) (readable file), ∀ i,
        occurrence (searchSetup limits options) l.content = some i → ¬ CutAtReturn (searchSetup limits options) l i := by
  obtain ⟨haccept, rfl⟩ := search_ok h
  have hc := fits_searchSetup haccept hq
  generalize searchSetup limits options = c at hc
  constructor
  · intro htrue l hl i hocc
    obtain ⟨m, hm⟩ : ∃ m, searchMatch c l = some m := by
      rw [searchMatch, hocc]
      exact ⟨_, rfl⟩
    obtain ⟨l', i', hl', hn, hocc', -, -, hw⟩ := htrue m ((mem_searchResult hc.toGood).2 ⟨l, hl, hm⟩)
    have hnum : m.lineNumber = l.number := by
      simp only [searchMatch, hocc, Option.map_some, Option.some.injEq] at hm
      exact hm ▸ rfl
    have hmem : l ∈ logicalLines (readable file) := List.mem_of_mem_filter (List.mem_of_mem_take hl)
    have hsame := eq_of_number_eq hl' hmem (hn.trans hnum)
    subst hsame
    rw [hocc] at hocc'
    rw [← Option.some.inj hocc'] at hw
    exact (window_iff hc hocc hm).1 hw
  · intro hcut m hm
    obtain ⟨l, hl, hm⟩ := (mem_searchResult hc.toGood).1 hm
    cases hocc : occurrence c l.content with
    | none =>
      rw [searchMatch, hocc] at hm
      cases hm
    | some i =>
      refine ⟨l, i, List.mem_of_mem_filter (List.mem_of_mem_take hl), ?_, hocc, ?_, ?_,
        (window_iff hc hocc hm).2 (hcut l hl i hocc)⟩ <;>
        simp only [searchMatch, hocc, Option.map_some, Option.some.injEq] at hm <;> exact hm ▸ rfl

/-- A line that ends in CRLF and fits into the preview with its carriage return: the preview is truthful. -/
theorem previews_truthful_of_short : ∃ r : LogSearchResult,
    search { maxPreviewBytes := 3 } ⟨bytes "ab\r\n", 4, 4, some 4⟩ { query := bytes "a" } .none [⟨.none, .returned 3⟩] =
      some (.ok r) ∧ r.lineMatches.length = 1 ∧
    ∀ m ∈ r.lineMatches, Truthful (searchSetup { maxPreviewBytes := 3 } { query := bytes "a" }) (bytes "ab\r\n") m := by
  refine ⟨_, rfl, by decide +kernel, ?_⟩
  refine (previews_truthful_iff { maxPreviewBytes := 3 } ⟨bytes "ab\r\n", 4, 4, some 4⟩ { query := bytes "a" } .none
    [⟨.none, .returned 3⟩] (by decide +kernel) rfl).2 ?_
  intro l hl i hocc hcut
  have hone : reportedLines (searchSetup { maxPreviewBytes := 3 } { query := bytes "a" })
      (readable ⟨bytes "ab\r\n", 4, 4, some 4⟩) = [⟨1, 0, bytes "ab\r", true⟩] := by decide +kernel
  rw [hone, List.mem_singleton] at hl
  subst hl
  have hlen : (LogLine.mk 1 0 (bytes "ab\r") true).text.length = 2 := by decide +kernel
  have htext := hcut.2.1
  rw [hlen] at htext
  simp only [searchSetup] at htext
  omega

/-- The same line when the preview holds two bytes: both are shown, nothing of the text is left out, and the flag says
that something is. -/
theorem preview_flag_of_cut : ∃ (r : LogSearchResult) (m : LogMatch),
    search { maxPreviewBytes := 2 } ⟨bytes "ab\r\n", 4, 4, some 4⟩ { query := bytes "a" } .none [⟨.none, .returned 3⟩] =
      some (.ok r) ∧ r.lineMatches = [m] ∧ m.lineNumber = 1 ∧
    ¬ ∃ before window after, bytes "ab" = before ++ window ++ after ∧ m.preview = escapePreview window ∧
      (m.previewTruncatedEnd = true ↔ after ≠ []) := by
  refine ⟨_, ⟨1, 0, bytes "ab", false, true⟩, rfl, by decide +kernel, rfl, ?_⟩
  rintro ⟨before, window, after, htext, hpreview, hflag⟩
  have hafter := List.length_pos_of_ne_nil (hflag.1 rfl)
  have hlen := congrArg List.length htext
  have htwo : (bytes "ab").length = 2 := by decide +kernel
  simp only [List.length_append, htwo] at hlen
  have hmem : ∀ b ∈ window, (escapeByte b).length = 1 := by
    intro b hb
    have hab : b ∈ bytes "ab" := by
      rw [htext]
      simp [hb]
    have hall : ∀ b ∈ bytes "ab", (escapeByte b).length = 1 := by decide +kernel
    exact hall b hab
  have hescaped : (escapePreview window).length = window.length := by
    rw [escapePreview, List.length_flatMap, List.map_congr_left hmem]
    simp
  have := congrArg List.length hpreview
  simp only [hescaped, htwo] at this
  omega

end LogAnalyzer

end NativeMcp
