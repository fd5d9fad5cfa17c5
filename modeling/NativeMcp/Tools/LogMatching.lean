import NativeMcp.Tools.LogSearch

/-!
# The automaton of the log search

`build_failure_table` ends with the borders of the pattern, and within a line the search keeps, up to the first full
match, the longest beginning of the pattern that ends what it has read.
-/

namespace NativeMcp

open StringSearch

namespace LogAnalyzer

namespace SearchState

variable {c : SearchSetup} {s : SearchState} {value : UInt8}

/-- What a byte of a line does to the automaton before the first full match. -/
theorem scanByte_matched (hvalue : value ≠ newline) (hfound : s.found = false) :
    (scanByte c s value).matched = advance c.pattern c.failure s.matched (comparable value c.caseSensitive) ∧
      ((scanByte c s value).found = true ↔ (scanByte c s value).matched = c.pattern.length) := by
  have hsearching : ¬ s.found = true := by
    rw [hfound]
    exact Bool.false_ne_true
  unfold scanByte
  rw [if_neg hvalue]
  dsimp only
  rw [if_neg hsearching]
  split
  · rename_i hfull
    exact ⟨rfl, fun _ => hfull, fun _ => rfl⟩
  · rename_i hshort
    refine ⟨rfl, ?_, fun hfull => absurd hfull hshort⟩
    intro h
    rw [show s.found = true from h] at hfound
    cases hfound

/-- A match that was found is not forgotten within the line. -/
theorem scanByte_found (hvalue : value ≠ newline) (hfound : s.found = true) : (scanByte c s value).found = true := by
  unfold scanByte
  rw [if_neg hvalue]
  dsimp only
  rw [if_pos hfound]
  split
  · exact hfound
  · exact hfound

/-- The automaton while the line has no full match. -/
theorem longest_scan (hpattern : c.pattern ≠ []) (hfailure : c.failure = buildFailureTable c.pattern)
    (hmatched : s.matched = 0) (line : Bytes) (hline : newline ∉ line)
    (hsearching : (line.foldl (scanByte c) s).found = false) :
    Longest c.pattern (line.map fun value => comparable value c.caseSensitive) (line.foldl (scanByte c) s).matched ∧
      (line.foldl (scanByte c) s).matched < c.pattern.length := by
  have hpos : 0 < c.pattern.length := List.length_pos_of_ne_nil hpattern
  have hT := isFailureTable_buildFailureTable c.pattern
  rw [← hfailure] at hT
  -- the last byte of the line is read in a state in which nothing was found either
  induction line using List.reverseRecOn with
  | nil =>
    show Longest c.pattern [] s.matched ∧ s.matched < c.pattern.length
    rw [hmatched]
    exact ⟨longest_nil, hpos⟩
  | append_singleton line value ih =>
    rw [List.mem_append, not_or, List.mem_singleton] at hline
    obtain ⟨hline, hvalue⟩ := hline
    have hne : value ≠ newline := fun h => hvalue h.symm
    rw [List.foldl_append, List.foldl_cons, List.foldl_nil] at hsearching ⊢
    have hbefore : (line.foldl (scanByte c) s).found = false := by
      cases hf : (line.foldl (scanByte c) s).found with
      | false => rfl
      | true =>
        rw [scanByte_found hne hf] at hsearching
        cases hsearching
    obtain ⟨hlongest, hlt⟩ := ih hline hbefore
    obtain ⟨hstep, hfull⟩ := scanByte_matched (c := c) hne hbefore
    have hnext : Longest c.pattern ((line ++ [value]).map fun value => comparable value c.caseSensitive)
        (scanByte c (line.foldl (scanByte c) s) value).matched := by
      rw [List.map_append, hstep]
      exact longest_advance (fun m h0 hm => hT m h0 (by omega)) hlongest
    refine ⟨hnext, ?_⟩
    have hle := hnext.overlap.1
    have hshort : (scanByte c (line.foldl (scanByte c) s) value).matched ≠ c.pattern.length := by
      intro h
      rw [hfull.2 h] at hsearching
      cases hsearching
    omega

end SearchState

open SearchState (scanByte)

/-- The table is built and holds the borders of the pattern; within a line, each byte up to the first full match finds
the automaton inside the pattern and leaves it at the longest beginning of the pattern that ends the line so far. -/
theorem search_automaton_correct :
    (∀ pattern : Bytes, pattern ≠ [] → (∃ table, Builds pattern table) ∧ ∀ table, Builds pattern table →
      table.length = pattern.length ∧
        ∀ i < pattern.length, LongestBorder (pattern.take (i + 1)) (table.getD i 0)) ∧
    ∀ (limits : LogAnalysisLimits) (options : LogSearchOptions), options.query ≠ [] →
      Builds (searchSetup limits options).pattern (searchSetup limits options).failure ∧
      ∀ (s : SearchState) (line : Bytes) (value : UInt8), s.matched = 0 → newline ∉ line → value ≠ newline →
        (line.foldl (scanByte (searchSetup limits options)) s).found = false →
        (line.foldl (scanByte (searchSetup limits options)) s).matched < (searchSetup limits options).pattern.length ∧
        Advances (searchSetup limits options).pattern (searchSetup limits options).failure
          (line.foldl (scanByte (searchSetup limits options)) s).matched (comparable value options.caseSensitive)
          ((line ++ [value]).foldl (scanByte (searchSetup limits options)) s).matched ∧
        Longest (searchSetup limits options).pattern
          ((line ++ [value]).map fun value => comparable value options.caseSensitive)
          ((line ++ [value]).foldl (scanByte (searchSetup limits options)) s).matched ∧
        (((line ++ [value]).foldl (scanByte (searchSetup limits options)) s).found = true ↔
          ((line ++ [value]).foldl (scanByte (searchSetup limits options)) s).matched =
            (searchSetup limits options).pattern.length) := by
  constructor
  · intro pattern hne
    have hbuilds := builds_buildFailureTable hne
    refine ⟨⟨_, hbuilds⟩, ?_⟩
    intro table htable
    obtain rfl : buildFailureTable pattern = table := hbuilds.unique htable
    exact ⟨length_buildFailureTable pattern, fun i hi => longestBorder_entry hi⟩
  · intro limits options hquery
    have hpattern : (searchSetup limits options).pattern ≠ [] := by
      intro h
      exact hquery (List.map_eq_nil_iff.1 h)
    refine ⟨builds_buildFailureTable hpattern, ?_⟩
    intro s line value hmatched hline hvalue hsearching
    obtain ⟨hlongest, hlt⟩ := SearchState.longest_scan hpattern rfl hmatched line hline hsearching
    have hT : IsFailureTable (searchSetup limits options).pattern (searchSetup limits options).failure
        (searchSetup limits options).pattern.length := isFailureTable_buildFailureTable _
    have hlen : (searchSetup limits options).failure.length = (searchSetup limits options).pattern.length :=
      length_buildFailureTable _
    obtain ⟨hstep, hfull⟩ := SearchState.scanByte_matched (c := searchSetup limits options) hvalue hsearching
    rw [List.foldl_append, List.foldl_cons, List.foldl_nil]
    refine ⟨hlt, ?_, ?_, hfull⟩
    · rw [hstep]
      exact advances_advance _ hT hlen (Nat.le_of_lt hlt) hlt
    · rw [hstep, List.map_append]
      exact longest_advance (fun m h0 hm => hT m h0 (by omega)) hlongest

end LogAnalyzer

end NativeMcp
