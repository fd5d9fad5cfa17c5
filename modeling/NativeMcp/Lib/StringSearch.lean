import Mathlib.Data.List.Basic

/-!
# Searching a word in a stream

The automaton of Knuth, Morris and Pratt.  Its state after a text is the length of the longest overlap: the longest
beginning of the pattern that ends the text (`longest_advance`).  The failure table holds the same quantity for the
proper ends of the beginnings of the pattern itself (`isFailureTable_buildFailureTable`), so that one transition rule
serves the table and the search.  The loops of the automaton end without leaving the pattern or the table
(`fallsBack_fallBack`, `builds_buildFailureTable`).  `firstOccurrence` is what the search looks for.
-/

namespace NativeMcp

namespace StringSearch

variable {α : Type} [DecidableEq α]

/-! ### The automaton -/

/-- `while (matched > 0 && value != pattern[matched]) matched = failure[matched - 1]`, for at most `fuel` rounds. -/
def fallBack (pattern : List α) (failure : List Nat) (value : α) : Nat → Nat → Nat
  | 0, matched => matched
  | fuel + 1, matched =>
    if 0 < matched ∧ pattern[matched]? ≠ some value then
      fallBack pattern failure value fuel (failure.getD (matched - 1) 0)
    else matched

/-- The state after one more value.  Every round of the fallback shortens the overlap. -/
def advance (pattern : List α) (failure : List Nat) (matched : Nat) (value : α) : Nat :=
  let matched := fallBack pattern failure value matched matched
  if pattern[matched]? = some value then matched + 1 else matched

/-- One round of the loop that fills the table. -/
def tableStep (pattern : List α) (s : List Nat × Nat) (index : Nat) : List Nat × Nat :=
  match pattern[index]? with
  | some value =>
    let matched := advance pattern s.1 s.2 value
    (s.1.set index matched, matched)
  | none => s

def buildFailureTable (pattern : List α) : List Nat :=
  ((List.range' 1 (pattern.length - 1)).foldl (tableStep pattern) (List.replicate pattern.length 0, 0)).1

/-! ### Overlaps -/

/-- The first `k` values of the pattern end the text. -/
def Overlap (pattern text : List α) (k : Nat) : Prop := k ≤ pattern.length ∧ pattern.take k <:+ text

structure Longest (pattern text : List α) (k : Nat) : Prop where
  overlap : Overlap pattern text k
  le : ∀ j, Overlap pattern text j → j ≤ k

variable {pattern text : List α} {failure : List Nat} {j k m : Nat} {value : α}

omit [DecidableEq α] in
theorem overlap_zero : Overlap pattern text 0 := ⟨Nat.zero_le _, by simp⟩

omit [DecidableEq α] in
theorem Overlap.le_length (h : Overlap pattern text k) : k ≤ text.length := by
  have hlen := h.2.length_le
  rw [List.length_take] at hlen
  have := h.1
  omega

omit [DecidableEq α] in
theorem longest_nil : Longest pattern [] 0 :=
  ⟨overlap_zero, fun _ hj => hj.le_length⟩

omit [DecidableEq α] in
theorem overlap_length : Overlap pattern text pattern.length ↔ pattern <:+ text := by
  simp [Overlap]

omit [DecidableEq α] in
/-- An overlap of a longer text is an overlap of the text and one more value of the pattern. -/
theorem overlap_concat : Overlap pattern (text ++ [value]) (j + 1) ↔
    Overlap pattern text j ∧ pattern[j]? = some value := by
  constructor
  · intro h
    have hj : j < pattern.length := h.1
    have hs := h.2
    rw [List.take_succ_eq_append_getElem hj, List.suffix_concat_iff] at hs
    rcases hs with hs | ⟨t, ht, hsuf⟩
    · simp only [List.append_eq_nil_iff, List.cons_ne_self, and_false] at hs
    · obtain ⟨rfl, hv⟩ := List.append_inj' ht rfl
      simp only [List.cons.injEq, and_true] at hv
      exact ⟨⟨Nat.le_of_lt hj, hsuf⟩, by rw [List.getElem?_eq_getElem hj, hv]⟩
  · rintro ⟨h, hv⟩
    obtain ⟨hj, hv⟩ := List.getElem?_eq_some_iff.1 hv
    refine ⟨hj, ?_⟩
    rw [List.take_succ_eq_append_getElem hj, hv, List.suffix_concat_iff]
    exact .inr ⟨_, rfl, h.2⟩

omit [DecidableEq α] in
/-- The shorter overlaps of a text are the proper overlaps of the longer one. -/
theorem Overlap.tail_iff (h : Overlap pattern text k) (hk : 0 < k) :
    Overlap pattern (pattern.take k).tail j ↔ j < k ∧ Overlap pattern text j := by
  have hlen : (pattern.take k).tail.length = k - 1 := by
    have := h.1
    simp
    omega
  constructor
  · intro hj
    have hjk := hj.le_length
    exact ⟨by omega, hj.1, (hj.2.trans (List.tail_suffix _)).trans h.2⟩
  · rintro ⟨hjk, hj⟩
    refine ⟨hj.1, List.suffix_of_suffix_length_le hj.2 ((List.tail_suffix _).trans h.2) ?_⟩
    rw [List.length_take, hlen]
    omega

/-! ### The transition -/

/-- Entry `m - 1` of the table is the longest overlap of the first `m` values of the pattern, less their first. -/
def IsFailureTable (pattern : List α) (failure : List Nat) (upTo : Nat) : Prop :=
  ∀ m, 0 < m → m ≤ upTo → Longest pattern (pattern.take m).tail (failure.getD (m - 1) 0)

theorem fallBack_spec (value : α) (fuel : Nat) (hT : IsFailureTable pattern failure k) (hm : m ≤ fuel) (hmk : m ≤ k)
    (h : Overlap pattern text m) (hle : ∀ j, Overlap pattern text j → pattern[j]? = some value → j ≤ m) :
    Overlap pattern text (fallBack pattern failure value fuel m) ∧
      (∀ j, Overlap pattern text j → pattern[j]? = some value → j ≤ fallBack pattern failure value fuel m) ∧
      (fallBack pattern failure value fuel m = 0 ∨
        pattern[fallBack pattern failure value fuel m]? = some value) := by
  induction fuel generalizing m with
  | zero =>
    have : m = 0 := by omega
    subst this
    exact ⟨h, hle, .inl rfl⟩
  | succ fuel ih =>
    unfold fallBack
    split
    case isFalse hstop =>
      refine ⟨h, hle, ?_⟩
      by_cases h0 : m = 0
      · exact .inl h0
      · right
        by_contra hv
        exact hstop ⟨by omega, hv⟩
    case isTrue hgo =>
      obtain ⟨hpos, hne⟩ := hgo
      -- the next candidate is the longest of the shorter overlaps
      have hb := hT m hpos hmk
      obtain ⟨hlt, hov⟩ := (h.tail_iff hpos).1 hb.overlap
      apply ih (by omega) (by omega) hov
      intro j hj hv
      have hjm : j ≠ m := fun e => hne (e ▸ hv)
      have := hle j hj hv
      exact hb.le j ((h.tail_iff hpos).2 ⟨by omega, hj⟩)

/-- The transition rule: with a good table, the state stays the longest overlap. -/
theorem longest_advance (hT : IsFailureTable pattern failure k) (h : Longest pattern text k) :
    Longest pattern (text ++ [value]) (advance pattern failure k value) := by
  obtain ⟨hov, hle, hend⟩ := fallBack_spec value k hT (Nat.le_refl _) (Nat.le_refl _) h.overlap (fun j hj _ => h.le j hj)
  unfold advance
  simp only
  split
  case isTrue hv =>
    refine ⟨overlap_concat.2 ⟨hov, hv⟩, ?_⟩
    intro j hj
    cases j with
    | zero => omega
    | succ j =>
      obtain ⟨hj, hjv⟩ := overlap_concat.1 hj
      have := hle j hj hjv
      omega
  case isFalse hv =>
    have h0 := hend.resolve_right hv
    rw [h0] at hv hle ⊢
    refine ⟨overlap_zero, ?_⟩
    intro j hj
    cases j with
    | zero => omega
    | succ j =>
      obtain ⟨hj, hjv⟩ := overlap_concat.1 hj
      have := hle j hj hjv
      have : j = 0 := by omega
      subst this
      exact absurd hjv hv

/-! ### The table -/

omit [DecidableEq α] in
theorem tail_take_succ (h : m < pattern.length) (hm : 0 < m) :
    (pattern.take (m + 1)).tail = (pattern.take m).tail ++ [pattern[m]] := by
  rw [List.take_succ_eq_append_getElem h, List.tail_append_of_ne_nil]
  intro hnil
  have := congrArg List.length hnil
  rw [List.length_take, List.length_nil] at this
  omega

/-- After `n` rounds the table is right for the first `n + 1` values of the pattern. -/
theorem tableStep_run (pattern : List α) (n : Nat) (hn : n < pattern.length) :
    let s := (List.range' 1 n).foldl (tableStep pattern) (List.replicate pattern.length 0, 0)
    s.1.length = pattern.length ∧ IsFailureTable pattern s.1 (n + 1) ∧
      Longest pattern (pattern.take (n + 1)).tail s.2 := by
  induction n with
  | zero =>
    have htail : (pattern.take 1).tail = [] := by
      cases pattern <;> rfl
    refine ⟨by simp, ?_, by rw [Nat.zero_add, htail]; exact longest_nil⟩
    intro m h0 hm
    have : m = 1 := by omega
    subst this
    rw [htail]
    have hzero : (List.replicate pattern.length 0).getD 0 0 = 0 := by
      cases pattern <;> simp
    show Longest pattern [] ((List.replicate pattern.length 0).getD 0 0)
    rw [hzero]
    exact longest_nil
  | succ n ih =>
    obtain ⟨hlen, hT, hL⟩ := ih (by omega)
    rw [List.range'_concat, List.foldl_append]
    simp only [List.foldl_cons, List.foldl_nil, Nat.one_mul]
    generalize (List.range' 1 n).foldl (tableStep pattern) (List.replicate pattern.length 0, 0) = s at hlen hT hL ⊢
    have hget : pattern[1 + n]? = some pattern[n + 1] := by
      rw [Nat.add_comm]
      exact List.getElem?_eq_getElem hn
    -- the overlap is shorter than the part of the pattern read so far, so only finished entries are used
    have hs : s.2 ≤ n + 1 := by
      have hle := hL.overlap.le_length
      simp at hle
      omega
    have hstep : Longest pattern (pattern.take (n + 1 + 1)).tail (advance pattern s.1 s.2 pattern[n + 1]) := by
      rw [tail_take_succ hn (by omega)]
      exact longest_advance (fun m h0 hm => hT m h0 (by omega)) hL
    have heq : tableStep pattern s (1 + n) =
        (s.1.set (n + 1) (advance pattern s.1 s.2 pattern[n + 1]), advance pattern s.1 s.2 pattern[n + 1]) := by
      rw [tableStep, hget, Nat.add_comm 1 n]
    rw [heq]
    refine ⟨by simpa using hlen, ?_, hstep⟩
    intro m h0 hm
    by_cases hlast : m = n + 1 + 1
    · subst hlast
      have : (s.1.set (n + 1) (advance pattern s.1 s.2 pattern[n + 1])).getD (n + 1 + 1 - 1) 0 =
          advance pattern s.1 s.2 pattern[n + 1] := by
        simp [List.getD_eq_getElem?_getD, hlen, hn]
      rw [this]
      exact hstep
    · have : (s.1.set (n + 1) (advance pattern s.1 s.2 pattern[n + 1])).getD (m - 1) 0 = s.1.getD (m - 1) 0 := by
        rw [List.getD_eq_getElem?_getD, List.getD_eq_getElem?_getD, List.getElem?_set_ne (by omega)]
      rw [this]
      exact hT m h0 (by omega)

theorem isFailureTable_buildFailureTable (pattern : List α) :
    IsFailureTable pattern (buildFailureTable pattern) pattern.length := by
  by_cases h : pattern.length = 0
  · intro m h0 hm
    omega
  · obtain ⟨-, hT, -⟩ := tableStep_run pattern (pattern.length - 1) (by omega)
    intro m h0 hm
    exact hT m h0 (by omega)

/-! ### The loops

`fallBack` counts its rounds and reads an absent entry as zero.  The loops run until their condition fails and may read
only what is there: each of the relations below has a derivation exactly for a run that ends without reading or writing
out of range. -/

/-- `while (matched > 0 && value != pattern[matched]) matched = failure[matched - 1]` ends with this value. -/
inductive FallsBack (pattern : List α) (failure : List Nat) (value : α) : Nat → Nat → Prop where
  | zero : FallsBack pattern failure value 0 0
  | equal {m : Nat} : 0 < m → pattern[m]? = some value → FallsBack pattern failure value m m
  | round {m next k : Nat} {other : α} : 0 < m → pattern[m]? = some other → value ≠ other →
      failure[m - 1]? = some next → FallsBack pattern failure value next k → FallsBack pattern failure value m k

/-- That loop, and `if (value == pattern[matched]) ++matched` behind it. -/
def Advances (pattern : List α) (failure : List Nat) (m : Nat) (value : α) (m' : Nat) : Prop :=
  ∃ k other, FallsBack pattern failure value m k ∧ pattern[k]? = some other ∧ m' = if value = other then k + 1 else k

/-- The rounds of the loop that fills the table, from this index on. -/
inductive Fills (pattern : List α) : Nat → List Nat × Nat → List Nat → Prop where
  | done {index : Nat} {s : List Nat × Nat} : ¬ index < pattern.length → Fills pattern index s s.1
  | round {index m : Nat} {s : List Nat × Nat} {value : α} {table : List Nat} : index < pattern.length →
      pattern[index]? = some value → Advances pattern s.1 s.2 value m → index < s.1.length →
      Fills pattern (index + 1) (s.1.set index m, m) table → Fills pattern index s table

/-- The construction of the table ends with this table. -/
def Builds (pattern : List α) (table : List Nat) : Prop := Fills pattern 1 (List.replicate pattern.length 0, 0) table

omit [DecidableEq α] in
theorem FallsBack.unique {m k k' : Nat} (h : FallsBack pattern failure value m k)
    (h' : FallsBack pattern failure value m k') : k = k' := by
  induction h with
  | zero =>
    cases h' with
    | zero => rfl
    | equal hpos _ => omega
    | round hpos _ _ _ _ => omega
  | equal hpos hget =>
    cases h' with
    | zero => rfl
    | equal _ _ => rfl
    | round _ hget' hne _ _ =>
      rw [hget] at hget'
      exact absurd (Option.some.inj hget') hne
  | round hpos hget hne hnext _ ih =>
    cases h' with
    | zero => omega
    | equal _ hget' =>
      rw [hget] at hget'
      exact absurd (Option.some.inj hget').symm hne
    | round _ _ _ hnext' htail =>
      rw [hnext] at hnext'
      rw [Option.some.inj hnext'] at ih
      exact ih htail

theorem Advances.unique {m k k' : Nat} (h : Advances pattern failure m value k)
    (h' : Advances pattern failure m value k') : k = k' := by
  obtain ⟨i, other, hloop, hget, rfl⟩ := h
  obtain ⟨i', other', hloop', hget', rfl⟩ := h'
  obtain rfl := hloop.unique hloop'
  rw [hget] at hget'
  rw [Option.some.inj hget']

/-- The table is determined. -/
theorem Fills.unique {index : Nat} {s : List Nat × Nat} {table table' : List Nat} (h : Fills pattern index s table)
    (h' : Fills pattern index s table') : table = table' := by
  induction h with
  | done hend =>
    cases h' with
    | done _ => rfl
    | round hlt _ _ _ _ => exact absurd hlt hend
  | round hlt hget hstep hwrite _ ih =>
    cases h' with
    | done hend => exact absurd hlt hend
    | round _ hget' hstep' _ htail =>
      rw [hget] at hget'
      rw [← Option.some.inj hget'] at hstep'
      rw [hstep.unique hstep'] at ih
      exact ih htail

omit [DecidableEq α] in
theorem IsFailureTable.entry_lt (hT : IsFailureTable pattern failure k) (hm : 0 < m) (hmk : m ≤ k) :
    failure.getD (m - 1) 0 < m := by
  have hle := (hT m hm hmk).overlap.le_length
  rw [List.length_tail, List.length_take] at hle
  omega

theorem fallBack_le (value : α) (fuel : Nat) (hT : IsFailureTable pattern failure k) (hmk : m ≤ k) :
    fallBack pattern failure value fuel m ≤ m := by
  induction fuel generalizing m with
  | zero => exact Nat.le_refl m
  | succ fuel ih =>
    unfold fallBack
    split
    · rename_i hgo
      have hlt := hT.entry_lt hgo.1 hmk
      have hrest := ih (by omega : failure.getD (m - 1) 0 ≤ k)
      omega
    · exact Nat.le_refl m

/-- The loop ends, after at most as many rounds as values matched. -/
theorem fallsBack_fallBack (value : α) (fuel : Nat) (hT : IsFailureTable pattern failure k)
    (hlen : failure.length = pattern.length) (hm : m ≤ fuel) (hmk : m ≤ k) (hlt : m < pattern.length) :
    FallsBack pattern failure value m (fallBack pattern failure value fuel m) := by
  induction fuel generalizing m with
  | zero =>
    obtain rfl : m = 0 := by omega
    exact .zero
  | succ fuel ih =>
    have hget : pattern[m]? = some pattern[m] := List.getElem?_eq_getElem hlt
    unfold fallBack
    split
    · rename_i hgo
      obtain ⟨hpos, hne⟩ := hgo
      have hentry := hT.entry_lt hpos hmk
      have hnext : failure[m - 1]? = some (failure.getD (m - 1) 0) := by
        have hin : m - 1 < failure.length := by omega
        rw [List.getD_eq_getElem?_getD, List.getElem?_eq_getElem hin, Option.getD_some]
      have hother : value ≠ pattern[m] := by
        intro hsame
        rw [hget, hsame] at hne
        exact hne rfl
      exact .round hpos hget hother hnext (ih (by omega) (by omega) (by omega))
    · rename_i hstop
      by_cases hpos : 0 < m
      · exact .equal hpos (by
          by_contra hne
          exact hstop ⟨hpos, hne⟩)
      · obtain rfl : m = 0 := by omega
        exact .zero

theorem advances_advance (value : α) (hT : IsFailureTable pattern failure k) (hlen : failure.length = pattern.length)
    (hmk : m ≤ k) (hlt : m < pattern.length) :
    Advances pattern failure m value (advance pattern failure m value) := by
  have hle := fallBack_le value m hT hmk
  have hin : fallBack pattern failure value m m < pattern.length := by omega
  refine ⟨_, _, fallsBack_fallBack value m hT hlen (Nat.le_refl m) hmk hlt, List.getElem?_eq_getElem hin, ?_⟩
  unfold advance
  dsimp only
  rw [List.getElem?_eq_getElem hin]
  by_cases hsame : value = pattern[fallBack pattern failure value m m]
  · rw [if_pos hsame, if_pos (congrArg some hsame.symm)]
  · rw [if_neg hsame, if_neg fun h => hsame (Option.some.inj h).symm]

/-- The construction ends, with the table that `buildFailureTable` computes. -/
theorem builds_buildFailureTable (h : pattern ≠ []) : Builds pattern (buildFailureTable pattern) := by
  have hpos : 0 < pattern.length := List.length_pos_of_ne_nil h
  have hrest : ∀ j < pattern.length, Fills pattern (pattern.length - j)
      ((List.range' 1 (pattern.length - 1 - j)).foldl (tableStep pattern) (List.replicate pattern.length 0, 0))
      (buildFailureTable pattern) := by
    intro j
    induction j with
    | zero =>
      intro _
      exact .done (Nat.lt_irrefl _)
    | succ j ih =>
      intro hj
      -- the round that goes from the state after `n` rounds to the next one
      obtain ⟨n, hn⟩ : ∃ n, pattern.length = n + j + 2 := ⟨pattern.length - j - 2, by omega⟩
      have hindex : pattern.length - (j + 1) = n + 1 := by omega
      have hrounds : pattern.length - 1 - (j + 1) = n := by omega
      have htail := ih (by omega)
      rw [show pattern.length - j = n + 1 + 1 by omega, show pattern.length - 1 - j = n + 1 by omega,
        List.range'_concat, List.foldl_append] at htail
      simp only [List.foldl_cons, List.foldl_nil, Nat.one_mul] at htail
      obtain ⟨hlen, hT, hL⟩ := tableStep_run pattern n (by omega)
      rw [hindex, hrounds]
      generalize (List.range' 1 n).foldl (tableStep pattern) (List.replicate pattern.length 0, 0) = s at hlen hT hL htail ⊢
      have hlt : n + 1 < pattern.length := by omega
      have hget : pattern[n + 1]? = some pattern[n + 1] := List.getElem?_eq_getElem hlt
      have hs : s.2 ≤ n := by
        have hle := hL.overlap.le_length
        rw [List.length_tail, List.length_take] at hle
        omega
      rw [tableStep, Nat.add_comm 1 n, hget] at htail
      exact .round hlt hget (advances_advance _ hT hlen (by omega) (by omega)) (by omega) htail
  have hall := hrest (pattern.length - 1) (by omega)
  rwa [show pattern.length - (pattern.length - 1) = 1 by omega,
    show pattern.length - 1 - (pattern.length - 1) = 0 by omega] at hall

theorem length_buildFailureTable (pattern : List α) : (buildFailureTable pattern).length = pattern.length := by
  by_cases h : pattern.length = 0
  · rw [List.length_eq_zero_iff.1 h]
    rfl
  · exact (tableStep_run pattern (pattern.length - 1) (by omega)).1

/-- The longest proper beginning of a word that also ends it. -/
structure LongestBorder (word : List α) (k : Nat) : Prop where
  proper : k < word.length
  border : word.take k <:+ word
  le : ∀ j < word.length, word.take j <:+ word → j ≤ k

/-- An entry of the table is the longest border of the part of the pattern that ends there. -/
theorem longestBorder_entry {i : Nat} (hi : i < pattern.length) :
    LongestBorder (pattern.take (i + 1)) ((buildFailureTable pattern).getD i 0) := by
  have hlongest := isFailureTable_buildFailureTable pattern (i + 1) (Nat.succ_pos i) hi
  rw [Nat.add_sub_cancel] at hlongest
  have hword : Overlap pattern (pattern.take (i + 1)) (i + 1) := ⟨hi, List.suffix_refl _⟩
  have hlength : (pattern.take (i + 1)).length = i + 1 := List.length_take_of_le hi
  have htake : ∀ j ≤ i + 1, (pattern.take (i + 1)).take j = pattern.take j := by
    intro j hj
    rw [List.take_take, Nat.min_eq_left hj]
  obtain ⟨hlt, hoverlap⟩ := (hword.tail_iff (Nat.succ_pos i)).1 hlongest.overlap
  constructor
  · omega
  · rw [htake _ (by omega)]
    exact hoverlap.2
  · intro j hj hborder
    rw [htake j (by omega)] at hborder
    exact hlongest.le j ((hword.tail_iff (Nat.succ_pos i)).2 ⟨by omega, by omega, hborder⟩)

/-! ### The first occurrence -/

/-- Where the leftmost occurrence of the pattern begins. -/
def firstOccurrence (pattern text : List α) : Option Nat :=
  (List.range (text.length + 1)).find? fun i => pattern.isPrefixOf (text.drop i)

theorem firstOccurrence_eq_some {i : Nat} : firstOccurrence pattern text = some i ↔
    i ≤ text.length ∧ pattern <+: text.drop i ∧ ∀ k < i, ¬ pattern <+: text.drop k := by
  simp only [firstOccurrence, List.find?_range_eq_some, List.mem_range, List.isPrefixOf_iff_prefix,
    Bool.not_eq_true', ← Bool.not_eq_true]
  constructor
  · rintro ⟨hp, hi, hmin⟩
    exact ⟨by omega, hp, hmin⟩
  · rintro ⟨hi, hp, hmin⟩
    exact ⟨hp, by omega, hmin⟩

theorem firstOccurrence_eq_none : firstOccurrence pattern text = none ↔ ¬ pattern <:+: text := by
  rw [firstOccurrence, List.find?_eq_none]
  simp only [List.mem_range, List.isPrefixOf_iff_prefix]
  constructor
  · rintro h ⟨a, b, rfl⟩
    apply h a.length (by simp only [List.length_append]; omega)
    rw [List.append_assoc, List.drop_left]
    exact List.prefix_append _ _
  · rintro h i - hp
    exact h (hp.isInfix.trans (List.drop_suffix i text).isInfix)

/-- An occurrence stays the first one when the text goes on. -/
theorem firstOccurrence_append {i : Nat} (h : firstOccurrence pattern text = some i) (more : List α) :
    firstOccurrence pattern (text ++ more) = some i := by
  obtain ⟨hi, hp, hmin⟩ := firstOccurrence_eq_some.1 h
  have hlen := hp.length_le
  rw [List.length_drop] at hlen
  refine firstOccurrence_eq_some.2 ⟨by simp; omega, ?_, ?_⟩
  · rw [List.drop_append_of_le_length hi]
    exact hp.trans (List.prefix_append _ _)
  · intro k hk hpk
    rw [List.drop_append_of_le_length (by omega)] at hpk
    apply hmin k hk
    exact List.prefix_of_prefix_length_le hpk (List.prefix_append _ _) (by simp; omega)

/-- An occurrence that the last value completes. -/
theorem firstOccurrence_concat (h : firstOccurrence pattern text = none) (value : α) :
    firstOccurrence pattern (text ++ [value]) =
      if pattern <:+ text ++ [value] then some (text.length + 1 - pattern.length) else none := by
  rw [firstOccurrence_eq_none] at h
  split
  case isTrue hs =>
    have hlen := hs.length_le
    rw [List.length_append, List.length_singleton] at hlen
    refine firstOccurrence_eq_some.2 ⟨by simp, ?_, ?_⟩
    · rw [List.suffix_iff_eq_drop, List.length_append, List.length_singleton] at hs
      exact hs ▸ List.prefix_refl _
    · intro k hk hpk
      -- an earlier occurrence would end before the last value
      rw [List.drop_append_of_le_length (by omega)] at hpk
      apply h
      have : pattern <+: text.drop k :=
        List.prefix_of_prefix_length_le hpk (List.prefix_append _ _) (by simp; omega)
      exact this.isInfix.trans (List.drop_suffix k text).isInfix
  case isFalse hs =>
    rw [firstOccurrence_eq_none]
    intro hin
    rcases List.infix_concat_iff.1 hin with hin | hin
    · exact hs hin
    · exact h hin

omit [DecidableEq α] in
/-- What the automaton reports: the state reaches the length of the pattern at the end of an occurrence. -/
theorem Longest.eq_length_iff (h : Longest pattern text k) : k = pattern.length ↔ pattern <:+ text := by
  rw [← overlap_length]
  constructor
  · rintro rfl
    exact h.overlap
  · intro hov
    have := h.le _ hov
    have := h.overlap.1
    omega

end StringSearch

end NativeMcp
