import NativeMcp.Agent.Redaction
import NativeMcp.Lib.Intervals

/-!
# What redaction leaves of a text

A position of a text is covered if it lies in an occurrence of a secret.  `_replace_spans` makes of the spans of all
occurrences the spans that are apart, and so replaces each maximal run of covered positions by one marker; `_bounded`
keeps the longest beginning of the result that fits.
-/

namespace NativeMcp.Agent

open Intervals

/-! ### Covered positions -/

/-- The position lies in an occurrence of a secret. -/
def Covered (text : Str) (secrets : List Str) (i : Nat) : Prop :=
  ∃ secret ∈ secrets, ∃ start, start ≤ i ∧ i < start + secret.length ∧ secret <+: text.drop start

instance (text : Str) (secrets : List Str) : DecidablePred (Covered text secrets) := fun i =>
  inferInstanceAs (Decidable (∃ secret ∈ secrets, ∃ start, start ≤ i ∧ i < start + secret.length ∧ secret <+: text.drop start))

private theorem mem_occurrences {secret : Str} {index : Nat} {s : Str} {p : Nat × Nat} :
    p ∈ occurrences secret index s ↔
      ∃ k, k < s.length ∧ p = (index + k, index + k + secret.length) ∧ secret <+: s.drop k := by
  induction s generalizing index with
  | nil =>
    constructor
    · intro h
      cases h
    · intro h
      obtain ⟨k, hk, -⟩ := h
      exact absurd hk (Nat.not_lt_zero k)
  | cons c s ih =>
    have hstep : (∃ k, k < (c :: s).length ∧ p = (index + k, index + k + secret.length) ∧ secret <+: (c :: s).drop k) ↔
        (p = (index, index + secret.length) ∧ secret <+: c :: s) ∨
          ∃ k, k < s.length ∧ p = (index + 1 + k, index + 1 + k + secret.length) ∧ secret <+: s.drop k := by
      constructor
      · intro h
        obtain ⟨k, hk, hp, hlead⟩ := h
        cases k with
        | zero => exact .inl ⟨hp, hlead⟩
        | succ k =>
          refine .inr ⟨k, Nat.lt_of_succ_lt_succ hk, ?_, hlead⟩
          rw [hp, show index + 1 + k = index + (k + 1) by omega]
      · intro h
        rcases h with ⟨hp, hlead⟩ | ⟨k, hk, hp, hlead⟩
        · exact ⟨0, Nat.succ_pos _, hp, hlead⟩
        · refine ⟨k + 1, Nat.succ_lt_succ hk, ?_, hlead⟩
          rw [hp, show index + 1 + k = index + (k + 1) by omega]
    rw [hstep]
    unfold occurrences
    by_cases hfirst : secret.isPrefixOf (c :: s) = true
    · rw [if_pos hfirst, List.mem_cons, ih]
      have hlead := List.isPrefixOf_iff_prefix.1 hfirst
      constructor
      · intro h
        rcases h with h | h
        · exact .inl ⟨h, hlead⟩
        · exact .inr h
      · intro h
        rcases h with h | h
        · exact .inl h.1
        · exact .inr h
    · rw [if_neg hfirst, ih]
      constructor
      · exact Or.inr
      · intro h
        rcases h with h | h
        · exact absurd (List.isPrefixOf_iff_prefix.2 h.2) hfirst
        · exact h

private theorem mem_secretSpans {text : Str} {secrets : List Str} {p : Nat × Nat} :
    p ∈ secretSpans text secrets ↔ ∃ secret ∈ secrets, secret ≠ [] ∧ p.2 = p.1 + secret.length ∧
      p.1 < text.length ∧ secret <+: text.drop p.1 := by
  unfold secretSpans
  rw [List.mem_flatMap]
  constructor
  · intro h
    obtain ⟨secret, hmem, hp⟩ := h
    obtain ⟨hsecret, hne⟩ := List.mem_filter.1 hmem
    obtain ⟨k, hk, hp, hlead⟩ := mem_occurrences.1 hp
    rw [Nat.zero_add] at hp
    rw [hp]
    exact ⟨secret, hsecret, of_decide_eq_true hne, rfl, hk, hlead⟩
  · intro h
    obtain ⟨secret, hsecret, hne, hend, hlt, hlead⟩ := h
    refine ⟨secret, List.mem_filter.2 ⟨hsecret, decide_eq_true hne⟩, mem_occurrences.2 ⟨p.1, hlt, ?_, hlead⟩⟩
    rw [Nat.zero_add, ← hend]

/-- The spans of the occurrences hold the covered positions. -/
theorem inside_secretSpans {text : Str} {secrets : List Str} {i : Nat} :
    Inside (secretSpans text secrets) i ↔ Covered text secrets i := by
  constructor
  · intro h
    obtain ⟨p, hp, hle, hlt⟩ := h
    obtain ⟨secret, hsecret, -, hend, -, hlead⟩ := mem_secretSpans.1 hp
    exact ⟨secret, hsecret, p.1, hle, hend ▸ hlt, hlead⟩
  · intro h
    obtain ⟨secret, hsecret, start, hle, hlt, hlead⟩ := h
    have hne : secret ≠ [] := by
      intro hnil
      rw [hnil, List.length_nil] at hlt
      omega
    have hstart : start < text.length := by
      have hlength := hlead.length_le
      have hpos := List.length_pos_iff.2 hne
      rw [List.length_drop] at hlength
      omega
    exact ⟨(start, start + secret.length), mem_secretSpans.2 ⟨secret, hsecret, hne, rfl, hstart, hlead⟩, hle, hlt⟩

private theorem secretSpans_bounds {text : Str} {secrets : List Str} {p : Nat × Nat} (h : p ∈ secretSpans text secrets) :
    p.1 < p.2 ∧ p.2 ≤ text.length := by
  obtain ⟨secret, -, hne, hend, hlt, hlead⟩ := mem_secretSpans.1 h
  have hlength := hlead.length_le
  have hpos := List.length_pos_iff.2 hne
  rw [List.length_drop] at hlength
  omega

/-! ### Merging -/

/-- Merging sorted spans keeps the positions that they hold. -/
private theorem inside_mergeSpan {p : Nat × Nat} {spans : List (Nat × Nat)} (i : Nat)
    (hsorted : (p :: spans).Pairwise fun q r => q.1 ≤ r.1) : Inside (mergeSpan p spans) i ↔ Inside (p :: spans) i := by
  induction spans generalizing p with
  | nil => rfl
  | cons next spans ih =>
    obtain ⟨hfirst, hrest⟩ := List.pairwise_cons.1 hsorted
    have hle := hfirst next List.mem_cons_self
    unfold mergeSpan
    by_cases htouch : next.1 ≤ p.2
    · have hmerged : ((p.1, max p.2 next.2) :: spans).Pairwise fun q r => q.1 ≤ r.1 :=
        List.pairwise_cons.2 ⟨fun q hq => hfirst q (List.mem_cons_of_mem _ hq), (List.pairwise_cons.1 hrest).2⟩
      rw [if_pos htouch, ih hmerged, inside_cons, inside_cons, inside_cons, ← or_assoc]
      refine or_congr_left ?_
      dsimp only
      rw [lt_max_iff]
      omega
    · rw [if_neg htouch, inside_cons, ih hrest, inside_cons (p := p)]

/-- Merging sorted spans leaves spans that are apart. -/
private theorem apart_mergeSpan {p : Nat × Nat} {spans : List (Nat × Nat)} {low : Nat} (hlow : low ≤ p.1)
    (hsorted : (p :: spans).Pairwise fun q r => q.1 ≤ r.1) (hlt : ∀ q ∈ p :: spans, q.1 < q.2) :
    Apart low (mergeSpan p spans) := by
  induction spans generalizing p low with
  | nil => exact ⟨hlow, hlt p List.mem_cons_self, trivial⟩
  | cons next spans ih =>
    obtain ⟨hfirst, hrest⟩ := List.pairwise_cons.1 hsorted
    obtain ⟨hp, hothers⟩ := List.forall_mem_cons.1 hlt
    unfold mergeSpan
    by_cases htouch : next.1 ≤ p.2
    · rw [if_pos htouch]
      refine ih hlow (List.pairwise_cons.2 ⟨fun q hq => hfirst q (List.mem_cons_of_mem _ hq),
        (List.pairwise_cons.1 hrest).2⟩) (List.forall_mem_cons.2 ⟨?_, fun q hq => hothers q (List.mem_cons_of_mem _ hq)⟩)
      exact Nat.lt_of_lt_of_le hp (Nat.le_max_left _ _)
    · rw [if_neg htouch]
      exact ⟨hlow, hp, ih (by omega) hrest hothers⟩

/-- The merged spans end where one of the spans ends. -/
private theorem mem_mergeSpan_bounds {p q : Nat × Nat} {spans : List (Nat × Nat)} {limit : Nat}
    (h : ∀ r ∈ p :: spans, r.2 ≤ limit) (hq : q ∈ mergeSpan p spans) : q.2 ≤ limit := by
  induction spans generalizing p with
  | nil =>
    rw [List.mem_singleton.1 hq]
    exact h p List.mem_cons_self
  | cons next spans ih =>
    obtain ⟨hp, hnext, hrest⟩ : p.2 ≤ limit ∧ next.2 ≤ limit ∧ ∀ r ∈ spans, r.2 ≤ limit :=
      ⟨h p List.mem_cons_self, h next (by simp), fun r hr => h r (by simp [hr])⟩
    unfold mergeSpan at hq
    by_cases htouch : next.1 ≤ p.2
    · rw [if_pos htouch] at hq
      exact ih (List.forall_mem_cons.2 ⟨Nat.max_le.2 ⟨hp, hnext⟩, hrest⟩) hq
    · rw [if_neg htouch] at hq
      rcases List.mem_cons.1 hq with hq | hq
      · rw [hq]
        exact hp
      · exact ih (List.forall_mem_cons.2 ⟨hnext, hrest⟩) hq

/-! ### Replacing -/

/-- Replacing spans that are apart collapses the positions that they hold. -/
private theorem replaceFrom_eq {text : Str} {spans : List (Nat × Nat)} {cursor : Nat} (hapart : Apart cursor spans)
    (hbounds : ∀ p ∈ spans, p.2 ≤ text.length) (hcursor : cursor ≤ text.length) :
    replaceFrom text cursor spans =
      (collapse (Inside spans) redacted cursor false (text.drop cursor)).map Prod.fst := by
  induction spans generalizing cursor with
  | nil =>
    rw [collapse_kept (Nat.le_refl _) fun j _ _ => not_inside_nil, List.take_length, List.drop_length]
    exact (List.append_nil _).symm
  | cons p spans ih =>
    obtain ⟨hlow, hlt, hrest⟩ := hapart
    have hend : p.2 ≤ text.length := hbounds p List.mem_cons_self
    have hinside : ∀ j, p.2 ≤ j → (Inside (p :: spans) j ↔ Inside spans j) := by
      intro j hj
      rw [inside_cons]
      constructor
      · intro h
        rcases h with h | h
        · omega
        · exact h
      · exact Or.inr
    have hbefore : ∀ j, cursor ≤ j → j < cursor + (p.1 - cursor) → ¬Inside (p :: spans) j := by
      intro j _ hj h
      rcases inside_cons.1 h with h | h
      · omega
      · have := hrest.le_of_inside h
        omega
    have hrun : ∀ j, p.1 ≤ j → j < p.1 + (p.2 - p.1) → Inside (p :: spans) j :=
      fun j hj hlt => inside_cons.2 (.inl ⟨hj, by omega⟩)
    have hafter : ¬Inside spans p.2 := by
      intro h
      have := hrest.le_of_inside h
      omega
    have hsum : cursor + (p.1 - cursor) = p.1 := by omega
    have hsum' : p.1 + (p.2 - p.1) = p.2 := by omega
    have hcongr : collapse (Inside (p :: spans)) redacted p.2 true (text.drop p.2) =
        collapse (Inside spans) redacted p.2 false (text.drop p.2) := by
      rw [collapse_congr hinside, collapse_of_not_covered hafter]
    have hne : text.drop p.1 ≠ [] := by
      rw [ne_eq, List.drop_eq_nil_iff]
      omega
    calc replaceFrom text cursor (p :: spans)
        = (text.take p.1).drop cursor ++ redacted ++ replaceFrom text p.2 spans := rfl
      _ = (text.drop cursor).take (p.1 - cursor) ++
            (redacted ++ (collapse (Inside spans) redacted p.2 false (text.drop p.2)).map Prod.fst) := by
          rw [List.drop_take, List.append_assoc,
            ih (hrest.mono (Nat.le_succ _)) (fun q hq => hbounds q (List.mem_cons_of_mem _ hq)) hend]
      _ = (text.drop cursor).take (p.1 - cursor) ++
            (collapse (Inside (p :: spans)) redacted p.1 false (text.drop p.1)).map Prod.fst := by
          rw [collapse_enter hne (hrun p.1 (Nat.le_refl _) (by omega)), List.map_append, List.map_map,
            collapse_hidden (by rw [List.length_drop]; omega) hrun, List.drop_drop, hsum', hcongr]
          congr 2
      _ = (collapse (Inside (p :: spans)) redacted cursor false (text.drop cursor)).map Prod.fst := by
          rw [collapse_kept (by rw [List.length_drop]; omega) hbefore, List.drop_drop, hsum]

/-- `_replace_spans` replaces spans that are apart and hold the positions of the given ones. -/
private theorem exists_apart {text : Str} {spans : List (Nat × Nat)}
    (h : ∀ p ∈ spans, p.1 < p.2 ∧ p.2 ≤ text.length) :
    ∃ merged, replaceSpans text spans = replaceFrom text 0 merged ∧ Apart 0 merged ∧
      (∀ p ∈ merged, p.2 ≤ text.length) ∧ ∀ i, Inside merged i ↔ Inside spans i := by
  unfold replaceSpans
  by_cases hspans : spans = []
  · rw [if_pos hspans, hspans]
    exact ⟨[], rfl, trivial, fun p hp => absurd hp List.not_mem_nil, fun i => Iff.rfl⟩
  · rw [if_neg hspans]
    -- the spans in the order of their beginnings
    have hsorted : (spans.mergeSort fun p q => p.1 < q.1 || (p.1 == q.1 && p.2 ≤ q.2)).Pairwise
        fun p q => (p.1 < q.1 || (p.1 == q.1 && p.2 ≤ q.2)) = true :=
      List.pairwise_mergeSort (fun p q r => by grind) (fun p q => by grind) spans
    have hmem : ∀ p, p ∈ spans.mergeSort (fun p q : Nat × Nat => p.1 < q.1 || (p.1 == q.1 && p.2 ≤ q.2)) ↔ p ∈ spans :=
      fun p => List.mem_mergeSort
    generalize spans.mergeSort (fun p q : Nat × Nat => p.1 < q.1 || (p.1 == q.1 && p.2 ≤ q.2)) = sorted at hsorted hmem
    have hstarts : sorted.Pairwise fun q r => q.1 ≤ r.1 := by
      refine hsorted.imp fun {q r} hle => ?_
      rw [Bool.or_eq_true, Bool.and_eq_true, decide_eq_true_eq, beq_iff_eq] at hle
      omega
    have hinside : ∀ i, Inside sorted i ↔ Inside spans i := by
      intro i
      unfold Inside
      simp only [hmem]
    have hall : ∀ p ∈ sorted, p.1 < p.2 ∧ p.2 ≤ text.length := fun p hp => h p ((hmem p).1 hp)
    cases sorted with
    | nil => exact ⟨[], rfl, trivial, fun p hp => absurd hp List.not_mem_nil, hinside⟩
    | cons p rest =>
      refine ⟨mergeSpan p rest, rfl, ?_, fun q hq => ?_, fun i => ?_⟩
      · exact apart_mergeSpan (Nat.zero_le _) hstarts fun q hq => (hall q hq).1
      · exact mem_mergeSpan_bounds (fun r hr => (hall r hr).2) hq
      · exact (inside_mergeSpan i hstarts).trans (hinside i)

/-! ### The bound -/

private theorem cutBytes_prefix {s : Str} (hplain : s.any isSurrogate = false) (maximum : Nat) :
    cutBytes maximum s <+: s ∧ ∀ p, p <+: s → (p.map utf8Size).sum ≤ maximum → p <+: cutBytes maximum s := by
  induction s generalizing maximum with
  | nil => exact ⟨List.nil_prefix, fun p hp _ => hp⟩
  | cons c s ih =>
    rw [List.any_cons, Bool.or_eq_false_iff] at hplain
    obtain ⟨hc, hs⟩ := hplain
    have hsize : replacedSize c = utf8Size c := by
      rw [replacedSize, hc]
      rfl
    rw [cutBytes, hsize, hc, if_neg Bool.false_ne_true]
    obtain ⟨hlead, hlongest⟩ := ih hs (maximum - utf8Size c)
    by_cases hfits : utf8Size c ≤ maximum
    · rw [if_pos hfits]
      refine ⟨List.cons_prefix_cons.2 ⟨rfl, hlead⟩, fun p hp hle => ?_⟩
      cases p with
      | nil => exact List.nil_prefix
      | cons d p =>
        obtain ⟨hd, hp⟩ := List.cons_prefix_cons.1 hp
        rw [hd, List.map_cons, List.sum_cons] at hle
        exact List.cons_prefix_cons.2 ⟨hd, hlongest p hp (by omega)⟩
    · rw [if_neg hfits]
      refine ⟨List.nil_prefix, fun p hp hle => ?_⟩
      cases p with
      | nil => exact List.nil_prefix
      | cons d p =>
        obtain ⟨hd, -⟩ := List.cons_prefix_cons.1 hp
        rw [hd, List.map_cons, List.sum_cons] at hle
        omega

/-- The bound keeps the longest beginning that fits. -/
theorem bounded_longest {s : Str} (hplain : s.any isSurrogate = false) (maximum : Nat) :
    bounded s maximum <+: s ∧ ((bounded s maximum).map utf8Size).sum ≤ maximum ∧
      ∀ p, p <+: s → (p.map utf8Size).sum ≤ maximum → p <+: bounded s maximum := by
  unfold bounded
  rw [sum_replacedSize hplain]
  by_cases hfits : (s.map utf8Size).sum ≤ maximum
  · rw [if_pos hfits]
    exact ⟨List.prefix_rfl, hfits, fun p hp _ => hp⟩
  · rw [if_neg hfits]
    have ⟨hlead, hlongest⟩ := cutBytes_prefix hplain maximum
    exact ⟨hlead, (cutBytes_size maximum s).2, hlongest⟩

/-! ### No secret is left -/

/-- A list without an element lies on one side of it. -/
private theorem infix_of_infix_append_cons {w a b : Str} {c : Nat} (hc : c ∉ w) (h : w <:+: a ++ c :: b) :
    w <:+: a ∨ w <:+: b := by
  obtain ⟨s, t, heq⟩ := h
  rcases List.append_eq_append_iff.1 heq with ⟨x, ha, -⟩ | ⟨y, hw, hb⟩
  · exact .inl ⟨s, x, ha.symm⟩
  · cases y with
    | nil => exact .inl ⟨s, [], by rw [List.append_nil, hw, List.append_nil]⟩
    | cons d y =>
      obtain ⟨rfl, -⟩ := List.cons.inj hb
      have hrest : b = y ++ t := (List.cons.inj hb).2
      rcases List.append_eq_append_iff.1 hw with ⟨x, ha, hw⟩ | ⟨z, -, hz⟩
      · rw [hw] at hc
        exact absurd (List.mem_append_right x List.mem_cons_self) hc
      · cases z with
        | nil =>
          rw [List.nil_append] at hz
          rw [← hz] at hc
          exact absurd List.mem_cons_self hc
        | cons e z =>
          have hy : y = z ++ w := (List.cons.inj hz).2
          refine .inr ⟨z, t, ?_⟩
          rw [hrest, hy]

/-- What is found between the markers was in the text, at positions that the spans do not hold. -/
private theorem exists_of_infix_replaceFrom {text w : Str} (hless : 0x3C ∉ w) (hgreater : 0x3E ∉ w)
    (hmarker : ¬w <:+: chars "redacted") {spans : List (Nat × Nat)} {cursor : Nat} (hapart : Apart cursor spans)
    (h : w <:+: replaceFrom text cursor spans) :
    ∃ start, w <+: text.drop start ∧ cursor ≤ start ∧ ∀ i, start ≤ i → i < start + w.length → ¬Inside spans i := by
  induction spans generalizing cursor with
  | nil =>
    obtain ⟨s, t, heq⟩ := h
    have htext : s ++ (w ++ t) = text.drop cursor := by
      rw [← List.append_assoc]
      exact heq
    have hdrop : text.drop (cursor + s.length) = w ++ t := by
      rw [← List.drop_drop, ← htext, List.drop_left]
    exact ⟨cursor + s.length, ⟨t, hdrop.symm⟩, Nat.le_add_right _ _, fun i _ _ => not_inside_nil⟩
  | cons p spans ih =>
    obtain ⟨hlow, hlt, hrest⟩ := hapart
    have hmarked : replaceFrom text cursor (p :: spans) = (text.take p.1).drop cursor ++
        0x3C :: (chars "redacted" ++ 0x3E :: replaceFrom text p.2 spans) := by
      show (text.take p.1).drop cursor ++ redacted ++ replaceFrom text p.2 spans = _
      rw [List.append_assoc]
      rfl
    rw [hmarked] at h
    rcases infix_of_infix_append_cons hless h with hbefore | hbehind
    · obtain ⟨s, t, heq⟩ := hbefore
      have htext : s ++ (w ++ (t ++ (text.drop cursor).drop (p.1 - cursor))) = text.drop cursor := by
        rw [List.drop_take] at heq
        rw [← List.append_assoc, ← List.append_assoc, heq, List.take_append_drop]
      have hlength : s.length + w.length ≤ p.1 - cursor := by
        have hle := congrArg List.length heq
        rw [List.length_append, List.length_append, List.length_drop, List.length_take] at hle
        omega
      have hdrop : text.drop (cursor + s.length) = w ++ (t ++ (text.drop cursor).drop (p.1 - cursor)) := by
        rw [← List.drop_drop]
        conv_lhs => rw [← htext]
        exact List.drop_left
      refine ⟨cursor + s.length, ⟨_, hdrop.symm⟩, Nat.le_add_right _ _, ?_⟩
      intro i _ hi hinside
      rcases inside_cons.1 hinside with h | h
      · omega
      · have := hrest.le_of_inside h
        omega
    · rcases infix_of_infix_append_cons hgreater hbehind with hword | hlater
      · exact absurd hword hmarker
      · obtain ⟨start, hlead, hle, hnot⟩ := ih (hrest.mono (Nat.le_succ _)) hlater
        refine ⟨start, hlead, by omega, fun i hi hi' hinside => ?_⟩
        rcases inside_cons.1 hinside with h | h
        · omega
        · exact hnot i hi hi' h

/-- The text with a marker for each maximal run of covered positions, and where its characters come from. -/
def redactedRuns (text : Str) (secrets : List Str) : List (Nat × Option Nat) :=
  collapse (Covered text secrets) redacted 0 false text

private theorem replaceSpans_secretSpans (text : Str) (secrets : List Str) :
    replaceSpans text (secretSpans text secrets) = (redactedRuns text secrets).map Prod.fst := by
  obtain ⟨merged, hreplace, hapart, hbounds, hinside⟩ := exists_apart fun p hp => @secretSpans_bounds text secrets p hp
  unfold redactedRuns
  rw [hreplace, replaceFrom_eq hapart hbounds (Nat.zero_le _), List.drop_zero,
    collapse_congr fun j _ => (hinside j).trans inside_secretSpans]

private theorem redactedRuns_plain {text : Str} (secrets : List Str) (h : text.any isSurrogate = false) :
    ((redactedRuns text secrets).map Prod.fst).any isSurrogate = false := by
  rw [List.any_eq_false] at h ⊢
  intro c hc
  rcases mem_of_mem_collapse hc with hmark | htext
  · have hmarker : ∀ d ∈ redacted, ¬isSurrogate d = true := by decide
    exact hmarker c hmark
  · exact h c htext

/-- A secret that shares no part with the marker does not survive. -/
private theorem not_infix_redactedRuns {text secret : Str} {secrets : List Str} (hsecret : secret ∈ secrets)
    (hless : 0x3C ∉ secret) (hgreater : 0x3E ∉ secret) (hmarker : ¬secret <:+: chars "redacted") :
    ¬secret <:+: (redactedRuns text secrets).map Prod.fst := by
  have hpos : 0 < secret.length := by
    refine List.length_pos_iff.2 fun hnil => ?_
    rw [hnil] at hmarker
    exact hmarker List.nil_infix
  obtain ⟨merged, hreplace, hapart, -, hinside⟩ := exists_apart fun p hp => @secretSpans_bounds text secrets p hp
  intro hpart
  rw [← replaceSpans_secretSpans, hreplace] at hpart
  obtain ⟨start, hlead, -, hnot⟩ := exists_of_infix_replaceFrom hless hgreater hmarker hapart hpart
  have hcovered : Covered text secrets start := ⟨secret, hsecret, start, Nat.le_refl _, by omega, hlead⟩
  exact hnot start (Nat.le_refl _) (by omega) ((hinside start).2 (inside_secretSpans.2 hcovered))

/-- A text without surrogates becomes the longest beginning within the bound of the text in which each maximal run of
covered positions is one marker: what is left of the text itself comes from positions outside of all occurrences, and a
secret that has neither `<` nor `>` and is no part of `redacted` does not occur any more. -/
theorem redactText_correct {text : Str} (secrets : List Str) {maximum : Nat} (htext : text.any isSurrogate = false)
    (hmaximum : 0 < maximum) :
    ∃ n, redactText text secrets maximum = ((redactedRuns text secrets).take n).map Prod.fst ∧
      ((redactText text secrets maximum).map utf8Size).sum ≤ maximum ∧
      (∀ p, p <+: (redactedRuns text secrets).map Prod.fst → (p.map utf8Size).sum ≤ maximum →
        p <+: redactText text secrets maximum) ∧
      (∀ c i, (c, some i) ∈ (redactedRuns text secrets).take n → ¬Covered text secrets i ∧ text[i]? = some c) ∧
      ∀ secret ∈ secrets, 0x3C ∉ secret → 0x3E ∉ secret → ¬secret <:+: chars "redacted" →
        ¬secret <:+: redactText text secrets maximum := by
  have hredact : redactText text secrets maximum = bounded ((redactedRuns text secrets).map Prod.fst) maximum := by
    unfold redactText
    rw [if_neg (Nat.pos_iff_ne_zero.1 hmaximum), replaceSpans_secretSpans]
  obtain ⟨hlead, hsize, hlongest⟩ := bounded_longest (redactedRuns_plain secrets htext) maximum
  rw [← hredact] at hlead hsize hlongest
  refine ⟨(redactText text secrets maximum).length, ?_, hsize, hlongest, fun c i hmem => ?_, ?_⟩
  · rw [List.map_take]
    exact List.prefix_iff_eq_take.1 hlead
  · obtain ⟨hnot, k, hi, hc⟩ := mem_collapse.1 (List.mem_of_mem_take hmem)
    rw [Nat.zero_add] at hi
    rw [hi] at hnot ⊢
    exact ⟨hnot, hc⟩
  · intro secret hsecret hless hgreater hmarker hpart
    exact not_infix_redactedRuns hsecret hless hgreater hmarker (hpart.trans hlead.isInfix)

/-- Two secrets that overlap, the bound inside of their marker. -/
theorem redactText_correct_sample :
    chars "xx-<redac" <+: redactText (chars "xx-abcab-yy") [chars "abc", chars "cab"] 9 ∧
      ¬chars "cab" <:+: redactText (chars "xx-abcab-yy") [chars "abc", chars "cab"] 9 := by
  have hplain : (chars "xx-abcab-yy").any isSurrogate = false := by decide +kernel
  obtain ⟨n, -, -, hlongest, -, hnone⟩ :=
    redactText_correct [chars "abc", chars "cab"] hplain (show 0 < 9 by decide)
  refine ⟨hlongest _ (by decide +kernel) (by decide +kernel), hnone _ ?_ ?_ ?_ ?_⟩
  · exact List.mem_cons_of_mem _ List.mem_cons_self
  · decide +kernel
  · decide +kernel
  · decide +kernel

end NativeMcp.Agent
