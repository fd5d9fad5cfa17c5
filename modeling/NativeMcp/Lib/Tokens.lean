import Mathlib.Data.List.TakeWhile

/-!
# Tokens between separators

The tokens of a list are its nonempty pieces between the elements that a predicate calls separators.  A scanner finds
them one by one: it drops separators, takes what is no separator and goes on behind the next one; the lemmas say what
each of its three exits means for the tokens.
-/

namespace Tokens

variable {α : Type} {p : α → Bool}

/-- The nonempty pieces between separators. -/
def tokens (p : α → Bool) (l : List α) : List (List α) := (l.splitOnP p).filter (!·.isEmpty)

theorem tokens_nil : tokens p [] = [] := by
  unfold tokens
  rw [List.splitOnP_nil]
  rfl

theorem tokens_separator {b : α} (hb : p b = true) (l : List α) : tokens p (b :: l) = tokens p l := by
  unfold tokens
  have h : (b :: l).splitOnP p = [] :: l.splitOnP p := by
    have h := List.splitOnP_append_cons (p := p) [] l hb
    rwa [List.splitOnP_nil] at h
  rw [h, List.filter_cons_of_neg (by simp)]

theorem tokens_word {w : List α} (hne : w ≠ []) (h : ∀ b ∈ w, p b = false) : tokens p w = [w] := by
  unfold tokens
  rw [List.splitOnP_eq_singleton h, List.filter_cons_of_pos (by simpa using hne)]
  rfl

theorem tokens_word_append {w : List α} (hne : w ≠ []) (h : ∀ b ∈ w, p b = false) {b : α} (hb : p b = true)
    (l : List α) : tokens p (w ++ b :: l) = w :: tokens p l := by
  unfold tokens
  rw [List.splitOnP_append_cons_of_forall_mem h b hb, List.filter_cons_of_pos (by simpa using hne)]

theorem tokens_dropWhile (l : List α) : tokens p (l.dropWhile p) = tokens p l := by
  induction l with
  | nil => rfl
  | cons b l ih =>
    by_cases hb : p b = true
    · rw [List.dropWhile_cons_of_pos hb, ih, tokens_separator hb]
    · rw [List.dropWhile_cons_of_neg hb]

/-! ### A scanner's exits -/

theorem tokens_of_all_separators {l : List α} (h : l.dropWhile p = []) : tokens p l = [] := by
  rw [← tokens_dropWhile, h, tokens_nil]

theorem not_separator_of_dropWhile {l rest : List α} {b : α} (h : l.dropWhile p = b :: rest) : p b = false := by
  have hb := List.head?_dropWhile_not p l
  rw [h] at hb
  simpa using hb

private theorem forall_takeWhile_not (l : List α) : ∀ b ∈ l.takeWhile (!p ·), p b = false := by
  intro b hb
  have h := List.all_eq_true.1 List.all_takeWhile b hb
  simpa using h

private theorem takeWhile_not_ne_nil {l rest : List α} {b : α} (h : l.dropWhile p = b :: rest) :
    (b :: rest).takeWhile (!p ·) ≠ [] := by
  rw [List.takeWhile_cons_of_pos (by simp [not_separator_of_dropWhile h])]
  exact List.cons_ne_nil _ _

/-- The last token, which ends with the list. -/
theorem tokens_of_last {l rest : List α} {b : α} (h : l.dropWhile p = b :: rest)
    (hend : (b :: rest).dropWhile (!p ·) = []) :
    (b :: rest).takeWhile (!p ·) = b :: rest ∧ tokens p l = [b :: rest] := by
  have hsplit : (b :: rest).takeWhile (!p ·) ++ (b :: rest).dropWhile (!p ·) = b :: rest :=
    List.takeWhile_append_dropWhile
  rw [hend, List.append_nil] at hsplit
  refine ⟨hsplit, ?_⟩
  have hword := forall_takeWhile_not (p := p) (b :: rest)
  rw [hsplit] at hword
  rw [← tokens_dropWhile, h]
  exact tokens_word (List.cons_ne_nil b rest) hword

/-- A token with a separator behind it. -/
theorem tokens_of_next {l rest after : List α} {b c : α} (h : l.dropWhile p = b :: rest)
    (hnext : (b :: rest).dropWhile (!p ·) = c :: after) :
    p c = true ∧ tokens p l = (b :: rest).takeWhile (!p ·) :: tokens p after := by
  have hsplit : (b :: rest).takeWhile (!p ·) ++ (b :: rest).dropWhile (!p ·) = b :: rest :=
    List.takeWhile_append_dropWhile
  have hc : p c = true := by
    have hc := List.head?_dropWhile_not (!p ·) (b :: rest)
    rw [hnext] at hc
    simpa using hc
  refine ⟨hc, ?_⟩
  rw [hnext] at hsplit
  have htokens := tokens_word_append (takeWhile_not_ne_nil h) (forall_takeWhile_not (b :: rest)) hc after
  rw [hsplit] at htokens
  rw [← tokens_dropWhile, h, htokens]

theorem tokens_eq_nil_iff {l : List α} : tokens p l = [] ↔ l.dropWhile p = [] := by
  constructor
  · intro h
    cases hdrop : l.dropWhile p with
    | nil => rfl
    | cons b rest =>
      cases hnext : (b :: rest).dropWhile (!p ·) with
      | nil =>
        rw [(tokens_of_last hdrop hnext).2] at h
        cases h
      | cons c after =>
        rw [(tokens_of_next hdrop hnext).2] at h
        cases h
  · exact tokens_of_all_separators

end Tokens
