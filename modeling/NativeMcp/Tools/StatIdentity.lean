import NativeMcp.Tools.ProcessParsing

/-!
# The identity of a process in its `stat` text

`parse_stat_identity` takes the name between the first opening and the last closing parenthesis and counts fields from
the second byte behind the latter.  The fields it counts are the pieces of the text between spaces.
-/

namespace NativeMcp.ProcessParsing

/-- The fields of a text: its nonempty pieces between spaces. -/
def spaceFields (text : Bytes) : List Bytes := (text.splitOn kSpace).filter (· ≠ [])

theorem spaceFields_nil : spaceFields [] = [] := by
  unfold spaceFields
  rw [List.splitOn_nil]
  rfl

theorem spaceFields_space (text : Bytes) : spaceFields (kSpace :: text) = spaceFields text := by
  unfold spaceFields
  have h : (kSpace :: text).splitOn kSpace = [] :: text.splitOn kSpace := List.splitOn_append_cons_self [] text
  rw [h, List.filter_cons_of_neg (by simp)]

theorem spaceFields_field {field : Bytes} (hne : field ≠ []) (h : kSpace ∉ field) : spaceFields field = [field] := by
  unfold spaceFields
  rw [List.splitOn_eq_singleton h, List.filter_cons_of_pos (by simpa using hne)]
  rfl

theorem spaceFields_field_append {field : Bytes} (hne : field ≠ []) (h : kSpace ∉ field) (after : Bytes) :
    spaceFields (field ++ kSpace :: after) = field :: spaceFields after := by
  unfold spaceFields
  rw [List.splitOn_append_cons_self, List.splitOn_eq_singleton h, List.singleton_append,
    List.filter_cons_of_pos (by simpa using hne)]

example : spaceFields (bytes " 42  (a b) S") = [bytes "42", bytes "(a", bytes "b)", bytes "S"] := by decide +kernel

private theorem spaceFields_dropWhile (text : Bytes) :
    spaceFields (text.dropWhile (· == kSpace)) = spaceFields text := by
  induction text with
  | nil => rfl
  | cons b text ih =>
    by_cases hb : b = kSpace
    · subst hb
      rw [List.dropWhile_cons_of_pos (by simp), ih, spaceFields_space]
    · rw [List.dropWhile_cons_of_neg (by simpa using hb)]

theorem statFields_eq (count : Nat) (text : Bytes) : statFields count text = (spaceFields text).take count := by
  induction count generalizing text with
  | zero => rfl
  | succ count ih =>
    rw [← spaceFields_dropWhile text]
    unfold statFields
    split
    · rename_i hd
      rw [hd, spaceFields_nil]
      rfl
    · rename_i b rest hd
      rw [hd]
      have hb : b ≠ kSpace := by
        intro hb
        have := List.head?_dropWhile_not (· == kSpace) text
        rw [hd] at this
        simp [hb] at this
      have hsplit : (b :: rest).takeWhile (· != kSpace) ++ (b :: rest).dropWhile (· != kSpace) = b :: rest :=
        List.takeWhile_append_dropWhile
      have hfield : (b :: rest).takeWhile (· != kSpace) ≠ [] := by
        rw [List.takeWhile_cons_of_pos (by simpa using hb)]
        exact List.cons_ne_nil _ _
      have hspace : kSpace ∉ (b :: rest).takeWhile (· != kSpace) := by
        intro hm
        have := List.all_eq_true.1 List.all_takeWhile _ hm
        simp at this
      dsimp only
      split
      · rename_i hnil
        rw [hnil, List.append_nil] at hsplit
        have h := spaceFields_field hfield hspace
        rw [hsplit] at h
        rw [h, hsplit, List.take_of_length_le (by simp)]
      · rename_i c after hafter
        have hc : c = kSpace := by
          have := List.head?_dropWhile_not (· != kSpace) (b :: rest)
          rw [hafter] at this
          simpa using this
        rw [hafter, hc] at hsplit
        have h := spaceFields_field_append hfield hspace after
        rw [hsplit] at h
        rw [h, ih]
        rfl

/-! ### The parentheses -/

private theorem findIdx?_append_cons {p : UInt8 → Bool} {before after : Bytes} {b : UInt8}
    (h : ∀ c ∈ before, p c = false) (hb : p b = true) :
    (before ++ b :: after).findIdx? p = some before.length := by
  induction before with
  | nil => simp [List.findIdx?_cons, hb]
  | cons c before ih =>
    have hc : p c = false := h c (by simp)
    rw [List.cons_append, List.findIdx?_cons, if_neg (by simp [hc]), ih fun d hd => h d (by simp [hd])]
    rfl

/-- The identity, given the name and the text of the fields. -/
def identityOf (name fieldText : Bytes) : Option StatIdentity :=
  match (spaceFields fieldText)[0]?, (spaceFields fieldText)[19]? with
  | some state, some startTime =>
    if state.length ≠ 1 then none else (parseUnsigned startTime).map fun ticks => ⟨name, state, ticks⟩
  | _, _ => none

theorem parseStatIdentity_eq {before name fieldText : Bytes} {c : UInt8} (hopen : kOpenParen ∉ before)
    (hclose : kCloseParen ∉ c :: fieldText) (hne : fieldText ≠ []) :
    parseStatIdentity (before ++ kOpenParen :: (name ++ kCloseParen :: c :: fieldText)) = identityOf name fieldText := by
  have hfirst : (before ++ kOpenParen :: (name ++ kCloseParen :: c :: fieldText)).findIdx? (· == kOpenParen) =
      some before.length :=
    findIdx?_append_cons (fun d hd => by simpa using fun h : d = kOpenParen => hopen (h ▸ hd)) (by simp)
  have hlast : (before ++ kOpenParen :: (name ++ kCloseParen :: c :: fieldText)).reverse.findIdx? (· == kCloseParen) =
      some (c :: fieldText).length := by
    have hreverse : (before ++ kOpenParen :: (name ++ kCloseParen :: c :: fieldText)).reverse =
        (c :: fieldText).reverse ++ kCloseParen :: (before ++ kOpenParen :: name).reverse := by simp
    rw [hreverse, ← @List.length_reverse _ (c :: fieldText)]
    refine findIdx?_append_cons (fun d hd => ?_) (by simp)
    rw [List.mem_reverse] at hd
    simpa using fun h : d = kCloseParen => hclose (h ▸ hd)
  have hlength : (before ++ kOpenParen :: (name ++ kCloseParen :: c :: fieldText)).length - 1 - (c :: fieldText).length =
      before.length + 1 + name.length := by
    simp only [List.length_append, List.length_cons]
    omega
  have hpos : 0 < fieldText.length := List.length_pos_of_ne_nil hne
  have hfields : (before ++ kOpenParen :: (name ++ kCloseParen :: c :: fieldText)).drop (before.length + 1 + name.length + 2) =
      fieldText := by
    have happend : before ++ kOpenParen :: (name ++ kCloseParen :: c :: fieldText) =
        (before ++ kOpenParen :: (name ++ [kCloseParen, c])) ++ fieldText := by simp
    rw [happend]
    refine List.drop_left' ?_
    simp only [List.length_append, List.length_cons, List.length_nil]
    omega
  have hname : ((before ++ kOpenParen :: (name ++ kCloseParen :: c :: fieldText)).drop (before.length + 1)).take
      (before.length + 1 + name.length - before.length - 1) = name := by
    have happend : before ++ kOpenParen :: (name ++ kCloseParen :: c :: fieldText) =
        (before ++ [kOpenParen]) ++ (name ++ kCloseParen :: c :: fieldText) := by simp
    rw [happend, List.drop_left' (by simp), show before.length + 1 + name.length - before.length - 1 = name.length by omega,
      List.take_left]
  unfold parseStatIdentity
  rw [hfirst, hlast]
  dsimp only
  rw [hlength, if_neg, hfields, hname, statFields_eq, List.getElem?_take_of_lt (by omega),
    List.getElem?_take_of_lt (by omega)]
  · rfl
  · simp only [List.length_append, List.length_cons, not_or, Nat.not_le]
    omega

private theorem exists_of_findIdx? {p : UInt8 → Bool} {text : Bytes} {i : Nat} (h : text.findIdx? p = some i) :
    ∃ before b after, text = before ++ b :: after ∧ before.length = i ∧ p b = true ∧ ∀ c ∈ before, p c = false := by
  obtain ⟨hlt, hp, hbefore⟩ := List.findIdx?_eq_some_iff_getElem.1 h
  refine ⟨text.take i, text[i], text.drop (i + 1), ?_, List.length_take_of_le (by omega), hp, fun c hc => ?_⟩
  · rw [List.getElem_cons_drop, List.take_append_drop]
  · obtain ⟨j, hj, rfl⟩ := List.mem_iff_getElem.1 hc
    rw [List.length_take] at hj
    rw [List.getElem_take]
    simpa using hbefore j (by omega)

/-- What is accepted has a name in parentheses, a byte behind them, and fields. -/
theorem exists_of_parseStatIdentity {text : Bytes} {identity : StatIdentity}
    (h : parseStatIdentity text = some identity) :
    ∃ before name c fieldText, text = before ++ kOpenParen :: (name ++ kCloseParen :: c :: fieldText) ∧
      kOpenParen ∉ before ∧ kCloseParen ∉ c :: fieldText ∧ fieldText ≠ [] := by
  unfold parseStatIdentity at h
  split at h
  · rename_i start fromEnd hfirst hlast
    obtain ⟨before, b, after, rfl, rfl, hb, hbefore⟩ := exists_of_findIdx? hfirst
    obtain ⟨tail, d, head, hreverse, rfl, hd, htail⟩ := exists_of_findIdx? hlast
    have hb : b = kOpenParen := by simpa using hb
    have hd : d = kCloseParen := by simpa using hd
    subst hb hd
    have htext := congrArg List.reverse hreverse
    rw [List.reverse_reverse, List.reverse_append, List.reverse_cons, List.append_assoc, List.singleton_append] at htext
    have hlength := congrArg List.length htext
    simp only [List.length_append, List.length_reverse, List.length_cons] at hlength
    dsimp only at h
    split at h
    · cases h
    · rename_i hplace
      simp only [List.length_append, List.length_cons, not_or, Nat.not_le] at hplace
      -- the opening parenthesis lies before the closing one
      rcases List.append_eq_append_iff.1 htext with ⟨middle, hhead, hafter⟩ | ⟨middle, hbeforeEq, hafter⟩
      · cases middle with
        | nil =>
          have := congrArg List.length hhead
          rw [List.append_nil, List.length_reverse] at this
          omega
        | cons e name =>
          obtain ⟨rfl, hname⟩ := List.cons.inj hafter
          have hrest : tail.reverse.length = tail.length := List.length_reverse
          cases hf : tail.reverse with
          | nil =>
            rw [hf, List.length_nil] at hrest
            omega
          | cons c fieldText =>
            rw [hf] at hname hrest
            refine ⟨before, name, c, fieldText, by rw [hname]; rfl, ?_, ?_, ?_⟩
            · intro hm
              simpa using hbefore _ hm
            · intro hm
              rw [← hf, List.mem_reverse] at hm
              simpa using htail _ hm
            · rintro rfl
              rw [List.length_singleton] at hrest
              omega
      · have := congrArg List.length hbeforeEq
        simp only [List.length_append, List.length_reverse] at this
        omega
  · cases h

/-! ### What is returned -/

/-- What follows the last closing parenthesis. -/
def afterLastClose (text : Bytes) : Bytes := (text.reverse.takeWhile (· != kCloseParen)).reverse

theorem afterLastClose_eq {front after : Bytes} (h : kCloseParen ∉ after) :
    afterLastClose (front ++ kCloseParen :: after) = after := by
  have hall : ∀ b ∈ after.reverse, (b != kCloseParen) = true := by
    intro b hb
    rw [List.mem_reverse] at hb
    simpa using fun hc : b = kCloseParen => h (hc ▸ hb)
  have hreverse : (front ++ kCloseParen :: after).reverse = after.reverse ++ kCloseParen :: front.reverse := by simp
  unfold afterLastClose
  rw [hreverse, List.takeWhile_append_of_pos hall, List.takeWhile_cons_of_neg (by simp), List.append_nil,
    List.reverse_reverse]

/-- The text of a process is read for what it says, whatever its name is; and the start time of any accepted text is
the twentieth field of what follows the byte behind the last closing parenthesis. -/
theorem statIdentity_correct :
    (∀ (before name rest digits : Bytes) (state : UInt8), kOpenParen ∉ before → state ≠ kSpace → state ≠ kCloseParen →
      kCloseParen ∉ rest → (spaceFields rest)[18]? = some digits →
      digits ≠ [] ∧ digits.all isDigit = true ∧ digitsValue digits ≤ kMaxUint64 →
      parseStatIdentity (before ++ kOpenParen :: (name ++ kCloseParen :: kSpace :: state :: kSpace :: rest)) =
        some ⟨name, [state], digitsValue digits⟩) ∧
    ∀ text identity, parseStatIdentity text = some identity →
      ∃ digits, (spaceFields ((afterLastClose text).drop 1))[19]? = some digits ∧
        parseUnsigned digits = some identity.startTimeTicks := by
  constructor
  · intro before name rest digits state hopen hspace hclose hrest hfield hdigits
    have hlast : kCloseParen ∉ kSpace :: state :: kSpace :: rest := by
      simp only [List.mem_cons, not_or]
      exact ⟨by decide, hclose.symm, by decide, hrest⟩
    have hstate : spaceFields ([state] ++ kSpace :: rest) = [state] :: spaceFields rest :=
      spaceFields_field_append (by simp) (by simpa using hspace.symm) rest
    rw [List.singleton_append] at hstate
    have hticks : parseUnsigned digits = some (digitsValue digits) := by
      unfold parseUnsigned
      rw [if_pos hdigits]
    rw [parseStatIdentity_eq hopen hlast (List.cons_ne_nil _ _)]
    unfold identityOf
    rw [hstate, List.getElem?_cons_zero, List.getElem?_cons_succ, hfield]
    simp [hticks]
  · intro text identity h
    obtain ⟨before, name, c, fieldText, rfl, hopen, hclose, hne⟩ := exists_of_parseStatIdentity h
    rw [parseStatIdentity_eq hopen hclose hne] at h
    have htext : before ++ kOpenParen :: (name ++ kCloseParen :: c :: fieldText) =
        (before ++ kOpenParen :: name) ++ kCloseParen :: c :: fieldText := by simp
    rw [htext, afterLastClose_eq hclose]
    unfold identityOf at h
    split at h
    · rename_i state startTime hstate hstart
      split at h
      · cases h
      · obtain ⟨ticks, hticks, rfl⟩ := Option.map_eq_some_iff.1 h
        exact ⟨startTime, hstart, hticks⟩
    · cases h

theorem statIdentity_nested :
    parseStatIdentity (bytes "7 (a) (b\n) S 1 2 3 4 5 6 7 8 9 10 11 12 13 14 15 16 17 18 424242 20") =
      some ⟨bytes "a) (b\n", bytes "S", 424242⟩ ∧
    ∃ digits, (spaceFields ((afterLastClose
        (bytes "7 (sh)S 1 2 3 4 5 6 7 8 9 10 11 12 13 14 15 16 17 18 19 20 21")).drop 1))[19]? = some digits ∧
      parseUnsigned digits = some 20 := by
  have hparse := statIdentity_correct.1 (bytes "7 ") (bytes "a) (b\n")
    (bytes "1 2 3 4 5 6 7 8 9 10 11 12 13 14 15 16 17 18 424242 20") (bytes "424242") 0x53 (by decide) (by decide)
    (by decide) (by decide +kernel) (by decide +kernel) (by decide +kernel)
  have htext : bytes "7 (a) (b\n) S 1 2 3 4 5 6 7 8 9 10 11 12 13 14 15 16 17 18 424242 20" = bytes "7 " ++ kOpenParen ::
      (bytes "a) (b\n" ++ kCloseParen :: kSpace :: 0x53 :: kSpace ::
        bytes "1 2 3 4 5 6 7 8 9 10 11 12 13 14 15 16 17 18 424242 20") := by decide +kernel
  refine ⟨?_, statIdentity_correct.2 _ ⟨bytes "sh", bytes "1", 20⟩ (by decide +kernel)⟩
  rw [htext, hparse]
  decide +kernel

/-- A closing parenthesis as the state moves the name, and without a space behind the parentheses the fields are
counted from the second byte. -/
theorem statIdentity_shifted :
    (∃ before name rest digits : Bytes, ∃ state : UInt8, kOpenParen ∉ before ∧ state ≠ kSpace ∧ kCloseParen ∉ rest ∧
      (spaceFields rest)[18]? = some digits ∧ digits ≠ [] ∧ digits.all isDigit = true ∧
      digitsValue digits ≤ kMaxUint64 ∧
      parseStatIdentity (before ++ kOpenParen :: (name ++ kCloseParen :: kSpace :: state :: kSpace :: rest)) ≠
        some ⟨name, [state], digitsValue digits⟩) ∧
    ∃ text identity, parseStatIdentity text = some identity ∧
      ¬ ∃ digits, (spaceFields (afterLastClose text))[19]? = some digits ∧
        parseUnsigned digits = some identity.startTimeTicks := by
  constructor
  · refine ⟨bytes "7 ", bytes "sh", bytes "1 2 3 4 5 6 7 8 9 10 11 12 13 14 15 16 17 18 19 20 21", bytes "19",
      kCloseParen, ?_⟩
    decide +kernel
  · have hparse : parseStatIdentity (bytes "7 (sh)S 1 2 3 4 5 6 7 8 9 10 11 12 13 14 15 16 17 18 19 20 21") =
        some ⟨bytes "sh", bytes "1", 20⟩ := by decide +kernel
    have hfield : (spaceFields (afterLastClose
        (bytes "7 (sh)S 1 2 3 4 5 6 7 8 9 10 11 12 13 14 15 16 17 18 19 20 21")))[19]? = some (bytes "19") := by
      decide +kernel
    refine ⟨_, _, hparse, ?_⟩
    rintro ⟨digits, hdigits, hticks⟩
    rw [hfield] at hdigits
    cases hdigits
    exact absurd hticks (by decide +kernel)

end NativeMcp.ProcessParsing
