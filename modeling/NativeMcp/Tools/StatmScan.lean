import NativeMcp.Tools.StatusFields

/-!
# The page counts of `statm`

The scan with its position, as the source has it: every byte that it reads is looked up and may be missing.  It never
is (`scanStatm_eq`), and the scan computes what the recursion over the rest of the text does, so that the fields of an
accepted text are its tokens.  A last number that ends the text leaves the position where it is, and the text is
refused (`statm_law_iff`).
-/

namespace NativeMcp.ProcessParsing

open Tokens (tokens tokens_of_last tokens_of_next tokens_eq_nil_iff not_separator_of_dropWhile)

/-! ### Reading at a position -/

/-- A read behind the end of the text. -/
inductive Fault where
  | pastText (position : Nat)
  deriving DecidableEq, Repr

/-- `text[position]` -/
def byteAt (text : Bytes) (position : Nat) : Except Fault UInt8 :=
  match text[position]? with
  | some b => .ok b
  | none => .error (.pastText position)

/-- `text.substr(position, count)` -/
def substr (text : Bytes) (position count : Nat) : Except Fault Bytes :=
  if position ≤ text.length then .ok ((text.drop position).take count) else .error (.pastText position)

/-- `text.find_first_of(" \t\r\n", position)` -/
def findFirstOf (text : Bytes) (position : Nat) : Option Nat :=
  ((text.drop position).findIdx? isSpace).map (position + ·)

/-- The position of the next byte that is no white space. -/
def skipSpaces (text : Bytes) (position : Nat) : Except Fault Nat :=
  if position < text.length then
    match byteAt text position with
    | .error fault => .error fault
    | .ok b => if isSpace b then skipSpaces text (position + 1) else .ok position
  else .ok position
termination_by text.length - position

/-- The scan for at most `remaining` more counts: those found and where it stops, unless a token is no number. -/
def scanPages (text : Bytes) : (remaining position : Nat) → Except Fault (Option (List Nat × Nat))
  | 0, position => .ok (some ([], position))
  | remaining + 1, position =>
    if position < text.length then
      match skipSpaces text position with
      | .error fault => .error fault
      | .ok position =>
        if text.length ≤ position then .ok (some ([], position))
        else
          let stop := findFirstOf text position
          match substr text position (match stop with
            | none => text.length - position
            | some stop => stop - position) with
          | .error fault => .error fault
          | .ok token =>
            match parseUnsigned token with
            | none => .ok none
            | some value =>
              match stop with
              | none => .ok (some ([value], position))
              | some stop =>
                match scanPages text remaining (stop + 1) with
                | .error fault => .error fault
                | .ok outcome => .ok (outcome.map fun r => (value :: r.1, r.2))
    else .ok (some ([], position))

def scanStatm (text : Bytes) (pageSize : Nat) : Except Fault (Option ProcessStatmMemory) :=
  match scanPages text 7 0 with
  | .error fault => .error fault
  | .ok none => .ok none
  | .ok (some (pages, position)) =>
    match skipSpaces text position with
    | .error fault => .error fault
    | .ok position =>
      match pages with
      | [size, resident, shared, code, _, data, _] =>
        if position ≠ text.length then .ok none
        else .ok do
          let virtualBytes ← checkedMultiply size pageSize
          let residentBytes ← checkedMultiply resident pageSize
          let sharedBytes ← checkedMultiply shared pageSize
          let textBytes ← checkedMultiply code pageSize
          let dataAndStackBytes ← checkedMultiply data pageSize
          return ⟨virtualBytes, residentBytes, sharedBytes, textBytes, dataAndStackBytes⟩
      | _ => .ok none

/-! ### The scan stays in the text -/

theorem byteAt_of_drop {text rest : Bytes} {position : Nat} {b : UInt8} (h : text.drop position = b :: rest) :
    byteAt text position = .ok b := by
  have hget : text[position]? = some b := by
    rw [← List.head?_drop, h]
    rfl
  unfold byteAt
  rw [hget]

/-- White space is skipped up to the rest that begins with something else. -/
theorem skipSpaces_eq {text : Bytes} {position : Nat} (h : position ≤ text.length) :
    ∃ position', skipSpaces text position = .ok position' ∧ position' ≤ text.length ∧
      text.drop position' = (text.drop position).dropWhile isSpace := by
  generalize hrest : text.drop position = rest
  induction rest generalizing position with
  | nil =>
    have hend : ¬ position < text.length := by
      have hlength := congrArg List.length hrest
      rw [List.length_drop, List.length_nil] at hlength
      omega
    refine ⟨position, ?_, h, hrest⟩
    rw [skipSpaces, if_neg hend]
  | cons b rest ih =>
    have hlt : position < text.length := by
      have hlength := congrArg List.length hrest
      rw [List.length_drop, List.length_cons] at hlength
      omega
    have hnext : text.drop (position + 1) = rest := by
      rw [← List.tail_drop, hrest]
      rfl
    rw [skipSpaces, if_pos hlt, byteAt_of_drop hrest]
    by_cases hb : isSpace b = true
    · obtain ⟨position', hskip, hle, hdrop⟩ := ih hlt hnext
      refine ⟨position', ?_, hle, ?_⟩
      · rw [← hskip]
        exact if_pos hb
      · rw [hdrop, List.dropWhile_cons_of_pos hb]
    · refine ⟨position, if_neg hb, h, ?_⟩
      rw [List.dropWhile_cons_of_neg hb, hrest]

/-- The token at a position ends at the next white space, if there is one. -/
theorem findFirstOf_eq {text : Bytes} (position : Nat) :
    (findFirstOf text position = none ∧ (text.drop position).dropWhile (!isSpace ·) = []) ∨
      ∃ stop c after, findFirstOf text position = some stop ∧ position ≤ stop ∧ stop < text.length ∧
        (text.drop position).dropWhile (!isSpace ·) = c :: after ∧ text.drop (stop + 1) = after ∧
        (text.drop position).take (stop - position) = (text.drop position).takeWhile (!isSpace ·) := by
  unfold findFirstOf
  generalize hrest : text.drop position = rest
  cases hfind : rest.findIdx? isSpace with
  | none =>
    refine .inl ⟨rfl, ?_⟩
    rw [List.dropWhile_eq_nil_iff]
    intro b hb
    simpa using List.findIdx?_eq_none_iff.1 hfind b hb
  | some i =>
    obtain ⟨hi, hat, hbefore⟩ := List.findIdx?_eq_some_iff_getElem.1 hfind
    have hword : ∀ b ∈ rest.take i, (!isSpace b) = true := by
      intro b hb
      obtain ⟨j, hj, rfl⟩ := List.mem_iff_getElem.1 hb
      rw [List.length_take] at hj
      rw [List.getElem_take]
      simpa using hbefore j (by omega)
    have hsplit : rest = rest.take i ++ rest[i] :: rest.drop (i + 1) := by
      rw [← List.drop_eq_getElem_cons hi, List.take_append_drop]
    have hlength : text.length - position = rest.length := by rw [← hrest, List.length_drop]
    refine .inr ⟨position + i, rest[i], rest.drop (i + 1), rfl, Nat.le_add_right _ _, by omega, ?_, ?_, ?_⟩
    · conv_lhs => rw [hsplit]
      rw [List.dropWhile_append_of_pos hword, List.dropWhile_cons_of_neg (by simp [hat])]
    · rw [← hrest, List.drop_drop]
      rfl
    · conv_rhs => rw [hsplit]
      rw [Nat.add_sub_cancel_left, List.takeWhile_append_of_pos hword, List.takeWhile_cons_of_neg (by simp [hat]),
        List.append_nil]

/-- The scan never faults, and computes what the recursion over the rest of the text does. -/
theorem scanPages_eq {text : Bytes} (remaining : Nat) {position : Nat} (h : position ≤ text.length) :
    ∃ outcome, scanPages text remaining position = .ok outcome ∧
      outcome.map (fun r => (r.1, text.drop r.2)) = statmPages remaining (text.drop position) ∧
      ∀ r, outcome = some r → r.2 ≤ text.length := by
  induction remaining generalizing position with
  | zero =>
    refine ⟨_, rfl, rfl, ?_⟩
    rintro r hr
    cases hr
    exact h
  | succ remaining ih =>
    rw [scanPages, statmPages]
    by_cases hlt : position < text.length
    · obtain ⟨position', hskip, hle, hdrop⟩ := skipSpaces_eq h
      rw [if_pos hlt, hskip, ← hdrop]
      dsimp only
      by_cases hend : text.length ≤ position'
      · rw [if_pos hend, List.drop_eq_nil_of_le hend]
        refine ⟨_, rfl, ?_, ?_⟩
        · dsimp only [Option.map]
          rw [List.drop_eq_nil_of_le hend]
        · rintro r hr
          cases hr
          exact hle
      · rw [if_neg hend]
        have hne : text.drop position' ≠ [] := by
          rw [Ne, List.drop_eq_nil_iff]
          exact hend
        obtain ⟨b, rest, hcons⟩ := List.exists_cons_of_ne_nil hne
        have hsubstr : ∀ count, substr text position' count = .ok ((text.drop position').take count) :=
          fun count => if_pos hle
        rw [hsubstr]
        dsimp only
        rcases findFirstOf_eq position' with ⟨hstop, hlast⟩ | ⟨stop, c, after, hstop, hge, hin, hnext, hafter, htoken⟩
        · -- the last number: the position stays
          have htake : (text.drop position').take (text.length - position') =
              (text.drop position').takeWhile (!isSpace ·) := by
            have hsplit : (text.drop position').takeWhile (!isSpace ·) ++ (text.drop position').dropWhile (!isSpace ·) =
                text.drop position' := List.takeWhile_append_dropWhile
            rw [hlast, List.append_nil] at hsplit
            rw [hsplit, List.take_of_length_le (by rw [List.length_drop])]
          rw [hstop]
          dsimp only
          rw [htake, hcons]
          dsimp only
          rw [hcons] at hlast
          cases hvalue : parseUnsigned ((b :: rest).takeWhile (!isSpace ·)) with
          | none =>
            refine ⟨none, rfl, rfl, ?_⟩
            intro r hr
            cases hr
          | some value =>
            dsimp only
            rw [hlast]
            refine ⟨_, rfl, ?_, ?_⟩
            · dsimp only [Option.map]
              rw [hcons]
            · rintro r hr
              cases hr
              exact hle
        · rw [hstop]
          dsimp only
          rw [htoken, hcons]
          dsimp only
          rw [hcons] at hnext
          cases hvalue : parseUnsigned ((b :: rest).takeWhile (!isSpace ·)) with
          | none =>
            refine ⟨none, rfl, rfl, ?_⟩
            intro r hr
            cases hr
          | some value =>
            obtain ⟨outcome, hrun, hpages, hbound⟩ := ih (Nat.succ_le_of_lt hin)
            dsimp only
            rw [hnext, hrun]
            dsimp only
            rw [← hafter, ← hpages]
            refine ⟨_, rfl, ?_, ?_⟩
            · rw [Option.map_map, Option.map_map]
              rfl
            · intro r hr
              obtain ⟨r', hr', rfl⟩ := Option.map_eq_some_iff.1 hr
              exact hbound r' hr'
    · rw [if_neg hlt, List.drop_eq_nil_of_le (Nat.le_of_not_lt hlt)]
      refine ⟨_, rfl, ?_, ?_⟩
      · dsimp only [Option.map, List.dropWhile_nil]
        rw [List.drop_eq_nil_of_le (Nat.le_of_not_lt hlt)]
      · rintro r hr
        cases hr
        exact h

/-- No read is behind the end of the text. -/
theorem scanStatm_eq (text : Bytes) (pageSize : Nat) : scanStatm text pageSize = .ok (parseStatm text pageSize) := by
  obtain ⟨outcome, hrun, hpages, hbound⟩ :=
    @scanPages_eq text 7 0 (Nat.zero_le _)
  unfold scanStatm parseStatm
  rw [hrun]
  rw [List.drop_zero] at hpages
  cases outcome with
  | none =>
    rw [← hpages]
    rfl
  | some r =>
    obtain ⟨pages, position⟩ := r
    obtain ⟨position', hskip, hle, hdrop⟩ := skipSpaces_eq (hbound _ rfl)
    have hend : position' ≠ text.length ↔ (text.drop position).dropWhile isSpace ≠ [] := by
      rw [← hdrop, Ne, Ne, List.drop_eq_nil_iff]
      omega
    rw [← hpages]
    dsimp only [Option.map]
    rw [hskip]
    dsimp only
    match pages with
    | [size, resident, shared, code, library, data, dirty] =>
      by_cases h : position' ≠ text.length
      · exact (if_pos h).trans (congrArg Except.ok (if_pos (hend.1 h)).symm)
      · exact (if_neg h).trans (congrArg Except.ok (if_neg (mt hend.2 h)).symm)
    | [] | [_] | [_, _] | [_, _, _] | [_, _, _, _] | [_, _, _, _, _] | [_, _, _, _, _, _]
    | _ :: _ :: _ :: _ :: _ :: _ :: _ :: _ :: _ => rfl

/-! ### The tokens of the text -/

/-- The text ends in white space. -/
def endsInSpace (text : Bytes) : Bool := text.getLast?.any isSpace

private theorem getLast?_append_cons {text : Bytes} (before : Bytes) (b : UInt8) (rest : Bytes)
    (h : text = before ++ b :: rest) : text.getLast? = (b :: rest).getLast? := by
  rw [h, List.getLast?_append_of_ne_nil _ (List.cons_ne_nil b rest)]

/-- What stands before the first byte that is no white space. -/
private theorem append_of_dropWhile {text rest : Bytes} {b : UInt8} (h : text.dropWhile isSpace = b :: rest) :
    text = text.takeWhile isSpace ++ b :: rest := by
  rw [← h, List.takeWhile_append_dropWhile]

private theorem endsInSpace_of_last {text rest : Bytes} {b : UInt8} (h : text.dropWhile isSpace = b :: rest)
    (hend : (b :: rest).dropWhile (!isSpace ·) = []) : endsInSpace text = false := by
  unfold endsInSpace
  rw [getLast?_append_cons _ b rest (append_of_dropWhile h)]
  rw [List.dropWhile_eq_nil_iff] at hend
  have hlast := List.getLast?_eq_some_getLast (List.cons_ne_nil b rest)
  rw [hlast, Option.any_some]
  simpa using hend _ (List.getLast_mem (List.cons_ne_nil b rest))

private theorem endsInSpace_of_all {after : Bytes} {c : UInt8} (hc : isSpace c = true)
    (h : after.dropWhile isSpace = []) : endsInSpace (c :: after) = true := by
  rw [List.dropWhile_eq_nil_iff] at h
  unfold endsInSpace
  rw [List.getLast?_eq_some_getLast (List.cons_ne_nil c after), Option.any_some]
  rcases List.mem_cons.1 (List.getLast_mem (List.cons_ne_nil c after)) with heq | hmem
  · rw [heq]
    exact hc
  · exact h _ hmem

private theorem endsInSpace_of_next {text rest after : Bytes} {b c : UInt8} (h : text.dropWhile isSpace = b :: rest)
    (hnext : (b :: rest).dropWhile (!isSpace ·) = c :: after) (hc : isSpace c = true) :
    endsInSpace text = true ↔ tokens isSpace after = [] ∨ endsInSpace after = true := by
  have htext : text.getLast? = (c :: after).getLast? := by
    refine getLast?_append_cons (text.takeWhile isSpace ++ (b :: rest).takeWhile (!isSpace ·)) c after ?_
    rw [List.append_assoc, ← hnext, List.takeWhile_append_dropWhile]
    exact append_of_dropWhile h
  have hends : endsInSpace text = endsInSpace (c :: after) := congrArg (Option.any isSpace) htext
  rw [hends, tokens_eq_nil_iff]
  by_cases hall : after.dropWhile isSpace = []
  · exact iff_of_true (endsInSpace_of_all hc hall) (.inl hall)
  · have hne : after ≠ [] := by
      rintro rfl
      exact hall rfl
    have hcons : endsInSpace (c :: after) = endsInSpace after := by
      obtain ⟨d, after', rfl⟩ := List.exists_cons_of_ne_nil hne
      exact congrArg (Option.any isSpace) (getLast?_append_cons [c] d after' rfl)
    rw [hcons]
    exact ⟨.inr, fun h => h.resolve_left hall⟩

/-- The recursion finds its count of numbers up to white space exactly if these are the tokens and white space ends the
text. -/
theorem statmPages_iff {count : Nat} {text : Bytes} {pages : List Nat} :
    (∃ rest, statmPages count text = some (pages, rest) ∧ rest.dropWhile isSpace = [] ∧ pages.length = count) ↔
      List.Forall₂ Decimal (tokens isSpace text) pages ∧ pages.length = count ∧
        (tokens isSpace text = [] ∨ endsInSpace text = true) := by
  induction count generalizing text pages with
  | zero =>
    rw [statmPages]
    constructor
    · rintro ⟨rest, hpages, hrest, -⟩
      cases hpages
      have hnil := tokens_eq_nil_iff.2 hrest
      rw [hnil]
      exact ⟨.nil, rfl, .inl rfl⟩
    · rintro ⟨hdecimal, hlength, -⟩
      obtain rfl := List.length_eq_zero_iff.1 hlength
      have hnil := List.forall₂_nil_right_iff.1 hdecimal
      exact ⟨text, rfl, tokens_eq_nil_iff.1 hnil, rfl⟩
  | succ count ih =>
    rw [statmPages]
    cases hdrop : text.dropWhile isSpace with
    | nil =>
      dsimp only
      refine iff_of_false ?_ ?_
      · rintro ⟨rest, hpages, -, hlength⟩
        cases hpages
        cases hlength
      · rintro ⟨hdecimal, hlength, -⟩
        rw [tokens_eq_nil_iff.2 hdrop] at hdecimal
        cases hdecimal
        cases hlength
    | cons b rest =>
      dsimp only
      cases hnext : (b :: rest).dropWhile (!isSpace ·) with
      | nil =>
        obtain ⟨hword, htokens⟩ := tokens_of_last hdrop hnext
        have hb := not_separator_of_dropWhile hdrop
        refine iff_of_false ?_ ?_
        · rintro ⟨rest', hpages, hrest, -⟩
          split at hpages
          · cases hpages
          · cases hpages
            rw [List.dropWhile_cons_of_neg (by simp [hb])] at hrest
            cases hrest
        · rintro ⟨-, -, hnil | hends⟩
          · rw [htokens] at hnil
            cases hnil
          · rw [endsInSpace_of_last hdrop hnext] at hends
            cases hends
      | cons c after =>
        obtain ⟨hc, htokens⟩ := tokens_of_next hdrop hnext
        have hends := endsInSpace_of_next hdrop hnext hc
        rw [htokens]
        constructor
        · rintro ⟨rest', hpages, hrest, hlength⟩
          split at hpages
          · cases hpages
          · rename_i value hvalue
            obtain ⟨r, hr, hresult⟩ := Option.map_eq_some_iff.1 hpages
            cases hresult
            obtain ⟨hdecimal, hlength', hspace⟩ := ih.1 ⟨r.2, hr, hrest, Nat.succ.inj hlength⟩
            exact ⟨.cons (parseUnsigned_eq_some_iff.1 hvalue) hdecimal, hlength, .inr (hends.2 hspace)⟩
        · rintro ⟨hdecimal, hlength, hspace⟩
          cases hdecimal with
          | cons hvalue hdecimal =>
            have hspace' := hends.1 (hspace.resolve_left (List.cons_ne_nil _ _))
            obtain ⟨rest', hrun, hrest, -⟩ := ih.2 ⟨hdecimal, Nat.succ.inj hlength, hspace'⟩
            rw [parseUnsigned_eq_some_iff.2 hvalue]
            dsimp only
            rw [hrun]
            exact ⟨rest', rfl, hrest, hlength⟩

/-- Seven numbers between white space, of which the first four and the sixth count pages. -/
def StatmLaw (text : Bytes) (pageSize : Nat) (result : ProcessStatmMemory) : Prop :=
  ∃ size resident shared code library data dirty,
    List.Forall₂ Decimal (tokens isSpace text) [size, resident, shared, code, library, data, dirty] ∧
    result = ⟨size * pageSize, resident * pageSize, shared * pageSize, code * pageSize, data * pageSize⟩ ∧
    size * pageSize ≤ kMaxUint64 ∧ resident * pageSize ≤ kMaxUint64 ∧ shared * pageSize ≤ kMaxUint64 ∧
    code * pageSize ≤ kMaxUint64 ∧ data * pageSize ≤ kMaxUint64

/-- What the parser accepts: the law, and a text that ends in white space. -/
theorem parseStatm_eq_some_iff {text : Bytes} {pageSize : Nat} {result : ProcessStatmMemory} :
    parseStatm text pageSize = some result ↔ StatmLaw text pageSize result ∧ endsInSpace text = true := by
  have hnonempty : ∀ {pages : List Nat}, List.Forall₂ Decimal (tokens isSpace text) pages → pages.length = 7 →
      (tokens isSpace text = [] ∨ endsInSpace text = true → endsInSpace text = true) := by
    intro pages hdecimal hlength hor
    refine hor.resolve_left fun hnil => ?_
    rw [hnil] at hdecimal
    cases hdecimal
    cases hlength
  unfold parseStatm
  constructor
  · intro h
    split at h
    · rename_i size resident shared code library data dirty rest hpages
      split at h
      · cases h
      · rename_i hrest
        obtain ⟨hdecimal, hlength, hspace⟩ := statmPages_iff.1 ⟨rest, hpages, not_not.1 hrest, rfl⟩
        obtain ⟨virtual, hvirtual, h⟩ := Option.bind_eq_some_iff.1 h
        obtain ⟨residentBytes, hresident, h⟩ := Option.bind_eq_some_iff.1 h
        obtain ⟨sharedBytes, hshared, h⟩ := Option.bind_eq_some_iff.1 h
        obtain ⟨textBytes, htext, h⟩ := Option.bind_eq_some_iff.1 h
        obtain ⟨dataBytes, hdata, h⟩ := Option.bind_eq_some_iff.1 h
        obtain ⟨rfl, hvirtual⟩ := checkedMultiply_eq_some_iff.1 hvirtual
        obtain ⟨rfl, hresident⟩ := checkedMultiply_eq_some_iff.1 hresident
        obtain ⟨rfl, hshared⟩ := checkedMultiply_eq_some_iff.1 hshared
        obtain ⟨rfl, htext⟩ := checkedMultiply_eq_some_iff.1 htext
        obtain ⟨rfl, hdata⟩ := checkedMultiply_eq_some_iff.1 hdata
        cases h
        exact ⟨⟨size, resident, shared, code, library, data, dirty, hdecimal, rfl, hvirtual, hresident, hshared, htext,
          hdata⟩, hnonempty hdecimal rfl hspace⟩
    · cases h
  · rintro ⟨⟨size, resident, shared, code, library, data, dirty, hdecimal, rfl, hvirtual, hresident, hshared, hcode,
      hdata⟩, hspace⟩
    obtain ⟨rest, hpages, hrest, -⟩ := (@statmPages_iff 7 text _).2 ⟨hdecimal, rfl, .inr hspace⟩
    rw [hpages]
    dsimp only
    rw [if_neg (not_not.2 hrest), checkedMultiply_eq_some_iff.2 ⟨rfl, hvirtual⟩,
      checkedMultiply_eq_some_iff.2 ⟨rfl, hresident⟩, checkedMultiply_eq_some_iff.2 ⟨rfl, hshared⟩,
      checkedMultiply_eq_some_iff.2 ⟨rfl, hcode⟩, checkedMultiply_eq_some_iff.2 ⟨rfl, hdata⟩]
    rfl

/-- The scan ends without a read behind the text, and its outcome is as the law has it unless white space is missing
behind the last of seven such numbers. -/
theorem statm_law_iff (text : Bytes) (pageSize : Nat) :
    (∃ outcome, scanStatm text pageSize = .ok outcome ∧
        ∀ result, outcome = some result ↔ StatmLaw text pageSize result) ↔
      ((∃ result, StatmLaw text pageSize result) → endsInSpace text = true) := by
  rw [scanStatm_eq]
  constructor
  · rintro ⟨outcome, houtcome, hlaw⟩ ⟨result, hresult⟩
    cases houtcome
    exact (parseStatm_eq_some_iff.1 ((hlaw result).2 hresult)).2
  · intro hspace
    refine ⟨_, rfl, fun result => ?_⟩
    rw [parseStatm_eq_some_iff]
    exact ⟨And.left, fun hresult => ⟨hresult, hspace ⟨result, hresult⟩⟩⟩

/-- Seven small numbers with nothing behind the last one. -/
theorem statm_without_newline : ¬ ∃ outcome, scanStatm (bytes "100 50 10 4 0 25 0") 4096 = .ok outcome ∧
    ∀ result, outcome = some result ↔ StatmLaw (bytes "100 50 10 4 0 25 0") 4096 result := by
  rintro ⟨outcome, hscan, hlaw⟩
  have hrefused : parseStatm (bytes "100 50 10 4 0 25 0") 4096 = none := by decide +kernel
  rw [scanStatm_eq, hrefused] at hscan
  cases hscan
  have htokens : tokens isSpace (bytes "100 50 10 4 0 25 0") =
      [bytes "100", bytes "50", bytes "10", bytes "4", bytes "0", bytes "25", bytes "0"] := by decide +kernel
  have hdecimal : List.Forall₂ Decimal (tokens isSpace (bytes "100 50 10 4 0 25 0")) [100, 50, 10, 4, 0, 25, 0] := by
    rw [htokens]
    simp only [List.forall₂_cons, List.forall₂_nil_left_iff, ← parseUnsigned_eq_some_iff]
    decide +kernel
  have haccepted := (hlaw ⟨409600, 204800, 40960, 16384, 102400⟩).2
    ⟨100, 50, 10, 4, 0, 25, 0, hdecimal, rfl, by decide, by decide, by decide, by decide, by decide⟩
  cases haccepted

end NativeMcp.ProcessParsing
