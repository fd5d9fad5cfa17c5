import Mathlib.Data.List.TakeWhile
import NativeMcp.Tools.ProcessMemory

/-!
# Which observations give a UTF-8 result

The name and the state that `proc.memory` returns are the values of the `Name` and `State` lines of `status`, each of
which occurs once in an accepted text; they are copied as they are, so a result is UTF-8 exactly when these lines are
(`isUtf8_processContent_iff`).
-/

namespace NativeMcp

open Json ProcessParsing ProcessMemory

/-! ### Values of lines -/

namespace ProcessParsing

/-- A fold that fails on a second value collects at most one. -/
theorem toList_of_foldlM {σ α β : Type} {f : σ → α → Option σ} {g : σ → Option β} {v : α → Option β}
    (h : ∀ s a s', f s a = some s' → (g s').toList = (g s).toList ++ (v a).toList) {l : List α} {s s' : σ}
    (hl : l.foldlM f s = some s') : (g s').toList = (g s).toList ++ l.filterMap v := by
  induction l generalizing s with
  | nil => cases hl; simp
  | cons a l ih =>
    rw [List.foldlM_cons, Option.bind_eq_bind, Option.bind_eq_some_iff] at hl
    obtain ⟨t, ht, hl⟩ := hl
    rw [ih hl, h s a t ht, List.append_assoc, List.filterMap_cons]
    cases v a <;> rfl

/-- The line starts with this key. -/
def HasKey (key : String) (line : Bytes) : Prop := bytes key ++ [kColon] <+: line

instance (key : String) (line : Bytes) : Decidable (HasKey key line) :=
  inferInstanceAs (Decidable (_ <+: _))

theorem valueAfterColon_isSome {line : Bytes} {key : String} :
    (valueAfterColon line key).isSome ↔ HasKey key line := by
  unfold valueAfterColon HasKey
  rw [← List.isPrefixOf_iff_prefix]
  split <;> simp_all

theorem trimEnd_append (p : UInt8 → Bool) (value : Bytes) :
    ∃ suffix, (∀ b ∈ suffix, p b = true) ∧ value = trimEnd p value ++ suffix := by
  refine ⟨(value.reverse.takeWhile p).reverse, fun b hb => ?_, ?_⟩
  · exact List.mem_takeWhile_imp (List.mem_reverse.1 hb)
  · rw [trimEnd, ← List.reverse_append, List.takeWhile_append_dropWhile, List.reverse_reverse]

/-- A line and its value are UTF-8 together. -/
theorem valid_of_valueAfterColon {line value : Bytes} {key : String} (h : valueAfterColon line key = some value) :
    Utf8.valid line = Utf8.valid value := by
  unfold valueAfterColon at h
  split at h
  · rename_i hp
    obtain ⟨rest, rfl⟩ := List.isPrefixOf_iff_prefix.1 hp
    have hd : ((bytes key ++ [kColon]) ++ rest).drop ((bytes key).length + 1) = rest := by
      rw [show (bytes key).length + 1 = (bytes key ++ [kColon]).length by simp, List.drop_left]
    rw [hd] at h
    have hv := (Option.some.inj h).symm
    obtain ⟨suffix, hs, he⟩ := trimEnd_append (fun b => isBlank b || b == kCarriageReturn) (rest.dropWhile isBlank)
    rw [← hv] at he
    have hblank : ∀ b ∈ rest.takeWhile isBlank, b.toNat < 0x80 := by
      intro b hb
      have hb := List.mem_takeWhile_imp hb
      simp only [isBlank, Bool.or_eq_true, beq_iff_eq] at hb
      rcases hb with rfl | rfl <;> decide
    have hsuffix : ∀ b ∈ suffix, b.toNat < 0x80 := by
      intro b hb
      have hb := hs b hb
      simp only [isBlank, Bool.or_eq_true, beq_iff_eq] at hb
      rcases hb with (rfl | rfl) | rfl <;> decide
    have hr : rest = rest.takeWhile isBlank ++ (value ++ suffix) := by
      rw [← he, List.takeWhile_append_dropWhile]
    rw [List.append_assoc, Utf8.valid_append (valid_bytes key), hr, List.singleton_append,
      Utf8.valid_ascii_cons (by decide), Utf8.valid_ascii_append hblank, Utf8.valid_append_ascii hsuffix]
  · cases h

/-- No line has both keys. -/
private theorem not_hasKey {line : Bytes} {key key' : String} (hne : (bytes key)[0]? ≠ (bytes key')[0]?)
    (hl : 0 < (bytes key).length) (hl' : 0 < (bytes key').length) (h : HasKey key line) : ¬ HasKey key' line := by
  rintro ⟨r', rfl⟩
  obtain ⟨r, hr⟩ := h
  refine hne ?_
  have h0 := congrArg (·[0]?) hr
  simpa [List.getElem?_append_left, hl, hl'] using h0

/-! ### The lines of `status` -/

/-- What an accepted line does: it gives a value that was not given before, or nothing. -/
inductive StatusStep (r : StatusParse) (line : Bytes) : StatusParse → Prop
  | name {value : Bytes} (line_eq : valueAfterColon line "Name" = some value) (fresh : r.name = none)
      (ne : value ≠ []) : StatusStep r line { r with name := some value }
  | state {value : Bytes} (line_eq : valueAfterColon line "State" = some value) (fresh : r.state = none)
      (valid : validState value = true) : StatusStep r line { r with state := some value }
  | threads {value : Bytes} {parsed : Nat} (line_eq : valueAfterColon line "Threads" = some value)
      (fresh : r.threads = none) (parse : parseUnsigned value = some parsed) :
      StatusStep r line { r with threads := some parsed }
  | uid {value : Bytes} {uid : Nat} (line_eq : valueAfterColon line "Uid" = some value)
      (fresh : r.effectiveUid = none) (parse : parseUid value = some uid) :
      StatusStep r line { r with effectiveUid := some uid }
  | metric {key : String} {value : Bytes} {parsed : Nat}
      (keys : ∀ k ∈ ["Name", "State", "Threads", "Uid"], valueAfterColon line k = none)
      (line_eq : findMetric kMemoryKeys line = some (key, value)) (fresh : key ∉ r.seenMemory)
      (parse : parseKibibytes value = some parsed) :
      StatusStep r line { r with
        memory := assignStatusMetric key (some parsed) r.memory, seenMemory := key :: r.seenMemory }
  | other (keys : ∀ k ∈ ["Name", "State", "Threads", "Uid"], valueAfterColon line k = none)
      (line_eq : findMetric kMemoryKeys line = none) : StatusStep r line r

theorem statusLine_cases {r r' : StatusParse} {line : Bytes} (h : statusLine r line = some r') :
    StatusStep r line r' := by
  unfold statusLine at h
  split at h
  · rename_i value hv
    split at h
    · cases h
    · rename_i hn
      cases h
      exact .name hv (by simpa using fun e => hn (.inl e)) fun e => hn (.inr e)
  rename_i hname
  split at h
  · rename_i value hv
    split at h
    · cases h
    · rename_i hn
      cases h
      exact .state hv (by simpa using fun e => hn (.inl e)) (by simpa using fun e => hn (.inr e))
  rename_i hstate
  split at h
  · rename_i value hv
    split at h
    · cases h
    · rename_i hn
      obtain ⟨parsed, hp, rfl⟩ := Option.map_eq_some_iff.1 h
      exact .threads hv (by simpa using hn) hp
  rename_i hthreads
  split at h
  · rename_i value hv
    split at h
    · cases h
    · rename_i hn
      obtain ⟨uid, hp, rfl⟩ := Option.map_eq_some_iff.1 h
      exact .uid hv (by simpa using hn) hp
  rename_i huid
  have keys : ∀ k ∈ ["Name", "State", "Threads", "Uid"], valueAfterColon line k = none := by
    simp [hname, hstate, hthreads, huid]
  split at h
  · rename_i key value hv
    split at h
    · cases h
    · rename_i hn
      obtain ⟨parsed, hp, rfl⟩ := Option.map_eq_some_iff.1 h
      exact .metric keys hv hn hp
  · rename_i hv
    cases h
    exact .other keys hv

/-- The four keys start with different letters. -/
example : valueAfterColon (bytes "Name:\tsh ") "Name" = some (bytes "sh") := by decide +kernel

private theorem value_unique {line value : Bytes} {key : String} (key' : String) (h : valueAfterColon line key = some value)
    (hne : (bytes key)[0]? ≠ (bytes key')[0]?) (hl : 0 < (bytes key).length) (hl' : 0 < (bytes key').length) :
    valueAfterColon line key' = none := by
  have hk : HasKey key line := valueAfterColon_isSome.1 (by rw [h]; rfl)
  simpa using mt valueAfterColon_isSome.1 (not_hasKey hne hl hl' hk)

private theorem name_statusLine {r r' : StatusParse} {line : Bytes} (h : statusLine r line = some r') :
    r'.name.toList = r.name.toList ++ (valueAfterColon line "Name").toList := by
  cases statusLine_cases h with
  | name hv fresh _ => simp [hv, fresh]
  | state hv | threads hv | uid hv =>
    simp [value_unique "Name" hv (by decide +kernel) (by decide +kernel) (by decide +kernel)]
  | metric keys | other keys => simp [keys "Name" (by simp)]

private theorem state_statusLine {r r' : StatusParse} {line : Bytes} (h : statusLine r line = some r') :
    r'.state.toList = r.state.toList ++ (valueAfterColon line "State").toList := by
  cases statusLine_cases h with
  | state hv fresh _ => simp [hv, fresh]
  | name hv | threads hv | uid hv =>
    simp [value_unique "State" hv (by decide +kernel) (by decide +kernel) (by decide +kernel)]
  | metric keys | other keys => simp [keys "State" (by simp)]

/-- An accepted text has one `Name` and one `State` line, and they give the name and the state. -/
theorem name_state_of_parseStatus {text : Bytes} {result : StatusParseResult} (h : parseStatus text = some result) :
    (splitLines text).filterMap (valueAfterColon · "Name") = [result.name] ∧
      (splitLines text).filterMap (valueAfterColon · "State") = [result.state] := by
  unfold parseStatus at h
  obtain ⟨r, hr, h⟩ := Option.bind_eq_some_iff.1 h
  have hn := toList_of_foldlM (f := statusLine) (g := StatusParse.name) (fun _ _ _ => name_statusLine) hr
  have hs := toList_of_foldlM (f := statusLine) (g := StatusParse.state) (fun _ _ _ => state_statusLine) hr
  split at h
  · rename_i name state uid threads hname hstate _ _
    cases h
    rw [hname] at hn
    rw [hstate] at hs
    exact ⟨by simpa using hn.symm, by simpa using hs.symm⟩
  · cases h

/-- Every `Name` and every `State` line of the text is UTF-8. -/
def TextLinesUtf8 (text : Bytes) : Prop :=
  ∀ line ∈ splitLines text, HasKey "Name" line ∨ HasKey "State" line → Utf8.valid line = true

private theorem valid_iff_of_filterMap {lines : List Bytes} {key : String} {value : Bytes}
    (h : lines.filterMap (valueAfterColon · key) = [value]) :
    Utf8.valid value = true ↔ ∀ line ∈ lines, HasKey key line → Utf8.valid line = true := by
  constructor
  · intro hv line hl hk
    obtain ⟨v, he⟩ := Option.isSome_iff_exists.1 (valueAfterColon_isSome.2 hk)
    have hm : v ∈ lines.filterMap (valueAfterColon · key) := List.mem_filterMap.2 ⟨line, hl, he⟩
    rw [h, List.mem_singleton] at hm
    rw [valid_of_valueAfterColon he, hm, hv]
  · intro ha
    have hm : value ∈ lines.filterMap (valueAfterColon · key) := by rw [h]; simp
    obtain ⟨line, hl, he⟩ := List.mem_filterMap.1 hm
    rw [← valid_of_valueAfterColon he]
    exact ha line hl (valueAfterColon_isSome.1 (by rw [he]; rfl))

theorem textLinesUtf8_iff {text : Bytes} {result : StatusParseResult} (h : parseStatus text = some result) :
    TextLinesUtf8 text ↔ Utf8.valid result.name = true ∧ Utf8.valid result.state = true := by
  obtain ⟨hn, hs⟩ := name_state_of_parseStatus h
  rw [valid_iff_of_filterMap hn, valid_iff_of_filterMap hs]
  exact ⟨fun h => ⟨fun l hl hk => h l hl (.inl hk), fun l hl hk => h l hl (.inr hk)⟩,
    fun h l hl hk => hk.elim (h.1 l hl) (h.2 l hl)⟩

end ProcessParsing

/-! ### The result of an observation -/

namespace ProcessMemory

private theorem bind_eq_ok {α β : Type} {x : Outcome α} {f : α → Outcome β} {r : β} (h : x >>= f = .ok r) :
    ∃ a, x = .ok a ∧ f a = .ok r := by
  cases x with
  | ok a => exact ⟨a, rfl, h⟩
  | error e => cases h

private theorem orError_eq_ok {α : Type} {value : Option α} {code : ProcessMemoryErrorCode} {message : String} {a : α}
    (h : orError value code message = .ok a) : value = some a := by
  cases value with
  | some v => cases h; rfl
  | none => cases h

/-- A result carries the target's name and what its status text says. -/
private theorem inspectTarget_eq_ok {target : ProcessHandle} {o : Observation} {result : ProcessMemoryResult}
    (h : inspectTarget target o = .ok result) : result.process = target.name ∧
      ∃ text status, o.status = .ok text ∧ parseStatus text = some status ∧ result.name = status.name ∧
        result.state = status.state := by
  unfold inspectTarget at h
  obtain ⟨-, -, h⟩ := bind_eq_ok h
  obtain ⟨before, -, h⟩ := bind_eq_ok h
  obtain ⟨-, -, h⟩ := bind_eq_ok h
  obtain ⟨text, htext, h⟩ := bind_eq_ok h
  obtain ⟨status, hstatus, h⟩ := bind_eq_ok h
  obtain ⟨-, -, h⟩ := bind_eq_ok h
  obtain ⟨-, -, h⟩ := bind_eq_ok h
  obtain ⟨statmText, -, h⟩ := bind_eq_ok h
  obtain ⟨statm, -, h⟩ := bind_eq_ok h
  obtain ⟨⟨rollup, rollupError⟩, -, h⟩ := bind_eq_ok h
  obtain ⟨after, -, h⟩ := bind_eq_ok h
  obtain ⟨-, -, h⟩ := bind_eq_ok h
  obtain ⟨-, -, h⟩ := bind_eq_ok h
  cases h
  exact ⟨rfl, text, status, htext, orError_eq_ok hstatus, rfl, rfl⟩

private theorem valid_of_validProcessName {name : Bytes} {maximum : Nat} (h : validProcessName name maximum = true) :
    Utf8.valid name = true := by
  simp only [validProcessName, Bool.and_eq_true, List.all_eq_true] at h
  have hb : ∀ b ∈ name, b.toNat < 0x80 := by
    intro b hb
    have := h.2 b hb
    simp only [isNameByte, isDigit, Bool.or_eq_true, Bool.and_eq_true, decide_eq_true_eq, beq_iff_eq,
      UInt8.le_iff_toNat_le] at this
    rcases this with (((⟨-, h⟩ | ⟨-, h⟩) | ⟨-, h⟩) | rfl) | rfl
    · exact lt_of_le_of_lt h (by decide)
    · exact lt_of_le_of_lt h (by decide)
    · exact lt_of_le_of_lt h (by decide)
    · decide
    · decide
  simpa using Utf8.valid_ascii_append hb []

theorem inspectMemory_eq_ok {policy : ProcessPolicy} {name : Bytes} {o : Observation} {result : ProcessMemoryResult}
    (h : policy.inspectMemory name o = .ok result) : Utf8.valid result.process = true ∧
      ∃ text status, o.status = .ok text ∧ parseStatus text = some status ∧ result.name = status.name ∧
        result.state = status.state := by
  unfold ProcessPolicy.inspectMemory at h
  split at h
  · cases h
  split at h
  · cases h
  · rename_i target ht
    obtain ⟨hp, hs⟩ := inspectTarget_eq_ok h
    exact ⟨hp ▸ valid_of_validProcessName (policy.valid target (List.mem_of_find?_eq_some ht)), hs⟩

end ProcessMemory

@[simp] theorem isUtf8_optionalNumber (n : Option Nat) : (optionalNumber n).isUtf8 = true := by
  cases n <;> rfl

private theorem isUtf8_statusMemoryJson (memory : ProcessStatusMemory) : (statusMemoryJson memory).isUtf8 = true :=
  isUtf8_ofPairs (by simp)

private theorem isUtf8_rollupJson (rollup : ProcessSmapsRollup) : (rollupJson rollup).isUtf8 = true :=
  isUtf8_ofPairs (by simp)

private theorem isUtf8_statmJson (statm : ProcessStatmMemory) : (statmJson statm).isUtf8 = true :=
  isUtf8_ofPairs (by simp)

/-- The three strings decide whether the content is UTF-8. -/
theorem isUtf8_processContent (result : ProcessMemoryResult) : (processContent result).isUtf8 = true ↔
    Utf8.valid result.process = true ∧ Utf8.valid result.name = true ∧ Utf8.valid result.state = true := by
  constructor
  · intro h
    have member (key : String) (s : Bytes) (hf : (processContent result).find? key = some (.string s)) :
        Utf8.valid s = true := isUtf8_of_find? h hf
    exact ⟨member "process" _ (by simp [processContent]),
      member "name" _ (by simp [processContent, List.lookup_cons]), member "state" _ (by simp [processContent, List.lookup_cons])⟩
  · rintro ⟨hp, hn, hs⟩
    have string {s : Bytes} (h : Utf8.valid s = true) : (Json.string s).isUtf8 = true := h
    refine isUtf8_ofPairs ?_
    simp only [List.mem_cons, List.not_mem_nil, or_false, forall_eq_or_imp, forall_eq, isUtf8_numberUnsigned,
      isUtf8_boolean, string hp, string hn, string hs, isUtf8_statusMemoryJson, isUtf8_statmJson, true_and]
    constructor
    · cases result.smapsRollupError <;> simp
    · cases result.smapsRollup <;> simp [isUtf8_rollupJson]

/-- The result of a successful observation is UTF-8 exactly when the name and state lines of its status are. -/
theorem isUtf8_processContent_iff {policy : ProcessPolicy} {name text : Bytes} {o : Observation}
    {result : ProcessMemoryResult} (h : policy.inspectMemory name o = .ok result) (ht : o.status = .ok text) :
    (processContent result).isUtf8 = true ↔ TextLinesUtf8 text := by
  obtain ⟨hp, text', status, ht', hs, hn, hst⟩ := inspectMemory_eq_ok h
  obtain rfl : text' = text := by cases ht'.symm.trans ht; rfl
  rw [isUtf8_processContent, textLinesUtf8_iff hs, hn, hst]
  simp [hp]

end NativeMcp
