import NativeMcp.Lib.Slots
import NativeMcp.Lib.Tokens
import NativeMcp.Tools.ProcessParsing

/-!
# The fields of `status` and `smaps_rollup`

Each line of these texts gives a value to at most one key, which is followed by a colon.  The parsers accept a text
exactly if every key has the values that it must have and they are well formed, whatever the order of the lines
(`parse_status_and_rollup_correct`).
-/

namespace NativeMcp.ProcessParsing

open Tokens (tokens tokens_of_all_separators tokens_of_last tokens_of_next)

/-! ### Lines -/

theorem splitLines_eq_splitOn (text : Bytes) : splitLines text = text.splitOn kNewline := by
  induction text with
  | nil => rfl
  | cons b text ih =>
    rw [splitLines, List.splitOn_cons_eq_if_modifyHead, ih]
    by_cases hb : b = kNewline
    · rw [if_pos hb, if_pos (by simpa using hb)]
    · rw [if_neg hb, if_neg (by simpa using hb)]
      cases hlines : text.splitOn kNewline with
      | nil => exact absurd hlines (List.splitOn_ne_nil kNewline text)
      | cons line lines => rfl

/-- What the lines of a text say behind this key and a colon. -/
def valuesOf (text : Bytes) (key : String) : List Bytes :=
  (text.splitOn kNewline).filterMap (valueAfterColon · key)

private theorem trimEnd_eq_iff {p : UInt8 → Bool} {text value : Bytes} :
    trimEnd p text = value ↔ ∃ after, text = value ++ after ∧ after.all p = true ∧ ∀ b, value.getLast? = some b → p b = false := by
  unfold trimEnd
  constructor
  · rintro rfl
    refine ⟨(text.reverse.takeWhile p).reverse, ?_, ?_, ?_⟩
    · rw [← List.reverse_append, List.takeWhile_append_dropWhile, List.reverse_reverse]
    · rw [List.all_reverse]
      exact List.all_takeWhile
    · intro b hb
      rw [List.getLast?_reverse] at hb
      have h := List.head?_dropWhile_not p text.reverse
      rw [hb] at h
      simpa using h
  · rintro ⟨after, rfl, hafter, hlast⟩
    rw [List.reverse_append, List.dropWhile_append_of_pos (by simpa using hafter)]
    cases hv : value.reverse with
    | nil =>
      rw [List.reverse_eq_nil_iff] at hv
      rw [hv]
      rfl
    | cons b rest =>
      have hb : value.getLast? = some b := by
        rw [← List.head?_reverse, hv]
        rfl
      rw [List.dropWhile_cons_of_neg (by simp [hlast b hb]), ← hv, List.reverse_reverse]

/-- The key, a colon, and the value between blanks; a carriage return may end the line. -/
theorem valueAfterColon_eq_some_iff {line value : Bytes} {key : String} :
    valueAfterColon line key = some value ↔
      ∃ before after, line = bytes key ++ kColon :: (before ++ (value ++ after)) ∧ before.all isBlank = true ∧
        (after.all fun b => isBlank b || b == kCarriageReturn) = true ∧
        (∀ b, (value ++ after).head? = some b → isBlank b = false) ∧
        ∀ b, value.getLast? = some b → (isBlank b || b == kCarriageReturn) = false := by
  unfold valueAfterColon
  constructor
  · intro h
    split at h
    · rename_i hlead
      obtain ⟨rest, hline⟩ := List.isPrefixOf_iff_prefix.1 hlead
      have hdrop : line.drop ((bytes key).length + 1) = rest := by
        rw [← hline]
        exact List.drop_left' (by simp)
      rw [hdrop, Option.some_inj] at h
      obtain ⟨after, hafter, hall, hlast⟩ := trimEnd_eq_iff.1 h
      refine ⟨rest.takeWhile isBlank, after, ?_, List.all_takeWhile, hall, ?_, hlast⟩
      · rw [← hafter, List.takeWhile_append_dropWhile, ← hline, List.append_assoc]
        rfl
      · intro b hb
        have hhead := List.head?_dropWhile_not isBlank rest
        rw [hafter, hb] at hhead
        simpa using hhead
    · cases h
  · rintro ⟨before, after, rfl, hbefore, hafter, hhead, hlast⟩
    have hlead : (bytes key ++ [kColon]).isPrefixOf (bytes key ++ kColon :: (before ++ (value ++ after))) = true := by
      refine List.isPrefixOf_iff_prefix.2 ⟨before ++ (value ++ after), ?_⟩
      rw [List.append_assoc]
      rfl
    have hdrop : (bytes key ++ kColon :: (before ++ (value ++ after))).drop ((bytes key).length + 1) =
        before ++ (value ++ after) := by
      have hcons : bytes key ++ kColon :: (before ++ (value ++ after)) =
          (bytes key ++ [kColon]) ++ (before ++ (value ++ after)) := by simp
      rw [hcons]
      exact List.drop_left' (by simp)
    have hblanks : (before ++ (value ++ after)).dropWhile isBlank = value ++ after := by
      rw [List.dropWhile_append_of_pos (List.all_eq_true.1 hbefore)]
      cases hrest : value ++ after with
      | nil => rfl
      | cons b rest => exact List.dropWhile_cons_of_neg (by simp [hhead b (by rw [hrest]; rfl)])
    rw [if_pos hlead, hdrop, hblanks, Option.some_inj]
    exact trimEnd_eq_iff.2 ⟨after, rfl, hafter, hlast⟩

/-- The key of a line is what stands before its first colon. -/
theorem takeWhile_of_valueAfterColon {line value : Bytes} {key : String} (hkey : kColon ∉ bytes key)
    (h : valueAfterColon line key = some value) : line.takeWhile (· != kColon) = bytes key := by
  obtain ⟨before, after, rfl, -⟩ := valueAfterColon_eq_some_iff.1 h
  have hplain : ∀ b ∈ bytes key, (b != kColon) = true := by
    intro b hb
    rw [bne_iff_ne]
    rintro rfl
    exact hkey hb
  rw [List.takeWhile_append_of_pos hplain, List.takeWhile_cons_of_neg (by simp), List.append_nil]

section

variable {κ : Type} {keys : List κ} {name : κ → String}

/-- The first of the keys that the line gives a value to. -/
def keyOf (keys : List κ) (name : κ → String) (line : Bytes) : Option (κ × Bytes) :=
  keys.findSome? fun key => (valueAfterColon line (name key)).map (key, ·)

/-- A line is attributed to the key that it begins with. -/
theorem keyOf_eq_some_iff (hcolon : ∀ key ∈ keys, kColon ∉ bytes (name key))
    (hinj : ∀ key ∈ keys, ∀ key' ∈ keys, name key = name key' → key = key') {line value : Bytes} {key : κ} :
    keyOf keys name line = some (key, value) ↔ key ∈ keys ∧ valueAfterColon line (name key) = some value := by
  have hsound : ∀ key value, keyOf keys name line = some (key, value) →
      key ∈ keys ∧ valueAfterColon line (name key) = some value := by
    intro key value h
    obtain ⟨key', hmem, hkey'⟩ := List.exists_of_findSome?_eq_some h
    obtain ⟨value', hvalue, heq⟩ := Option.map_eq_some_iff.1 hkey'
    cases heq
    exact ⟨hmem, hvalue⟩
  constructor
  · exact hsound key value
  · rintro ⟨hmem, hvalue⟩
    cases hfound : keyOf keys name line with
    | none =>
      have hnone := List.findSome?_eq_none_iff.1 hfound key hmem
      rw [hvalue] at hnone
      cases hnone
    | some q =>
      obtain ⟨hmem', hvalue'⟩ := hsound q.1 q.2 hfound
      have hname : name q.1 = name key := by
        have h := takeWhile_of_valueAfterColon (hcolon _ hmem') hvalue'
        rw [takeWhile_of_valueAfterColon (hcolon _ hmem) hvalue] at h
        exact (Utf8.bytes_inj.1 h).symm
      obtain ⟨key', value'⟩ := q
      obtain rfl : key' = key := hinj _ hmem' _ hmem hname
      rw [hvalue] at hvalue'
      rw [Option.some.inj hvalue']

variable [DecidableEq κ]

theorem values_keyOf (hcolon : ∀ key ∈ keys, kColon ∉ bytes (name key))
    (hinj : ∀ key ∈ keys, ∀ key' ∈ keys, name key = name key' → key = key') {key : κ} (hkey : key ∈ keys) (text : Bytes) :
    Slots.values (keyOf keys name) key (splitLines text) = valuesOf text (name key) := by
  rw [splitLines_eq_splitOn]
  unfold Slots.values valuesOf
  refine List.filterMap_congr fun line _ => ?_
  cases hv : valueAfterColon line (name key) with
  | some value =>
    rw [(keyOf_eq_some_iff hcolon hinj).2 ⟨hkey, hv⟩, Option.bind_some, if_pos rfl]
  | none =>
    cases hfound : keyOf keys name line with
    | none => rfl
    | some q =>
      have hvalue := ((keyOf_eq_some_iff hcolon hinj).1 hfound).2
      have hne : q.1 ≠ key := by
        rintro rfl
        rw [hv] at hvalue
        cases hvalue
      rw [Option.bind_some, if_neg hne]

theorem values_keyOf_of_not_mem {key : κ} (hkey : key ∉ keys) (lines : List Bytes) :
    Slots.values (keyOf keys name) key lines = [] := by
  unfold Slots.values
  rw [List.filterMap_eq_nil_iff]
  intro line _
  cases hfound : keyOf keys name line with
  | none => rfl
  | some q =>
    obtain ⟨key', hmem, hkey'⟩ := List.exists_of_findSome?_eq_some hfound
    obtain ⟨value, -, heq⟩ := Option.map_eq_some_iff.1 hkey'
    have hne : q.1 ≠ key := by
      rintro rfl
      cases heq
      exact hkey hmem
    rw [Option.bind_some, if_neg hne]

end

/-! ### Values -/

/-- A decimal number of 64 bits. -/
def Decimal (text : Bytes) (n : Nat) : Prop :=
  text ≠ [] ∧ text.all isDigit = true ∧ digitsValue text = n ∧ n ≤ kMaxUint64

theorem parseUnsigned_eq_some_iff {text : Bytes} {n : Nat} : parseUnsigned text = some n ↔ Decimal text n := by
  unfold parseUnsigned Decimal
  constructor
  · intro h
    split at h
    · rename_i htext
      cases h
      exact ⟨htext.1, htext.2.1, rfl, htext.2.2⟩
    · cases h
  · rintro ⟨hne, hdigits, rfl, hmax⟩
    exact if_pos ⟨hne, hdigits, hmax⟩

theorem checkedMultiply_eq_some_iff {left right n : Nat} :
    checkedMultiply left right = some n ↔ n = left * right ∧ n ≤ kMaxUint64 := by
  unfold checkedMultiply
  by_cases hzero : left = 0
  · subst hzero
    rw [if_neg (by simp), Option.some_inj, Nat.zero_mul]
    constructor
    · rintro rfl
      exact ⟨rfl, Nat.zero_le _⟩
    · rintro ⟨rfl, -⟩
      rfl
  · have hdiv : kMaxUint64 / left < right ↔ kMaxUint64 < left * right := by
      rw [Nat.div_lt_iff_lt_mul (Nat.pos_of_ne_zero hzero), Nat.mul_comm]
    by_cases hover : kMaxUint64 / left < right
    · rw [if_pos ⟨hzero, hover⟩]
      refine iff_of_false (by simp) ?_
      rintro ⟨rfl, hmax⟩
      have := hdiv.1 hover
      omega
    · rw [if_neg (by simp [hover]), Option.some_inj]
      constructor
      · rintro rfl
        exact ⟨rfl, Nat.le_of_not_lt (mt hdiv.2 hover)⟩
      · rintro ⟨rfl, -⟩
        rfl

/-- A counter of kibibytes, whose unit may be missing, in bytes. -/
def Kibibytes (value : Bytes) (n : Nat) : Prop :=
  ∃ number unit k, value = number ++ unit ∧ Decimal number k ∧
    (unit = [] ∨ ∃ blanks, blanks ≠ [] ∧ blanks.all isBlank = true ∧ unit = blanks ++ bytes "kB") ∧
    n = k * 1024 ∧ n ≤ kMaxUint64

private theorem not_blank_of_isDigit {b : UInt8} (h : isDigit b = true) : (!isBlank b) = true := by
  unfold isDigit at h
  rw [Bool.and_eq_true, decide_eq_true_eq, decide_eq_true_eq] at h
  unfold isBlank
  rw [Bool.not_eq_true', Bool.or_eq_false_iff, beq_eq_false_iff_ne, beq_eq_false_iff_ne]
  constructor
  · rintro rfl
    exact absurd h.1 (by decide)
  · rintro rfl
    exact absurd h.1 (by decide)

/-- A number is what stands before the first blank. -/
private theorem split_number {number unit : Bytes} (hdigits : number.all isDigit = true)
    (hunit : ∀ b, unit.head? = some b → isBlank b = true) :
    (number ++ unit).takeWhile (!isBlank ·) = number ∧ (number ++ unit).dropWhile (!isBlank ·) = unit := by
  have hnumber : ∀ b ∈ number, (!isBlank b) = true := fun b hb =>
    not_blank_of_isDigit (List.all_eq_true.1 hdigits b hb)
  rw [List.takeWhile_append_of_pos hnumber, List.dropWhile_append_of_pos hnumber]
  cases unit with
  | nil => simp
  | cons b unit =>
    have hb : isBlank b = true := hunit b rfl
    rw [List.takeWhile_cons_of_neg (by simp [hb]), List.dropWhile_cons_of_neg (by simp [hb]), List.append_nil]
    exact ⟨rfl, rfl⟩

theorem parseKibibytes_eq_some_iff {value : Bytes} {n : Nat} : parseKibibytes value = some n ↔ Kibibytes value n := by
  unfold parseKibibytes
  constructor
  · intro h
    dsimp only at h
    split at h
    · cases h
    · rename_i k hk
      have hmultiply : checkedMultiply k 1024 = some n := by
        split at h
        · cases h
        · exact h
      obtain ⟨hn, hmax⟩ := checkedMultiply_eq_some_iff.1 hmultiply
      refine ⟨_, _, k, List.takeWhile_append_dropWhile.symm, parseUnsigned_eq_some_iff.1 hk, ?_, hn, hmax⟩
      by_cases hunit : value.dropWhile (!isBlank ·) = []
      · exact .inl hunit
      · have hkB : (value.dropWhile (!isBlank ·)).dropWhile isBlank = bytes "kB" := by
          by_contra hkB
          rw [if_pos ⟨hunit, hkB⟩] at h
          cases h
        refine .inr ⟨(value.dropWhile (!isBlank ·)).takeWhile isBlank, ?_, List.all_takeWhile, ?_⟩
        · cases hd : value.dropWhile (!isBlank ·) with
          | nil => exact absurd hd hunit
          | cons b rest =>
            have hb := List.head?_dropWhile_not (!isBlank ·) value
            rw [hd] at hb
            rw [List.takeWhile_cons_of_pos (by simpa using hb)]
            exact List.cons_ne_nil _ _
        · rw [← hkB, List.takeWhile_append_dropWhile]
  · rintro ⟨number, unit, k, rfl, hnumber, hunit, hn, hmax⟩
    have hhead : ∀ b, unit.head? = some b → isBlank b = true := by
      intro b hb
      rcases hunit with rfl | ⟨blanks, hne, hblanks, rfl⟩
      · cases hb
      · cases blanks with
        | nil => exact absurd rfl hne
        | cons c blanks =>
          rw [List.cons_append, List.head?_cons, Option.some_inj] at hb
          rw [← hb]
          exact List.all_eq_true.1 hblanks c List.mem_cons_self
    obtain ⟨htake, hdrop⟩ := split_number hnumber.2.1 hhead
    have hkB : ¬ (unit ≠ [] ∧ unit.dropWhile isBlank ≠ bytes "kB") := by
      rintro ⟨hne, hdrop⟩
      rcases hunit with rfl | ⟨blanks, -, hblanks, rfl⟩
      · exact hne rfl
      · apply hdrop
        rw [List.dropWhile_append_of_pos (List.all_eq_true.1 hblanks)]
        decide +kernel
    dsimp only
    rw [htake, hdrop, parseUnsigned_eq_some_iff.2 hnumber]
    dsimp only
    rw [if_neg hkB]
    exact checkedMultiply_eq_some_iff.2 ⟨hn, hmax⟩

/-- The second number of a `Uid` line. -/
def EffectiveUid (value : Bytes) (uid : Nat) : Prop :=
  ∃ first second rest, tokens isBlank value = first :: second :: rest ∧ Decimal second uid ∧ uid ≤ 2 ^ 32 - 1

theorem uidFields_eq (count : Nat) (value : Bytes) : uidFields count value = (tokens isBlank value).take count := by
  induction count generalizing value with
  | zero => rfl
  | succ count ih =>
    unfold uidFields
    cases hd : value.dropWhile isBlank with
    | nil =>
      rw [tokens_of_all_separators hd]
      rfl
    | cons b rest =>
      dsimp only
      cases hnext : (b :: rest).dropWhile (!isBlank ·) with
      | nil =>
        obtain ⟨htake, htokens⟩ := tokens_of_last hd hnext
        rw [htake, htokens, List.take_of_length_le (by simp)]
      | cons c after =>
        obtain ⟨-, htokens⟩ := tokens_of_next hd hnext
        rw [htokens, List.take_succ_cons, ← ih after]

theorem parseUid_eq_some_iff {value : Bytes} {uid : Nat} : parseUid value = some uid ↔ EffectiveUid value uid := by
  unfold parseUid EffectiveUid
  rw [uidFields_eq]
  cases htokens : tokens isBlank value with
  | nil => simp
  | cons first rest =>
    cases rest with
    | nil => simp
    | cons second rest =>
      have htake : (first :: second :: rest).take 4 = first :: second :: rest.take 2 := rfl
      rw [htake]
      show (parseUnsigned second).filter (· ≤ 2 ^ 32 - 1) = some uid ↔ _
      rw [Option.filter_eq_some_iff, parseUnsigned_eq_some_iff, decide_eq_true_eq]
      constructor
      · rintro ⟨hdecimal, hmax⟩
        exact ⟨first, second, rest, rfl, hdecimal, hmax⟩
      · rintro ⟨first', second', rest', heq, hdecimal, hmax⟩
        cases heq
        exact ⟨hdecimal, hmax⟩

/-! ### `status` -/

/-- The counter of a key. -/
def statusMetric (key : String) (memory : ProcessStatusMemory) : Option Nat :=
  if key = "VmPeak" then memory.vmPeakBytes
  else if key = "VmSize" then memory.vmSizeBytes
  else if key = "VmHWM" then memory.vmHwmBytes
  else if key = "VmRSS" then memory.vmRssBytes
  else if key = "RssAnon" then memory.rssAnonBytes
  else if key = "RssFile" then memory.rssFileBytes
  else if key = "RssShmem" then memory.rssShmemBytes
  else if key = "VmData" then memory.vmDataBytes
  else if key = "VmStk" then memory.vmStackBytes
  else if key = "VmExe" then memory.vmExecutableBytes
  else if key = "VmLib" then memory.vmLibraryBytes
  else if key = "VmPTE" then memory.vmPageTableBytes
  else if key = "VmSwap" then memory.vmSwapBytes
  else if key = "HugetlbPages" then memory.hugetlbBytes
  else none

/-- Each counter has its own key. -/
theorem statusMetric_assign {key : String} (hkey : key ∈ kMemoryKeys) (value : Option Nat) (memory : ProcessStatusMemory)
    (key' : String) :
    statusMetric key' (assignStatusMetric key value memory) = if key' = key then value else statusMetric key' memory := by
  by_cases h : key' = key
  · subst h
    rw [if_pos rfl]
    simp only [kMemoryKeys, List.mem_cons, List.not_mem_nil, or_false] at hkey
    rcases hkey with rfl | rfl | rfl | rfl | rfl | rfl | rfl | rfl | rfl | rfl | rfl | rfl | rfl | rfl <;> rfl
  · rw [if_neg h]
    simp only [kMemoryKeys, List.mem_cons, List.not_mem_nil, or_false] at hkey
    rcases hkey with rfl | rfl | rfl | rfl | rfl | rfl | rfl | rfl | rfl | rfl | rfl | rfl | rfl | rfl <;>
      simp [statusMetric, assignStatusMetric, h]

/-- The counters determine the record. -/
theorem statusMetric_ext {memory memory' : ProcessStatusMemory}
    (h : ∀ key ∈ kMemoryKeys, statusMetric key memory = statusMetric key memory') : memory = memory' := by
  simp only [kMemoryKeys, List.forall_mem_cons, List.not_mem_nil, false_implies, implies_true, and_true] at h
  cases memory
  cases memory'
  simpa [statusMetric] using h

inductive StatusKey where
  | name
  | state
  | threads
  | uid
  | memory (key : String)
  deriving DecidableEq, Repr

namespace StatusKey

def text : StatusKey → String
  | .name => "Name"
  | .state => "State"
  | .threads => "Threads"
  | .uid => "Uid"
  | .memory key => key

/-- The keys in the order in which a line is compared with them. -/
def all : List StatusKey := [.name, .state, .threads, .uid] ++ kMemoryKeys.map .memory

/-- What the value of a key is. -/
def Value : StatusKey → Type
  | .name | .state => Bytes
  | _ => Nat

def parse : (key : StatusKey) → Bytes → Option key.Value
  | .name, value => if value = [] then none else some value
  | .state, value => if validState value = true then some value else none
  | .threads, value => parseUnsigned value
  | .uid, value => parseUid value
  | .memory _, value => parseKibibytes value

private theorem colon_free : ∀ key ∈ all, kColon ∉ bytes key.text := by
  have h : all.all (fun key => !(bytes key.text).contains kColon) = true := by decide +kernel
  intro key hkey hmem
  have hkey := List.all_eq_true.1 h key hkey
  rw [List.contains_iff_mem.2 hmem] at hkey
  cases hkey

private theorem text_injective : ∀ key ∈ all, ∀ key' ∈ all, key.text = key'.text → key = key' := by
  have h : all.all (fun key => all.all fun key' => key.text != key'.text || key == key') = true := by decide +kernel
  intro key hkey key' hkey' htext
  have h := List.all_eq_true.1 (List.all_eq_true.1 h key hkey) key' hkey'
  simpa [htext] using h

end StatusKey

/-- The slots that a run over the lines of `status` has filled. -/
def StatusParse.slots (result : StatusParse) : Slots.State StatusKey.Value
  | .name => result.name
  | .state => result.state
  | .threads => result.threads
  | .uid => result.effectiveUid
  | .memory key => statusMetric key result.memory

/-- The keys that are marked as seen are those with a counter. -/
def StatusParse.Consistent (result : StatusParse) : Prop :=
  ∀ key ∈ kMemoryKeys, key ∈ result.seenMemory ↔ (statusMetric key result.memory).isSome = true

private theorem slots_name (result : StatusParse) (value : Bytes) :
    { result with name := some value : StatusParse }.slots = Function.update result.slots .name (some value) := by
  funext key
  cases key <;> rfl

private theorem slots_state (result : StatusParse) (value : Bytes) :
    { result with state := some value : StatusParse }.slots = Function.update result.slots .state (some value) := by
  funext key
  cases key <;> rfl

private theorem slots_threads (result : StatusParse) (value : Nat) :
    { result with threads := some value : StatusParse }.slots = Function.update result.slots .threads (some value) := by
  funext key
  cases key <;> rfl

private theorem slots_uid (result : StatusParse) (value : Nat) :
    { result with effectiveUid := some value : StatusParse }.slots = Function.update result.slots .uid (some value) := by
  funext key
  cases key <;> rfl

private theorem slots_memory (result : StatusParse) {key : String} (hkey : key ∈ kMemoryKeys) (value : Nat) :
    StatusParse.slots { result with
      memory := assignStatusMetric key (some value) result.memory
      seenMemory := key :: result.seenMemory } =
      Function.update result.slots (.memory key) (some value) := by
  funext key'
  cases key' with
  | memory key' =>
    have hmetric := statusMetric_assign hkey (some value) result.memory key'
    by_cases h : key' = key
    · subst h
      rw [Function.update_self]
      rwa [if_pos rfl] at hmetric
    · rw [if_neg h] at hmetric
      rw [Function.update_of_ne (by simpa using h)]
      exact hmetric
  | _ => rfl

theorem keyOf_all (line : Bytes) :
    keyOf StatusKey.all StatusKey.text line =
      ((valueAfterColon line "Name").map fun value => (StatusKey.name, value)).or
        (((valueAfterColon line "State").map fun value => (StatusKey.state, value)).or
          (((valueAfterColon line "Threads").map fun value => (StatusKey.threads, value)).or
            (((valueAfterColon line "Uid").map fun value => (StatusKey.uid, value)).or
              ((findMetric kMemoryKeys line).map fun q => (StatusKey.memory q.1, q.2))))) := by
  have hmetrics : (kMemoryKeys.map StatusKey.memory).findSome? (fun key =>
      (valueAfterColon line key.text).map (key, ·)) =
        (findMetric kMemoryKeys line).map fun q => (StatusKey.memory q.1, q.2) := by
    rw [List.findSome?_map, findMetric, List.map_findSome?]
    congr 1
    funext key
    cases hv : valueAfterColon line key <;> simp [StatusKey.text, hv]
  unfold keyOf StatusKey.all
  rw [List.cons_append, List.cons_append, List.cons_append, List.cons_append, List.nil_append, List.findSome?_cons,
    List.findSome?_cons, List.findSome?_cons, List.findSome?_cons, hmetrics]
  simp only [StatusKey.text]
  cases valueAfterColon line "Name" <;> cases valueAfterColon line "State" <;>
    cases valueAfterColon line "Threads" <;> cases valueAfterColon line "Uid" <;> rfl

/-- What a line with this key does. -/
def StatusParse.fill (result : StatusParse) : StatusKey → Bytes → Option StatusParse
  | .name, value => if result.name.isSome ∨ value = [] then none else some { result with name := some value }
  | .state, value =>
    if result.state.isSome ∨ !validState value then none else some { result with state := some value }
  | .threads, value =>
    if result.threads.isSome then none
    else (parseUnsigned value).map fun parsed => { result with threads := some parsed }
  | .uid, value =>
    if result.effectiveUid.isSome then none
    else (parseUid value).map fun uid => { result with effectiveUid := some uid }
  | .memory key, value =>
    if key ∈ result.seenMemory then none
    else (parseKibibytes value).map fun parsed =>
      { result with
        memory := assignStatusMetric key (some parsed) result.memory
        seenMemory := key :: result.seenMemory }

theorem statusLine_of_key {result : StatusParse} {line value : Bytes} {key : StatusKey}
    (h : keyOf StatusKey.all StatusKey.text line = some (key, value)) :
    statusLine result line = result.fill key value := by
  rw [keyOf_all] at h
  unfold statusLine
  cases hname : valueAfterColon line "Name" with
  | some value =>
    rw [hname] at h
    cases h
    rfl
  | none =>
    cases hstate : valueAfterColon line "State" with
    | some value =>
      rw [hname, hstate] at h
      cases h
      rfl
    | none =>
      cases hthreads : valueAfterColon line "Threads" with
      | some value =>
        rw [hname, hstate, hthreads] at h
        cases h
        rfl
      | none =>
        cases huid : valueAfterColon line "Uid" with
        | some value =>
          rw [hname, hstate, hthreads, huid] at h
          cases h
          rfl
        | none =>
          rw [hname, hstate, hthreads, huid] at h
          cases hmetric : findMetric kMemoryKeys line with
          | none =>
            rw [hmetric] at h
            cases h
          | some q =>
            rw [hmetric] at h
            cases h
            rfl

theorem statusLine_of_no_key {result : StatusParse} {line : Bytes}
    (h : keyOf StatusKey.all StatusKey.text line = none) : statusLine result line = some result := by
  rw [keyOf_all] at h
  simp only [Option.or_eq_none_iff, Option.map_eq_none_iff] at h
  obtain ⟨hname, hstate, hthreads, huid, hmetric⟩ := h
  unfold statusLine
  rw [hname, hstate, hthreads, huid, hmetric]

theorem slots_fill {result : StatusParse} (hI : result.Consistent) {key : StatusKey} (hkey : key ∈ StatusKey.all)
    (value : Bytes) :
    (result.fill key value).map StatusParse.slots =
      if (result.slots key).isSome then none
      else (key.parse value).map fun a => Function.update result.slots key (some a) := by
  cases key with
  | name =>
    show Option.map _ (if result.name.isSome ∨ value = [] then _ else _) = if result.name.isSome then _ else _
    by_cases hseen : result.name.isSome = true
    · rw [if_pos (.inl hseen), if_pos hseen]
      rfl
    · by_cases hempty : value = []
      · rw [if_pos (.inr hempty), if_neg hseen, StatusKey.parse, if_pos hempty]
        rfl
      · rw [if_neg (by simp [hseen, hempty]), if_neg hseen, StatusKey.parse, if_neg hempty]
        exact congrArg some (slots_name result value)
  | state =>
    show Option.map _ (if result.state.isSome ∨ !validState value then _ else _) = if result.state.isSome then _ else _
    by_cases hseen : result.state.isSome = true
    · rw [if_pos (.inl hseen), if_pos hseen]
      rfl
    · by_cases hvalid : validState value = true
      · rw [if_neg (by simp [hseen, hvalid]), if_neg hseen, StatusKey.parse, if_pos hvalid]
        exact congrArg some (slots_state result value)
      · rw [if_pos (.inr (by simpa using hvalid)), if_neg hseen, StatusKey.parse, if_neg hvalid]
        rfl
  | threads =>
    show Option.map _ (if result.threads.isSome then _ else _) = if result.threads.isSome then _ else _
    by_cases hseen : result.threads.isSome = true
    · rw [if_pos hseen, if_pos hseen]
      rfl
    · rw [if_neg hseen, if_neg hseen, Option.map_map]
      exact congrArg (Option.map · (parseUnsigned value)) (funext fun n => slots_threads result n)
  | uid =>
    show Option.map _ (if result.effectiveUid.isSome then _ else _) = if result.effectiveUid.isSome then _ else _
    by_cases hseen : result.effectiveUid.isSome = true
    · rw [if_pos hseen, if_pos hseen]
      rfl
    · rw [if_neg hseen, if_neg hseen, Option.map_map]
      exact congrArg (Option.map · (parseUid value)) (funext fun n => slots_uid result n)
  | memory key =>
    have hmem : key ∈ kMemoryKeys := by simpa [StatusKey.all] using hkey
    have hseen_iff := hI key hmem
    show Option.map _ (if key ∈ result.seenMemory then _ else _) =
      if (statusMetric key result.memory).isSome then _ else _
    by_cases hseen : key ∈ result.seenMemory
    · rw [if_pos hseen, if_pos (hseen_iff.1 hseen)]
      rfl
    · rw [if_neg hseen, if_neg (mt hseen_iff.2 hseen), Option.map_map]
      exact congrArg (Option.map · (parseKibibytes value)) (funext fun n => slots_memory result hmem n)

private theorem Consistent.of_fill {result result' : StatusParse} {key : StatusKey} {value : Bytes}
    (hI : result.Consistent) (hkey : key ∈ StatusKey.all) (h : result.fill key value = some result') :
    result'.Consistent := by
  cases key with
  | name | state =>
    dsimp only [StatusParse.fill] at h
    split at h
    · cases h
    · cases h
      exact hI
  | threads | uid =>
    dsimp only [StatusParse.fill] at h
    split at h
    · cases h
    · obtain ⟨n, -, rfl⟩ := Option.map_eq_some_iff.1 h
      exact hI
  | memory key =>
    have hmem : key ∈ kMemoryKeys := by simpa [StatusKey.all] using hkey
    dsimp only [StatusParse.fill] at h
    split at h
    · cases h
    · obtain ⟨n, -, rfl⟩ := Option.map_eq_some_iff.1 h
      intro key' hkey'
      rw [statusMetric_assign hmem, List.mem_cons, hI key' hkey']
      by_cases heq : key' = key <;> simp [heq]

private theorem mem_all_of_keyOf {line value : Bytes} {key : StatusKey}
    (h : keyOf StatusKey.all StatusKey.text line = some (key, value)) : key ∈ StatusKey.all :=
  ((keyOf_eq_some_iff StatusKey.colon_free StatusKey.text_injective).1 h).1

/-- One line of `status` fills the slot of its key. -/
theorem slots_statusLine (result : StatusParse) (line : Bytes) (hI : result.Consistent) :
    (statusLine result line).map StatusParse.slots =
      Slots.step (keyOf StatusKey.all StatusKey.text) StatusKey.parse result.slots line := by
  unfold Slots.step
  cases h : keyOf StatusKey.all StatusKey.text line with
  | none =>
    rw [statusLine_of_no_key h]
    rfl
  | some q =>
    obtain ⟨key, value⟩ := q
    rw [statusLine_of_key h]
    exact slots_fill hI (mem_all_of_keyOf h) value

private theorem Consistent.of_statusLine (result : StatusParse) (line : Bytes) (result' : StatusParse)
    (hI : result.Consistent) (h : statusLine result line = some result') : result'.Consistent := by
  cases hkey : keyOf StatusKey.all StatusKey.text line with
  | none =>
    rw [statusLine_of_no_key hkey] at h
    cases h
    exact hI
  | some q =>
    obtain ⟨key, value⟩ := q
    rw [statusLine_of_key hkey] at h
    exact Consistent.of_fill hI (mem_all_of_keyOf hkey) h

/-- What the lines of a text make of a counter. -/
def MetricLaw (text : Bytes) (key : String) (metric : Option Nat) : Prop :=
  (valuesOf text key = [] ∧ metric = none) ∨
    ∃ value n, valuesOf text key = [value] ∧ Kibibytes value n ∧ metric = some n

private theorem MetricLaw.isSome_iff {text : Bytes} {key : String} {metric : Option Nat} (h : MetricLaw text key metric) :
    metric.isSome = true ↔ valuesOf text key ≠ [] := by
  rcases h with ⟨hnil, rfl⟩ | ⟨value, n, hvalue, -, rfl⟩
  · simp [hnil]
  · simp [hvalue]

/-- What the lines of a `status` text make of it. -/
structure StatusLaw (text : Bytes) (result : StatusParseResult) : Prop where
  name : valuesOf text "Name" = [result.name] ∧ result.name ≠ []
  state : valuesOf text "State" = [result.state] ∧ validState result.state = true
  uid : ∃ value, valuesOf text "Uid" = [value] ∧ EffectiveUid value result.effectiveUid
  threads : ∃ value, valuesOf text "Threads" = [value] ∧ Decimal value result.threads
  memory : ∀ key ∈ kMemoryKeys, MetricLaw text key (statusMetric key result.memory)

private theorem consistent_start : ({} : StatusParse).Consistent := by
  intro key _
  have hnone : statusMetric key {} = none := by simp [statusMetric]
  rw [hnone]
  simp

private theorem slots_start : ({} : StatusParse).slots = fun _ => none := by
  funext key
  cases key with
  | memory key =>
    show statusMetric key {} = none
    simp [statusMetric]
  | _ => rfl

/-- The slots after all lines, and the record that has them. -/
private theorem status_run_iff {text : Bytes} {result : StatusParse} :
    ((splitLines text).foldlM statusLine {}).map StatusParse.slots = some result.slots ↔
      (∀ key ∈ StatusKey.all, Slots.Settled (StatusKey.parse key) (valuesOf text key.text) none (result.slots key)) ∧
        ∀ key ∉ StatusKey.all, result.slots key = none := by
  rw [Slots.foldlM_map slots_statusLine Consistent.of_statusLine consistent_start, slots_start, Slots.run_eq_some_iff]
  constructor
  · intro h
    constructor
    · intro key hkey
      rw [← values_keyOf StatusKey.colon_free StatusKey.text_injective hkey]
      exact h key
    · intro key hkey
      rcases h key with ⟨-, hnone⟩ | ⟨raw, a, hraw, -⟩
      · exact hnone
      · rw [values_keyOf_of_not_mem hkey] at hraw
        cases hraw
  · rintro ⟨hknown, hother⟩ key
    by_cases hkey : key ∈ StatusKey.all
    · rw [values_keyOf StatusKey.colon_free StatusKey.text_injective hkey]
      exact hknown key hkey
    · exact .inl ⟨values_keyOf_of_not_mem hkey _, hother key hkey⟩

private theorem settled_some_iff {α : Type} {parse : Bytes → Option α} {raws : List Bytes} {a : α} :
    Slots.Settled (k := ()) (α := fun _ => α) parse raws none (some a) ↔ ∃ raw, raws = [raw] ∧ parse raw = some a := by
  constructor
  · rintro (⟨-, hsome⟩ | ⟨raw, a', hraw, -, hparse, hsome⟩)
    · cases hsome
    · cases hsome
      exact ⟨raw, hraw, hparse⟩
  · rintro ⟨raw, hraw, hparse⟩
    exact .inr ⟨raw, a, hraw, rfl, hparse, rfl⟩

private theorem settled_metric_iff {text : Bytes} {key : String} {metric : Option Nat} :
    Slots.Settled (k := ()) (α := fun _ => Nat) parseKibibytes (valuesOf text key) none metric ↔
      MetricLaw text key metric := by
  unfold MetricLaw
  constructor
  · rintro (⟨hnil, rfl⟩ | ⟨raw, n, hraw, -, hparse, rfl⟩)
    · exact .inl ⟨hnil, rfl⟩
    · exact .inr ⟨raw, n, hraw, parseKibibytes_eq_some_iff.1 hparse, rfl⟩
  · rintro (⟨hnil, rfl⟩ | ⟨raw, n, hraw, hvalue, rfl⟩)
    · exact .inl ⟨hnil, rfl⟩
    · exact .inr ⟨raw, n, hraw, rfl, parseKibibytes_eq_some_iff.2 hvalue, rfl⟩

/-- The slots are settled exactly if the law holds. -/
private theorem settled_iff_law {text : Bytes} {result : StatusParseResult} {parsed : StatusParse}
    (hname : parsed.name = some result.name) (hstate : parsed.state = some result.state)
    (huid : parsed.effectiveUid = some result.effectiveUid) (hthreads : parsed.threads = some result.threads)
    (hmemory : parsed.memory = result.memory) :
    (∀ key ∈ StatusKey.all, Slots.Settled (StatusKey.parse key) (valuesOf text key.text) none (parsed.slots key)) ↔
      StatusLaw text result := by
  have hname_iff : Slots.Settled (StatusKey.parse .name) (valuesOf text "Name") none (parsed.slots .name) ↔
      valuesOf text "Name" = [result.name] ∧ result.name ≠ [] := by
    have hslot : parsed.slots .name = some result.name := hname
    rw [hslot]
    refine settled_some_iff.trans ⟨?_, ?_⟩
    · rintro ⟨raw, hraw, hparse⟩
      rw [StatusKey.parse] at hparse
      split at hparse
      · cases hparse
      · rename_i hne
        cases hparse
        exact ⟨hraw, hne⟩
    · rintro ⟨hraw, hne⟩
      exact ⟨_, hraw, if_neg hne⟩
  have hstate_iff : Slots.Settled (StatusKey.parse .state) (valuesOf text "State") none (parsed.slots .state) ↔
      valuesOf text "State" = [result.state] ∧ validState result.state = true := by
    have hslot : parsed.slots .state = some result.state := hstate
    rw [hslot]
    refine settled_some_iff.trans ⟨?_, ?_⟩
    · rintro ⟨raw, hraw, hparse⟩
      rw [StatusKey.parse] at hparse
      split at hparse
      · rename_i hvalid
        cases hparse
        exact ⟨hraw, hvalid⟩
      · cases hparse
    · rintro ⟨hraw, hvalid⟩
      exact ⟨_, hraw, if_pos hvalid⟩
  have hthreads_iff : Slots.Settled (StatusKey.parse .threads) (valuesOf text "Threads") none (parsed.slots .threads) ↔
      ∃ value, valuesOf text "Threads" = [value] ∧ Decimal value result.threads := by
    have hslot : parsed.slots .threads = some result.threads := hthreads
    rw [hslot]
    exact settled_some_iff.trans (exists_congr fun raw => and_congr_right fun _ => parseUnsigned_eq_some_iff)
  have huid_iff : Slots.Settled (StatusKey.parse .uid) (valuesOf text "Uid") none (parsed.slots .uid) ↔
      ∃ value, valuesOf text "Uid" = [value] ∧ EffectiveUid value result.effectiveUid := by
    have hslot : parsed.slots .uid = some result.effectiveUid := huid
    rw [hslot]
    exact settled_some_iff.trans (exists_congr fun raw => and_congr_right fun _ => parseUid_eq_some_iff)
  have hmemory_iff : ∀ key, Slots.Settled (StatusKey.parse (.memory key)) (valuesOf text key) none
      (parsed.slots (.memory key)) ↔ MetricLaw text key (statusMetric key result.memory) := by
    intro key
    have hslot : parsed.slots (.memory key) = statusMetric key result.memory := by
      rw [← hmemory]
      rfl
    rw [hslot]
    exact settled_metric_iff
  constructor
  · intro h
    refine ⟨hname_iff.1 (h .name (by simp [StatusKey.all])), hstate_iff.1 (h .state (by simp [StatusKey.all])),
      huid_iff.1 (h .uid (by simp [StatusKey.all])), hthreads_iff.1 (h .threads (by simp [StatusKey.all])), ?_⟩
    intro key hkey
    exact (hmemory_iff key).1 (h (.memory key) (by simp [StatusKey.all, hkey]))
  · intro h key hkey
    cases key with
    | name => exact hname_iff.2 h.name
    | state => exact hstate_iff.2 h.state
    | threads => exact hthreads_iff.2 h.threads
    | uid => exact huid_iff.2 h.uid
    | memory key => exact (hmemory_iff key).2 (h.memory key (by simpa [StatusKey.all] using hkey))

private theorem slots_eq_none {parsed : StatusParse} {key : StatusKey} (h : key ∉ StatusKey.all) :
    parsed.slots key = none := by
  cases key with
  | memory key =>
    have hkey : key ∉ kMemoryKeys := by simpa [StatusKey.all] using h
    simp only [kMemoryKeys, List.mem_cons, List.not_mem_nil, or_false, not_or] at hkey
    show statusMetric key parsed.memory = none
    simp [statusMetric, hkey]
  | name | state | threads | uid => exact absurd h (by simp [StatusKey.all])

theorem parseStatus_eq_some_iff {text : Bytes} {result : StatusParseResult} :
    parseStatus text = some result ↔ StatusLaw text result := by
  unfold parseStatus
  rw [Option.bind_eq_some_iff]
  constructor
  · rintro ⟨parsed, hrun, hresult⟩
    split at hresult
    · rename_i name state uid threads hname hstate huid hthreads
      cases hresult
      have hslots := status_run_iff.1 (congrArg (Option.map StatusParse.slots) hrun)
      exact (settled_iff_law hname hstate huid hthreads rfl).1 hslots.1
    · cases hresult
  · intro h
    let filled : StatusParse :=
      ⟨some result.name, some result.state, some result.effectiveUid, some result.threads, result.memory, []⟩
    have hsettled := (@settled_iff_law text result filled rfl rfl rfl rfl rfl).2 h
    have hrun := status_run_iff.2 ⟨hsettled, fun key => slots_eq_none⟩
    obtain ⟨parsed, hparsed, hslots⟩ := Option.map_eq_some_iff.1 hrun
    have hname : parsed.name = some result.name := congrFun hslots .name
    have hstate : parsed.state = some result.state := congrFun hslots .state
    have huid : parsed.effectiveUid = some result.effectiveUid := congrFun hslots .uid
    have hthreads : parsed.threads = some result.threads := congrFun hslots .threads
    have hmemory : parsed.memory = result.memory := statusMetric_ext fun key _ => congrFun hslots (.memory key)
    refine ⟨parsed, hparsed, ?_⟩
    rw [hname, hstate, huid, hthreads, hmemory]

/-! ### `smaps_rollup` -/

/-- The counter of a key. -/
def rollupMetric (key : String) (rollup : ProcessSmapsRollup) : Option Nat :=
  if key = "Rss" then rollup.rssBytes
  else if key = "Pss" then rollup.pssBytes
  else if key = "Pss_Anon" then rollup.pssAnonBytes
  else if key = "Pss_File" then rollup.pssFileBytes
  else if key = "Pss_Shmem" then rollup.pssShmemBytes
  else if key = "Shared_Clean" then rollup.sharedCleanBytes
  else if key = "Shared_Dirty" then rollup.sharedDirtyBytes
  else if key = "Private_Clean" then rollup.privateCleanBytes
  else if key = "Private_Dirty" then rollup.privateDirtyBytes
  else if key = "Referenced" then rollup.referencedBytes
  else if key = "Anonymous" then rollup.anonymousBytes
  else if key = "Swap" then rollup.swapBytes
  else if key = "SwapPss" then rollup.swapPssBytes
  else if key = "Locked" then rollup.lockedBytes
  else none

theorem rollupMetric_assign {key : String} (hkey : key ∈ kRollupKeys) (value : Option Nat) (rollup : ProcessSmapsRollup)
    (key' : String) :
    rollupMetric key' (assignRollupMetric key value rollup) = if key' = key then value else rollupMetric key' rollup := by
  by_cases h : key' = key
  · subst h
    rw [if_pos rfl]
    simp only [kRollupKeys, List.mem_cons, List.not_mem_nil, or_false] at hkey
    rcases hkey with rfl | rfl | rfl | rfl | rfl | rfl | rfl | rfl | rfl | rfl | rfl | rfl | rfl | rfl <;> rfl
  · rw [if_neg h]
    simp only [kRollupKeys, List.mem_cons, List.not_mem_nil, or_false] at hkey
    rcases hkey with rfl | rfl | rfl | rfl | rfl | rfl | rfl | rfl | rfl | rfl | rfl | rfl | rfl | rfl <;>
      simp [rollupMetric, assignRollupMetric, h]

theorem rollupMetric_ext {rollup rollup' : ProcessSmapsRollup}
    (h : ∀ key ∈ kRollupKeys, rollupMetric key rollup = rollupMetric key rollup') : rollup = rollup' := by
  simp only [kRollupKeys, List.forall_mem_cons, List.not_mem_nil, false_implies, implies_true, and_true] at h
  cases rollup
  cases rollup'
  simpa [rollupMetric] using h

private theorem mem_of_findMetric {keys : List String} {line value : Bytes} {key : String}
    (h : findMetric keys line = some (key, value)) : key ∈ keys := by
  obtain ⟨key', hmem, hkey'⟩ := List.exists_of_findSome?_eq_some h
  obtain ⟨value', -, heq⟩ := Option.map_eq_some_iff.1 hkey'
  cases heq
  exact hmem

private theorem rollupMetric_eq_none {key : String} (h : key ∉ kRollupKeys) (rollup : ProcessSmapsRollup) :
    rollupMetric key rollup = none := by
  simp only [kRollupKeys, List.mem_cons, List.not_mem_nil, or_false, not_or] at h
  simp [rollupMetric, h]

private theorem rollup_colon_free : ∀ key ∈ kRollupKeys, kColon ∉ bytes key := by
  have h : kRollupKeys.all (fun key => !(bytes key).contains kColon) = true := by decide +kernel
  intro key hkey hmem
  have hkey := List.all_eq_true.1 h key hkey
  rw [List.contains_iff_mem.2 hmem] at hkey
  cases hkey

/-- The slots that a run over the lines of `smaps_rollup` has filled. -/
def RollupParse.slots (result : RollupParse) : Slots.State (fun _ : String => Nat) := fun key =>
  rollupMetric key result.rollup

/-- The keys that are marked as seen are those with a counter. -/
def RollupParse.Consistent (result : RollupParse) : Prop :=
  ∀ key, key ∈ result.seen ↔ (rollupMetric key result.rollup).isSome = true

private theorem slots_rollup (result : RollupParse) {key : String} (hkey : key ∈ kRollupKeys) (value : Nat) :
    RollupParse.slots { rollup := assignRollupMetric key (some value) result.rollup, seen := key :: result.seen } =
      Function.update result.slots key (some value) := by
  funext key'
  have hmetric := rollupMetric_assign hkey (some value) result.rollup key'
  by_cases h : key' = key
  · subst h
    rw [Function.update_self]
    rwa [if_pos rfl] at hmetric
  · rw [if_neg h] at hmetric
    rw [Function.update_of_ne h]
    exact hmetric

private theorem slots_rollupLine (result : RollupParse) (line : Bytes) (hI : result.Consistent) :
    (rollupLine result line).map RollupParse.slots =
      Slots.step (keyOf kRollupKeys id) (fun _ => parseKibibytes) result.slots line := by
  unfold Slots.step rollupLine
  have hfind : keyOf kRollupKeys id line = findMetric kRollupKeys line := rfl
  rw [hfind]
  cases h : findMetric kRollupKeys line with
  | none => rfl
  | some q =>
    obtain ⟨key, value⟩ := q
    have hmem := mem_of_findMetric h
    have hseen_iff := hI key
    show Option.map _ (if key ∈ result.seen then _ else _) = if (rollupMetric key result.rollup).isSome then _ else _
    by_cases hseen : key ∈ result.seen
    · rw [if_pos hseen, if_pos (hseen_iff.1 hseen)]
      rfl
    · rw [if_neg hseen, if_neg (mt hseen_iff.2 hseen), Option.map_map]
      exact congrArg (Option.map · (parseKibibytes value)) (funext fun n => slots_rollup result hmem n)

private theorem RollupParse.Consistent.of_rollupLine (result : RollupParse) (line : Bytes) (result' : RollupParse)
    (hI : result.Consistent) (h : rollupLine result line = some result') : result'.Consistent := by
  unfold rollupLine at h
  split at h
  · rename_i key value hmetric
    split at h
    · cases h
    · obtain ⟨n, -, rfl⟩ := Option.map_eq_some_iff.1 h
      have hmem := mem_of_findMetric hmetric
      intro key'
      rw [rollupMetric_assign hmem, List.mem_cons, hI key']
      by_cases heq : key' = key <;> simp [heq]
  · cases h
    exact hI

private theorem RollupParse.consistent_start : ({} : RollupParse).Consistent := by
  intro key
  have hnone : rollupMetric key {} = none := by simp [rollupMetric]
  rw [hnone]
  simp

/-- What the lines of a `smaps_rollup` text make of it. -/
structure RollupLaw (text : Bytes) (result : ProcessSmapsRollup) : Prop where
  metrics : ∀ key ∈ kRollupKeys, MetricLaw text key (rollupMetric key result)
  recognised : ∃ key ∈ kRollupKeys, valuesOf text key ≠ []

private theorem rollup_run_iff {text : Bytes} {result : RollupParse} :
    ((splitLines text).foldlM rollupLine {}).map RollupParse.slots = some result.slots ↔
      ∀ key ∈ kRollupKeys, MetricLaw text key (rollupMetric key result.rollup) := by
  have hslots : ({} : RollupParse).slots = fun _ => none := by
    funext key
    show rollupMetric key {} = none
    simp [rollupMetric]
  have hvalues : ∀ key ∈ kRollupKeys, Slots.values (keyOf kRollupKeys id) key (splitLines text) = valuesOf text key :=
    fun key hkey => values_keyOf rollup_colon_free (fun _ _ _ _ h => h) hkey text
  rw [Slots.foldlM_map slots_rollupLine RollupParse.Consistent.of_rollupLine RollupParse.consistent_start, hslots, Slots.run_eq_some_iff]
  constructor
  · intro h key hkey
    have hkey' := h key
    rw [hvalues key hkey] at hkey'
    exact settled_metric_iff.1 hkey'
  · intro h key
    by_cases hkey : key ∈ kRollupKeys
    · rw [hvalues key hkey]
      exact settled_metric_iff.2 (h key hkey)
    · exact .inl ⟨values_keyOf_of_not_mem hkey _, rollupMetric_eq_none hkey _⟩

theorem parseSmapsRollup_eq_some_iff {text : Bytes} {result : ProcessSmapsRollup} :
    parseSmapsRollup text = some result ↔ RollupLaw text result := by
  unfold parseSmapsRollup
  rw [Option.bind_eq_some_iff]
  -- a key is seen exactly if some line names it
  have hrecognised : ∀ parsed : RollupParse, (splitLines text).foldlM rollupLine {} = some parsed →
      (∀ key ∈ kRollupKeys, MetricLaw text key (rollupMetric key parsed.rollup)) →
      (parsed.seen ≠ [] ↔ ∃ key ∈ kRollupKeys, valuesOf text key ≠ []) := by
    intro parsed hrun hlaw
    have hconsistent : parsed.Consistent :=
      Slots.foldlM_invariant RollupParse.Consistent.of_rollupLine RollupParse.consistent_start hrun
    constructor
    · intro hseen
      obtain ⟨key, hkey⟩ := List.exists_mem_of_ne_nil _ hseen
      have hsome := (hconsistent key).1 hkey
      have hknown : key ∈ kRollupKeys := by
        by_contra hunknown
        rw [rollupMetric_eq_none hunknown] at hsome
        cases hsome
      exact ⟨key, hknown, (hlaw key hknown).isSome_iff.1 hsome⟩
    · rintro ⟨key, hknown, hvalues⟩ hnil
      have hkey := (hconsistent key).2 ((hlaw key hknown).isSome_iff.2 hvalues)
      rw [hnil] at hkey
      cases hkey
  constructor
  · rintro ⟨parsed, hrun, hresult⟩
    have hlaw := rollup_run_iff.1 (congrArg (Option.map RollupParse.slots) hrun)
    split at hresult
    · cases hresult
    · rename_i hseen
      cases hresult
      exact ⟨hlaw, (hrecognised parsed hrun hlaw).1 hseen⟩
  · intro h
    have hrun := (@rollup_run_iff text ⟨result, []⟩).2 h.metrics
    obtain ⟨parsed, hparsed, hslots⟩ := Option.map_eq_some_iff.1 hrun
    obtain rfl : parsed.rollup = result := rollupMetric_ext fun key _ => congrFun hslots key
    refine ⟨parsed, hparsed, ?_⟩
    rw [if_neg ((hrecognised parsed hparsed h.metrics).2 h.recognised)]

/-! ### Texts with the same lines -/

section

variable {text text' : Bytes}

private theorem valuesOf_eq_of_perm (h : (text.splitOn kNewline).Perm (text'.splitOn kNewline)) (key : String) :
    (valuesOf text key = [] → valuesOf text' key = []) ∧ ∀ value, valuesOf text key = [value] → valuesOf text' key = [value] := by
  have hperm : (valuesOf text' key).Perm (valuesOf text key) := (h.filterMap _).symm
  constructor
  · intro hnil
    rw [hnil] at hperm
    exact hperm.eq_nil
  · intro value hvalue
    rw [hvalue] at hperm
    exact List.perm_singleton.1 hperm

private theorem MetricLaw.of_perm (h : (text.splitOn kNewline).Perm (text'.splitOn kNewline)) {key : String}
    {metric : Option Nat} (hlaw : MetricLaw text key metric) : MetricLaw text' key metric := by
  rcases hlaw with ⟨hnil, hmetric⟩ | ⟨value, n, hvalue, hrest⟩
  · exact .inl ⟨(valuesOf_eq_of_perm h key).1 hnil, hmetric⟩
  · exact .inr ⟨value, n, (valuesOf_eq_of_perm h key).2 value hvalue, hrest⟩

private theorem StatusLaw.of_perm (h : (text.splitOn kNewline).Perm (text'.splitOn kNewline)) {result : StatusParseResult}
    (hlaw : StatusLaw text result) : StatusLaw text' result := by
  have hone := fun key => (valuesOf_eq_of_perm h key).2
  obtain ⟨uid, huid, huidLaw⟩ := hlaw.uid
  obtain ⟨threads, hthreads, hthreadsLaw⟩ := hlaw.threads
  exact ⟨⟨hone _ _ hlaw.name.1, hlaw.name.2⟩, ⟨hone _ _ hlaw.state.1, hlaw.state.2⟩, ⟨uid, hone _ _ huid, huidLaw⟩,
    ⟨threads, hone _ _ hthreads, hthreadsLaw⟩, fun key hkey => (hlaw.memory key hkey).of_perm h⟩

private theorem RollupLaw.of_perm (h : (text.splitOn kNewline).Perm (text'.splitOn kNewline)) {result : ProcessSmapsRollup}
    (hlaw : RollupLaw text result) : RollupLaw text' result := by
  obtain ⟨key, hkey, hvalues⟩ := hlaw.recognised
  exact ⟨fun key hkey => (hlaw.metrics key hkey).of_perm h, key, hkey,
    fun hnil => hvalues ((valuesOf_eq_of_perm h.symm key).1 hnil)⟩

theorem parseStatus_eq_of_perm (h : (text.splitOn kNewline).Perm (text'.splitOn kNewline)) :
    parseStatus text = parseStatus text' := by
  refine Option.ext fun result => ?_
  rw [parseStatus_eq_some_iff, parseStatus_eq_some_iff]
  exact ⟨StatusLaw.of_perm h, StatusLaw.of_perm h.symm⟩

theorem parseSmapsRollup_eq_of_perm (h : (text.splitOn kNewline).Perm (text'.splitOn kNewline)) :
    parseSmapsRollup text = parseSmapsRollup text' := by
  refine Option.ext fun result => ?_
  rw [parseSmapsRollup_eq_some_iff, parseSmapsRollup_eq_some_iff]
  exact ⟨RollupLaw.of_perm h, RollupLaw.of_perm h.symm⟩

end

/-- Two keys without a colon that a line gives a value to are one key. -/
private theorem key_unique {line value value' : Bytes} {key key' : String} (hkey : kColon ∉ bytes key)
    (hkey' : kColon ∉ bytes key') (h : valueAfterColon line key = some value)
    (h' : valueAfterColon line key' = some value') : key = key' := by
  have htake := takeWhile_of_valueAfterColon hkey h
  rw [takeWhile_of_valueAfterColon hkey' h'] at htake
  exact (Utf8.bytes_inj.1 htake).symm

theorem parse_status_and_rollup_correct :
    (∀ text result, parseStatus text = some result ↔ StatusLaw text result) ∧
    (∀ text result, parseSmapsRollup text = some result ↔ RollupLaw text result) ∧
    (∀ text text', (text.splitOn kNewline).Perm (text'.splitOn kNewline) →
      parseStatus text = parseStatus text' ∧ parseSmapsRollup text = parseSmapsRollup text') ∧
    ∀ line key value key' value', valueAfterColon line key = some value → valueAfterColon line key' = some value' →
      (key ∈ StatusKey.all.map StatusKey.text ∧ key' ∈ StatusKey.all.map StatusKey.text) ∨
        (key ∈ kRollupKeys ∧ key' ∈ kRollupKeys) → key = key' := by
  refine ⟨fun _ _ => parseStatus_eq_some_iff, fun _ _ => parseSmapsRollup_eq_some_iff,
    fun _ _ h => ⟨parseStatus_eq_of_perm h, parseSmapsRollup_eq_of_perm h⟩, ?_⟩
  rintro line key value key' value' h h' (⟨hmem, hmem'⟩ | ⟨hmem, hmem'⟩)
  · obtain ⟨k, hk, rfl⟩ := List.mem_map.1 hmem
    obtain ⟨k', hk', rfl⟩ := List.mem_map.1 hmem'
    exact key_unique (StatusKey.colon_free k hk) (StatusKey.colon_free k' hk') h h'
  · exact key_unique (rollup_colon_free key hmem) (rollup_colon_free key' hmem') h h'

end NativeMcp.ProcessParsing
