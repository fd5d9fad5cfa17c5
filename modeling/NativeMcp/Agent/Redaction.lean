import NativeMcp.Agent.Transcript

/-!
# Redaction

`redact_text` replaces the occurrences of the configured secrets and then cuts the text to its bound; `redact_json`
does this to the strings of a value and hides the values of some keys.  `_redact_sensitive_text`, which also looks for
the shapes of secrets, is a parameter: only the keys of diagnostics reach it.
-/

namespace NativeMcp.Agent

/-- `REDACTED` -/
def redacted : Str := chars "<redacted>"

/-! ### `redact_text` -/

/-- The number of bytes of a character in `s.encode("utf-8", "replace")`, which writes `?` for a surrogate. -/
def replacedSize (c : Nat) : Nat := if isSurrogate c then 1 else utf8Size c

/-- The beginning of the text in this many bytes; a character that is cut is left out. -/
def cutBytes : Nat → Str → Str
  | _, [] => []
  | maximum, c :: s =>
    if replacedSize c ≤ maximum then (if isSurrogate c then 0x3F else c) :: cutBytes (maximum - replacedSize c) s else []

/-- `_bounded` -/
def bounded (s : Str) (maximum : Nat) : Str :=
  if (s.map replacedSize).sum ≤ maximum then s else cutBytes maximum s

/-- The spans of the occurrences of a secret in a text that starts at this index; they may overlap. -/
def occurrences (secret : Str) : Nat → Str → List (Nat × Nat)
  | _, [] => []
  | index, c :: s =>
    if secret.isPrefixOf (c :: s) then (index, index + secret.length) :: occurrences secret (index + 1) s
    else occurrences secret (index + 1) s

/-- `_secret_spans` -/
def secretSpans (text : Str) (secrets : List Str) : List (Nat × Nat) :=
  (secrets.filter (· ≠ [])).flatMap fun secret => occurrences secret 0 text

/-- Merges a span with those behind it that touch it; the spans are sorted. -/
def mergeSpan : Nat × Nat → List (Nat × Nat) → List (Nat × Nat)
  | span, [] => [span]
  | span, next :: spans =>
    if next.1 ≤ span.2 then mergeSpan (span.1, max span.2 next.2) spans else span :: mergeSpan next spans

def mergeSpans : List (Nat × Nat) → List (Nat × Nat)
  | [] => []
  | span :: spans => mergeSpan span spans

/-- The text from this position on, its spans replaced. -/
def replaceFrom (text : Str) : Nat → List (Nat × Nat) → Str
  | cursor, [] => text.drop cursor
  | cursor, span :: spans => (text.take span.1).drop cursor ++ redacted ++ replaceFrom text span.2 spans

/-- `_replace_spans` -/
def replaceSpans (text : Str) (spans : List (Nat × Nat)) : Str :=
  if spans = [] then text
  else replaceFrom text 0 (mergeSpans (spans.mergeSort fun p q => p.1 < q.1 || (p.1 == q.1 && p.2 ≤ q.2)))

/-- `redact_text` of a string. -/
def redactText (text : Str) (secrets : List Str) (maximum : Nat) : Str :=
  if maximum = 0 then redacted else bounded (replaceSpans text (secretSpans text secrets)) maximum

/-! ### `redact_json` -/

/-- `_SECRET_KEYS` -/
def secretKeys : List String :=
  ["authorization", "proxy-authorization", "cookie", "set-cookie", "api_key", "apikey", "api-key", "access_token",
    "refresh_token", "token", "password", "secret", "credential"]

/-- `_PATH_KEYS` -/
def pathKeys : List String := ["path", "file_path", "absolute_path", "cwd", "working_directory", "executable"]

/-- `_PID_KEYS` -/
def pidKeys : List String := ["pid", "process_id", "raw_pid", "process-id"]

/-- `_DIAGNOSTIC_KEYS` -/
def diagnosticKeys : List String :=
  ["diagnostic", "detail", "error", "message", "command", "argv", "output", "stdout", "stderr"]

/-- `s.lower()` as far as its ASCII characters go: no other character than these two becomes an ASCII one. -/
def lowerText (s : Str) : Str :=
  s.flatMap fun c => if c = 0x130 then [0x69, 0x307] else if c = 0x212A then [0x6B] else [lowerAscii c]

/-- The value of such a key is hidden. -/
def isHiddenKey (key : Str) : Bool :=
  (secretKeys ++ pidKeys ++ pathKeys).any (chars · == lowerText key) || (chars "_token").isSuffixOf (lowerText key)

def isDiagnosticKey (key : Str) : Bool := diagnosticKeys.any (chars · == lowerText key)

mutual

/-- `redact_json` -/
def redactJson (sensitive : Str → List Str → Nat → Str) (secrets : List Str) (maximum : Nat) : PyVal → PyVal
  | .dict _ members => .dict false (sortItems (redactMembers sensitive secrets maximum members))
  | .list items => .list ((redactItems sensitive secrets maximum items).take 128)
  | .tuple items => .list ((redactItems sensitive secrets maximum items).take 128)
  | .str s => .str (redactText s secrets maximum)
  | v => v

def redactItems (sensitive : Str → List Str → Nat → Str) (secrets : List Str) (maximum : Nat) :
    List PyVal → List PyVal
  | [] => []
  | v :: l => redactJson sensitive secrets maximum v :: redactItems sensitive secrets maximum l

def redactMembers (sensitive : Str → List Str → Nat → Str) (secrets : List Str) (maximum : Nat) :
    List (Str × PyVal) → List (Str × PyVal)
  | [] => []
  | (key, v) :: l =>
    (key,
      if isHiddenKey key then .str redacted
      else if isDiagnosticKey key && v.isStr then .str (sensitive (v.text?.getD []) secrets maximum)
      else redactJson sensitive secrets maximum v) :: redactMembers sensitive secrets maximum l

end

/-! ### Texts without secrets -/

theorem redactText_of_no_secrets (text : Str) {maximum : Nat} (h : 0 < maximum) :
    redactText text [] maximum = bounded text maximum := by
  unfold redactText
  rw [if_neg (Nat.pos_iff_ne_zero.1 h)]
  rfl

theorem encodedSize_eq_some {s : Str} {size : Nat} :
    encodedSize s = some size ↔ s.any isSurrogate = false ∧ (s.map utf8Size).sum = size := by
  unfold encodedSize
  cases s.any isSurrogate <;> simp

/-- A text that can be encoded has no surrogate to replace. -/
theorem sum_replacedSize {s : Str} (h : s.any isSurrogate = false) :
    (s.map replacedSize).sum = (s.map utf8Size).sum := by
  have hsame : ∀ c ∈ s, replacedSize c = utf8Size c := by
    intro c hc
    have hplain : isSurrogate c = false := by
      rw [List.any_eq_false] at h
      exact Bool.eq_false_iff.2 (h c hc)
    rw [replacedSize, hplain]
    rfl
  rw [List.map_congr_left hsame]

theorem cutBytes_size (maximum : Nat) (s : Str) :
    (cutBytes maximum s).any isSurrogate = false ∧ ((cutBytes maximum s).map utf8Size).sum ≤ maximum := by
  induction s generalizing maximum with
  | nil => exact ⟨rfl, Nat.zero_le _⟩
  | cons c s ih =>
    rw [cutBytes]
    split
    · rename_i hfits
      obtain ⟨hplain, hsize⟩ := ih (maximum - replacedSize c)
      -- the mark that stands for a surrogate is one byte long
      have hmark : isSurrogate (if isSurrogate c then 0x3F else c) = false ∧
          utf8Size (if isSurrogate c then 0x3F else c) = replacedSize c := by
        unfold replacedSize
        cases hc : isSurrogate c with
        | true => exact ⟨rfl, rfl⟩
        | false => exact ⟨hc, rfl⟩
      rw [List.any_cons, List.map_cons, List.sum_cons, hmark.1, hmark.2, hplain]
      exact ⟨rfl, by omega⟩
    · exact ⟨rfl, Nat.zero_le _⟩

/-- The bound leaves an encodable text as it is exactly if the text is within it. -/
theorem bounded_eq_iff {s : Str} {size : Nat} (h : encodedSize s = some size) (maximum : Nat) :
    bounded s maximum = s ↔ size ≤ maximum := by
  obtain ⟨hplain, rfl⟩ := encodedSize_eq_some.1 h
  unfold bounded
  rw [sum_replacedSize hplain]
  split
  · rename_i hle
    exact ⟨fun _ => hle, fun _ => rfl⟩
  · rename_i hlt
    constructor
    · intro hsame
      have hsize := (cutBytes_size maximum s).2
      rw [hsame] at hsize
      exact absurd hsize hlt
    · intro hle
      exact absurd hle hlt

/-- Within its bound a text can be encoded. -/
theorem encodedSize_bounded {s : Str} {size : Nat} (h : encodedSize s = some size) (maximum : Nat) :
    ∃ size', encodedSize (bounded s maximum) = some size' ∧ size' ≤ maximum ∧ size' ≤ size := by
  obtain ⟨hplain, rfl⟩ := encodedSize_eq_some.1 h
  unfold bounded
  rw [sum_replacedSize hplain]
  split
  · rename_i hle
    exact ⟨_, encodedSize_eq_some.2 ⟨hplain, rfl⟩, hle, Nat.le_refl _⟩
  · rename_i hlt
    obtain ⟨hcut, hsize⟩ := cutBytes_size maximum s
    exact ⟨_, encodedSize_eq_some.2 ⟨hcut, rfl⟩, hsize, by omega⟩

end NativeMcp.Agent
