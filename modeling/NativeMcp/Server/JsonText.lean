import NativeMcp.Server.Preflight
import Mathlib.Algebra.Order.BigOperators.Group.List

/-!
# Texts of JSON values

A `JsonText` is a value as it is spelled: whitespace, escapes, the order of the members and the way a number is written.
It has a text, the value that `Json::parse` makes of this text and the document that the parser walks through.
Serializing a value spells it once more (`text_reprint`).  The new text is read as the old value but for the type of a zero
that was written `-0`, holds no more tokens (`reprint_within`), and is no longer as long as no floating-point number
occurs (`length_reprint_le`).
-/

namespace NativeMcp

/-! ### Strings -/

/-- Whitespace between two tokens. -/
structure Space where
  text : Bytes
  blank : text.all (fun b => b == 0x20 || b == 0x09 || b == 0x0A || b == 0x0D) = true

theorem Space.blank_nil : ([] : Bytes).all (fun b => b == 0x20 || b == 0x09 || b == 0x0A || b == 0x0D) = true := rfl

def Space.none : Space := ⟨[], Space.blank_nil⟩

/-- The escapes of two characters. -/
inductive ShortEscape where
  | quote
  | reverseSolidus
  | solidus
  | backspace
  | formFeed
  | lineFeed
  | carriageReturn
  | tab
  deriving DecidableEq, Repr

def ShortEscape.value : ShortEscape → UInt8
  | .quote => 0x22
  | .reverseSolidus => 0x5C
  | .solidus => 0x2F
  | .backspace => 0x08
  | .formFeed => 0x0C
  | .lineFeed => 0x0A
  | .carriageReturn => 0x0D
  | .tab => 0x09

def ShortEscape.text : ShortEscape → Bytes
  | .quote => bytes "\\\""
  | .reverseSolidus => bytes "\\\\"
  | .solidus => bytes "\\/"
  | .backspace => bytes "\\b"
  | .formFeed => bytes "\\f"
  | .lineFeed => bytes "\\n"
  | .carriageReturn => bytes "\\r"
  | .tab => bytes "\\t"

/-- A byte that may stand in a string as it is. -/
def isPlain (b : UInt8) : Bool := 0x20 ≤ b && b != 0x22 && b != 0x5C

/-- A hexadecimal digit in the case that is chosen for it. -/
def hexDigitAs (upper : Bool) (n : Nat) : UInt8 := if upper && 10 ≤ n then UInt8.ofNat (0x37 + n) else Json.hexDigit n

/-- `\uXXXX`; the digits from the given one on are in the chosen case. -/
def codeUnit (upper : Nat → Bool) (digit : Nat) (unit : Nat) : Bytes :=
  bytes "\\u" ++ [hexDigitAs (upper digit) (unit / 0x1000 % 0x10), hexDigitAs (upper (digit + 1)) (unit / 0x100 % 0x10),
    hexDigitAs (upper (digit + 2)) (unit / 0x10 % 0x10), hexDigitAs (upper (digit + 3)) (unit % 0x10)]

/-- A part of a string: a byte, or a character that is escaped, by a surrogate pair above the basic plane. -/
inductive StringPart where
  | plain (b : UInt8) (h : isPlain b = true)
  | short (e : ShortEscape)
  | unicode (c : Char) (upper : Nat → Bool)

namespace StringPart

def value : StringPart → Bytes
  | .plain b _ => [b]
  | .short e => [e.value]
  | .unicode c _ => Utf8.encodeChar c.toNat

def text : StringPart → Bytes
  | .plain b _ => [b]
  | .short e => e.text
  | .unicode c upper =>
    if c.toNat < 0x10000 then codeUnit upper 0 c.toNat
    else codeUnit upper 0 (0xD800 + (c.toNat - 0x10000) / 0x400) ++
      codeUnit upper 4 (0xDC00 + (c.toNat - 0x10000) % 0x400)

/-- What the serializer writes for a byte. -/
def ofByte (b : UInt8) : StringPart :=
  if h : isPlain b = true then .plain b h
  else if b = 0x22 then .short .quote
  else if b = 0x5C then .short .reverseSolidus
  else if b = 0x08 then .short .backspace
  else if b = 0x09 then .short .tab
  else if b = 0x0A then .short .lineFeed
  else if b = 0x0C then .short .formFeed
  else if b = 0x0D then .short .carriageReturn
  else .unicode (Char.ofNat b.toNat) fun _ => false

private theorem ofByte_all : (List.range 256).all (fun n =>
    (ofByte (UInt8.ofNat n)).text == Json.escapeByte (UInt8.ofNat n) &&
      (ofByte (UInt8.ofNat n)).value == [UInt8.ofNat n]) = true := by
  decide +kernel

private theorem ofByte_spec (b : UInt8) : (ofByte b).text = Json.escapeByte b ∧ (ofByte b).value = [b] := by
  have h := List.all_eq_true.1 ofByte_all b.toNat (List.mem_range.2 b.toNat_lt)
  rw [UInt8.ofNat_toNat] at h
  simpa using h

@[simp] theorem text_ofByte (b : UInt8) : (ofByte b).text = Json.escapeByte b := (ofByte_spec b).1

@[simp] theorem value_ofByte (b : UInt8) : (ofByte b).value = [b] := (ofByte_spec b).2

theorem length_codeUnit (upper : Nat → Bool) (digit unit : Nat) : (codeUnit upper digit unit).length = 6 := by
  have h : (bytes "\\u").length = 2 := by decide +kernel
  rw [codeUnit, List.length_append, h]
  rfl

private theorem escapeByte_all : (List.range 256).all (fun n =>
    (Json.escapeByte (UInt8.ofNat n)).length ≤ 6 &&
      (n < 0x80 || (Json.escapeByte (UInt8.ofNat n)).length == 1) &&
      (!isPlain (UInt8.ofNat n) || (Json.escapeByte (UInt8.ofNat n)).length == 1)) = true := by
  decide +kernel

private theorem length_escapeByte (b : UInt8) : (Json.escapeByte b).length ≤ 6 ∧
    (0x80 ≤ b.toNat → (Json.escapeByte b).length = 1) ∧ (isPlain b = true → (Json.escapeByte b).length = 1) := by
  have h := List.all_eq_true.1 escapeByte_all b.toNat (List.mem_range.2 b.toNat_lt)
  rw [UInt8.ofNat_toNat] at h
  simp only [Bool.and_eq_true, Bool.or_eq_true, Bool.not_eq_true', decide_eq_true_eq, beq_iff_eq] at h
  obtain ⟨⟨hsix, hhigh⟩, hplain⟩ := h
  refine ⟨hsix, fun hb => ?_, fun hb => ?_⟩
  · exact hhigh.resolve_left (by omega)
  · exact hplain.resolve_left (by simp [hb])

private theorem length_flatMap_escapeByte {l : Bytes} (h : ∀ b ∈ l, 0x80 ≤ b.toNat) :
    (l.flatMap Json.escapeByte).length = l.length := by
  induction l with
  | nil => rfl
  | cons b l ih =>
    have hb := (length_escapeByte b).2.1 (h b (by simp))
    have hl := ih fun c hc => h c (by simp [hc])
    rw [List.flatMap_cons, List.length_append, hb, hl, List.length_cons]
    omega

/-- The bytes of a character above ASCII. -/
private theorem high_of_mem_encodeChar {c : Nat} (h : 0x80 ≤ c) (h' : c < 0x110000) :
    ∀ b ∈ Utf8.encodeChar c, 0x80 ≤ b.toNat := by
  intro b hb
  unfold Utf8.encodeChar at hb
  rw [if_neg (by omega)] at hb
  split at hb
  · simp only [List.mem_cons, List.not_mem_nil, or_false] at hb
    rcases hb with rfl | rfl <;> rw [UInt8.toNat_ofNat'] <;> omega
  split at hb
  · simp only [List.mem_cons, List.not_mem_nil, or_false] at hb
    rcases hb with rfl | rfl | rfl <;> rw [UInt8.toNat_ofNat'] <;> omega
  · simp only [List.mem_cons, List.not_mem_nil, or_false] at hb
    rcases hb with rfl | rfl | rfl | rfl <;> rw [UInt8.toNat_ofNat'] <;> omega

private theorem length_encodeChar_le (c : Nat) : (Utf8.encodeChar c).length ≤ 4 := by
  unfold Utf8.encodeChar
  split
  · simp
  split
  · simp
  split <;> simp

private theorem six_le_length_unicode (c : Char) (upper : Nat → Bool) : 6 ≤ (StringPart.unicode c upper).text.length := by
  rw [text]
  split
  · rw [length_codeUnit]
  · rw [List.length_append, length_codeUnit, length_codeUnit]
    omega

private theorem toNat_lt (c : Char) : c.toNat < 0x110000 := by
  rcases c.valid with h | ⟨-, h⟩
  · exact lt_of_lt_of_le h (by decide)
  · exact h

/-- No escape is shorter than what the serializer writes for the same bytes. -/
theorem length_escape_le (p : StringPart) : (p.value.flatMap Json.escapeByte).length ≤ p.text.length := by
  cases p with
  | plain b h =>
    have hb := (length_escapeByte b).2.2 h
    simp [value, text, hb]
  | short e => cases e <;> decide +kernel
  | unicode c upper =>
    have hsix := six_le_length_unicode c upper
    have hgoal : ((Utf8.encodeChar c.toNat).flatMap Json.escapeByte).length ≤ 6 := by
      by_cases hc : c.toNat < 0x80
      · have he : Utf8.encodeChar c.toNat = [UInt8.ofNat c.toNat] := by
          unfold Utf8.encodeChar
          exact if_pos hc
        have hb := (length_escapeByte (UInt8.ofNat c.toNat)).1
        rw [he]
        simpa using hb
      · have hhigh := high_of_mem_encodeChar (c := c.toNat) (by omega) (toNat_lt c)
        have hfour := length_encodeChar_le c.toNat
        rw [length_flatMap_escapeByte hhigh]
        omega
    exact hgoal.trans hsix

end StringPart

/-- A string or a key without its quotes. -/
abbrev StringText := List StringPart

namespace StringText

def value (s : StringText) : Bytes := s.flatMap StringPart.value

def text (s : StringText) : Bytes := bytes "\"" ++ s.flatMap StringPart.text ++ bytes "\""

def ofBytes (s : Bytes) : StringText := s.map StringPart.ofByte

@[simp] theorem value_ofBytes (s : Bytes) : value (ofBytes s) = s := by
  induction s with
  | nil => rfl
  | cons b s ih =>
    unfold value ofBytes at ih ⊢
    rw [List.map_cons, List.flatMap_cons, ih, StringPart.value_ofByte]
    rfl

theorem text_ofBytes (s : Bytes) : text (ofBytes s) = bytes "\"" ++ s.flatMap Json.escapeByte ++ bytes "\"" := by
  rw [text, ofBytes, List.flatMap_map]
  simp only [StringPart.text_ofByte]

/-- No spelling of a string is shorter than the one the serializer writes. -/
theorem length_ofBytes_le (s : StringText) : (text (ofBytes (value s))).length ≤ (text s).length := by
  have h : ((value s).flatMap Json.escapeByte).length ≤ (s.flatMap StringPart.text).length := by
    induction s with
    | nil => exact Nat.le_refl _
    | cons p s ih =>
      have hp := p.length_escape_le
      unfold value at ih ⊢
      rw [List.flatMap_cons, List.flatMap_append, List.flatMap_cons, List.length_append, List.length_append]
      omega
  rw [text_ofBytes, text]
  simp only [List.length_append]
  omega

end StringText

/-! ### Values -/

/-- A key with the whitespace around it. -/
structure KeyText where
  before : Space
  name : StringText
  after : Space

def KeyText.text (k : KeyText) : Bytes := k.before.text ++ k.name.text ++ k.after.text

/-- A key as the serializer writes it. -/
def KeyText.ofBytes (k : Bytes) : KeyText := ⟨.none, StringText.ofBytes k, .none⟩

/-- A JSON value as it is spelled.  A number is written with decimal digits, with a minus sign before them, or in any
other way; what is printed for such a floating-point number is kept with its spelling. -/
inductive JsonText where
  | null
  | boolean (b : Bool)
  | unsigned (n : Nat)
  | negative (n : Nat)
  | float (spelled : Bytes) (printed : String)
  | string (s : StringText)
  | array (space : Space) (items : List JsonText)
  | object (space : Space) (members : List (KeyText × JsonText))
  | spaced (before : Space) (t : JsonText) (after : Space)

namespace JsonText

mutual

def text : JsonText → Bytes
  | .null => bytes "null"
  | .boolean b => bytes (if b then "true" else "false")
  | .unsigned n => Json.decimal n
  | .negative n => bytes "-" ++ Json.decimal n
  | .float spelled _ => spelled
  | .string s => s.text
  | .array space items => bytes "[" ++ (space.text ++ Json.commaSeparated (itemTexts items)) ++ bytes "]"
  | .object space members =>
    bytes "\x7b" ++ (space.text ++ Json.commaSeparated (memberTexts members)) ++ bytes "\x7d"
  | .spaced before t after => before.text ++ t.text ++ after.text

def itemTexts : List JsonText → List Bytes
  | [] => []
  | t :: l => t.text :: itemTexts l

def memberTexts : List (KeyText × JsonText) → List Bytes
  | [] => []
  | (k, t) :: l => (k.text ++ bytes ":" ++ t.text) :: memberTexts l

end

mutual

/-- What `Json::parse` makes of the text: `-0` is a signed number, and of equal keys the last one counts. -/
def value : JsonText → Json
  | .null => .null
  | .boolean b => .boolean b
  | .unsigned n => .numberUnsigned n
  | .negative n => .numberInteger (Int.negOfNat n)
  | .float _ printed => .numberFloat printed
  | .string s => .string s.value
  | .array _ items => .array (itemValues items)
  | .object _ members => .object (memberValues members)
  | .spaced _ t _ => t.value

def itemValues : List JsonText → List Json
  | [] => []
  | t :: l => t.value :: itemValues l

def memberValues : List (KeyText × JsonText) → List (Bytes × Json)
  | [] => []
  | (k, t) :: l => Json.emplace k.name.value t.value (memberValues l)

end

mutual

/-- What the parser walks through. -/
def document : JsonText → Document
  | .null => .scalar .null
  | .boolean _ => .scalar .boolean
  | .unsigned _ => .scalar .numberUnsigned
  | .negative _ => .scalar .numberInteger
  | .float _ _ => .scalar .numberFloat
  | .string _ => .scalar .string
  | .array _ items => .array (itemDocuments items)
  | .object _ members => .object (memberDocuments members)
  | .spaced _ t _ => t.document

def itemDocuments : List JsonText → List Document
  | [] => []
  | t :: l => t.document :: itemDocuments l

def memberDocuments : List (KeyText × JsonText) → List (Bytes × Document)
  | [] => []
  | (k, t) :: l => (k.name.value, t.document) :: memberDocuments l

end

mutual

/-- The text that `dump()` writes: no whitespace, members in key order. -/
def ofJson : Json → JsonText
  | .null => .null
  | .boolean b => .boolean b
  | .numberInteger (.ofNat n) => .unsigned n
  | .numberInteger (.negSucc n) => .negative (n + 1)
  | .numberUnsigned n => .unsigned n
  | .numberFloat t => .float (bytes t) t
  | .string s => .string (StringText.ofBytes s)
  | .array items => .array .none (ofItems items)
  | .object members => .object .none (ofMembers members)

def ofItems : List Json → List JsonText
  | [] => []
  | v :: l => ofJson v :: ofItems l

def ofMembers : List (Bytes × Json) → List (KeyText × JsonText)
  | [] => []
  | (k, v) :: l => (KeyText.ofBytes k, ofJson v) :: ofMembers l

end

/-! ### Induction

The lists that a container is made of are the elementwise images of its items and members, so that an induction has one
case for each kind of value. -/

theorem itemTexts_eq (l : List JsonText) : itemTexts l = l.map text := by
  induction l with
  | nil => rfl
  | cons t l ih => rw [itemTexts, ih, List.map_cons]

theorem memberTexts_eq (l : List (KeyText × JsonText)) :
    memberTexts l = l.map fun p => p.1.text ++ bytes ":" ++ p.2.text := by
  induction l with
  | nil => rfl
  | cons p l ih => rw [memberTexts, ih, List.map_cons]

theorem itemValues_eq (l : List JsonText) : itemValues l = l.map value := by
  induction l with
  | nil => rfl
  | cons t l ih => rw [itemValues, ih, List.map_cons]

theorem itemDocuments_eq (l : List JsonText) : itemDocuments l = l.map document := by
  induction l with
  | nil => rfl
  | cons t l ih => rw [itemDocuments, ih, List.map_cons]

theorem memberDocuments_eq (l : List (KeyText × JsonText)) :
    memberDocuments l = l.map fun p => (p.1.name.value, p.2.document) := by
  induction l with
  | nil => rfl
  | cons p l ih => rw [memberDocuments, ih, List.map_cons]

theorem ofItems_eq (l : List Json) : ofItems l = l.map ofJson := by
  induction l with
  | nil => rfl
  | cons v l ih => rw [ofItems, ih, List.map_cons]

theorem ofMembers_eq (l : List (Bytes × Json)) : ofMembers l = l.map fun p => (KeyText.ofBytes p.1, ofJson p.2) := by
  induction l with
  | nil => rfl
  | cons p l ih => rw [ofMembers, ih, List.map_cons]

section

variable {motive : JsonText → Prop} (null : motive .null) (boolean : ∀ b, motive (.boolean b))
  (unsigned : ∀ n, motive (.unsigned n)) (negative : ∀ n, motive (.negative n))
  (float : ∀ spelled printed, motive (.float spelled printed)) (string : ∀ s, motive (.string s))
  (array : ∀ space items, (∀ t ∈ items, motive t) → motive (.array space items))
  (object : ∀ space members, (∀ p ∈ members, motive p.2) → motive (.object space members))
  (spaced : ∀ before t after, motive t → motive (.spaced before t after))

include null boolean unsigned negative float string array object spaced

set_option linter.unusedSectionVars false

mutual

@[elab_as_elim]
theorem induction : ∀ t, motive t
  | .null => null
  | .boolean b => boolean b
  | .unsigned n => unsigned n
  | .negative n => negative n
  | .float spelled printed => float spelled printed
  | .string s => string s
  | .array space items => array space items (induction_items items)
  | .object space members => object space members (induction_members members)
  | .spaced before t after => spaced before t after (induction t)

theorem induction_items : ∀ items : List JsonText, ∀ t ∈ items, motive t
  | [] => List.forall_mem_nil _
  | t :: l => List.forall_mem_cons.2 ⟨induction t, induction_items l⟩

theorem induction_members : ∀ members : List (KeyText × JsonText), ∀ p ∈ members, motive p.2
  | [] => List.forall_mem_nil _
  | (_, t) :: l => List.forall_mem_cons.2 ⟨induction t, induction_members l⟩

end

end

/-! ### The value that is read -/

/-- What `Json::parse` can return: members in key order, and no positive number of the signed type. -/
inductive Parsed : Json → Prop where
  | null : Parsed .null
  | boolean (b : Bool) : Parsed (.boolean b)
  | numberInteger {i : Int} (h : i ≤ 0) : Parsed (.numberInteger i)
  | numberUnsigned (n : Nat) : Parsed (.numberUnsigned n)
  | numberFloat (t : String) : Parsed (.numberFloat t)
  | string (s : Bytes) : Parsed (.string s)
  | array {items : List Json} (h : ∀ v ∈ items, Parsed v) : Parsed (.array items)
  | object {members : List (Bytes × Json)} (hs : Json.Sorted members) (h : ∀ p ∈ members, Parsed p.2) :
      Parsed (.object members)

theorem sorted_memberValues (l : List (KeyText × JsonText)) : Json.Sorted (memberValues l) := by
  induction l with
  | nil => exact List.Pairwise.nil
  | cons p l ih => exact Json.sorted_emplace ih

theorem exists_of_mem_memberValues {l : List (KeyText × JsonText)} {q : Bytes × Json} (h : q ∈ memberValues l) :
    ∃ p ∈ l, q = (p.1.name.value, p.2.value) := by
  induction l with
  | nil => cases h
  | cons p l ih =>
    rcases Json.mem_emplace h with rfl | h
    · exact ⟨p, by simp, rfl⟩
    · obtain ⟨p', hp', hq⟩ := ih h
      exact ⟨p', by simp [hp'], hq⟩

theorem parsed_value (t : JsonText) : Parsed t.value := by
  induction t using JsonText.induction with
  | null => exact .null
  | boolean b => exact .boolean b
  | unsigned n => exact .numberUnsigned n
  | negative n =>
    refine .numberInteger ?_
    cases n with
    | zero => exact Int.le_refl 0
    | succ n => exact Int.le_of_lt (Int.negSucc_lt_zero n)
  | float spelled printed => exact .numberFloat printed
  | string s => exact .string s.value
  | array space items ih =>
    rw [value, itemValues_eq]
    refine .array fun v hv => ?_
    obtain ⟨t, ht, rfl⟩ := List.mem_map.1 hv
    exact ih t ht
  | object space members ih =>
    rw [value]
    refine .object (sorted_memberValues members) fun q hq => ?_
    obtain ⟨p, hp, rfl⟩ := exists_of_mem_memberValues hq
    exact ih p hp
  | spaced before t after ih => exact ih

/-- Members with different keys are inserted in some order. -/
theorem perm_emplace {k : Bytes} {v : Json} {m : List (Bytes × Json)} (h : k ∉ m.map Prod.fst) :
    (Json.emplace k v m).Perm ((k, v) :: m) := by
  induction m with
  | nil => exact List.Perm.refl _
  | cons p m ih =>
    rw [List.map_cons, List.mem_cons, not_or] at h
    unfold Json.emplace
    rw [if_neg h.1]
    split
    · exact List.Perm.refl _
    · exact ((ih h.2).cons p).trans (List.Perm.swap (k, v) p m)

theorem perm_memberValues {l : List (KeyText × JsonText)} (h : (l.map fun p => p.1.name.value).Nodup) :
    (memberValues l).Perm (l.map fun p => (p.1.name.value, p.2.value)) := by
  induction l with
  | nil => exact List.Perm.refl _
  | cons p l ih =>
    rw [List.map_cons, List.nodup_cons] at h
    have hl := ih h.2
    have hfresh : p.1.name.value ∉ (memberValues l).map Prod.fst := by
      intro hm
      have hmem := (hl.map Prod.fst).mem_iff.1 hm
      rw [List.map_map] at hmem
      exact h.1 hmem
    rw [List.map_cons, memberValues]
    exact (perm_emplace hfresh).trans (hl.cons _)

/-! ### Reading a value back -/

/-- What is read when a value is serialized and parsed again. -/
def reread (v : Json) : Json := (ofJson v).value

@[simp] theorem reread_null : reread .null = .null := rfl
@[simp] theorem reread_boolean (b : Bool) : reread (.boolean b) = .boolean b := rfl
@[simp] theorem reread_numberUnsigned (n : Nat) : reread (.numberUnsigned n) = .numberUnsigned n := rfl
@[simp] theorem reread_numberFloat (t : String) : reread (.numberFloat t) = .numberFloat t := rfl

@[simp] theorem reread_string (s : Bytes) : reread (.string s) = .string s :=
  congrArg Json.string (StringText.value_ofBytes s)

/-- A signed number stays one only if it is negative. -/
theorem reread_numberInteger (i : Int) :
    reread (.numberInteger i) = if i < 0 then .numberInteger i else .numberUnsigned i.toNat := by
  cases i with
  | ofNat n => exact (if_neg (Int.not_lt.2 (Int.natCast_nonneg n))).symm
  | negSucc n => exact (if_pos (Int.negSucc_lt_zero n)).symm

theorem reread_array (items : List Json) : reread (.array items) = .array (items.map reread) := by
  rw [reread, ofJson, value, itemValues_eq, ofItems_eq, List.map_map]
  rfl

/-- The members of a sorted object keep their places. -/
theorem memberValues_ofMembers {m : List (Bytes × Json)} (h : Json.Sorted m) :
    memberValues (ofMembers m) = m.map fun p => (p.1, reread p.2) := by
  induction m with
  | nil => rfl
  | cons p m ih =>
    obtain ⟨hp, hm⟩ := List.pairwise_cons.1 h
    have hkey : (KeyText.ofBytes p.1).name.value = p.1 := StringText.value_ofBytes p.1
    rw [ofMembers, memberValues, ih hm, hkey, List.map_cons]
    cases m with
    | nil => rfl
    | cons q m =>
      have hlt : p.1 < q.1 := hp q (by simp)
      have hne : p.1 ≠ q.1 := fun e => List.lt_irrefl q.1 (by rwa [e] at hlt)
      rw [List.map_cons, Json.emplace, if_neg hne, if_pos (Json.keyLess_iff.2 hlt)]
      rfl

theorem reread_object {m : List (Bytes × Json)} (h : Json.Sorted m) :
    reread (.object m) = .object (m.map fun p => (p.1, reread p.2)) :=
  congrArg Json.object (memberValues_ofMembers h)

mutual

/-- The serializer writes the text of the value. -/
theorem text_ofJson : ∀ {v : Json} {t : Bytes}, v.dump = some t → (ofJson v).text = t
  | .null, _, h | .boolean _, _, h | .numberUnsigned _, _, h | .numberFloat _, _, h => by cases h; rfl
  | .numberInteger (.ofNat n), _, h | .numberInteger (.negSucc n), _, h => by cases h; rfl
  | .string s, _, h => by
    rw [Json.dump, Json.dumpString] at h
    split at h
    · cases h
      exact StringText.text_ofBytes s
    · cases h
  | .array items, _, h => by
    rw [Json.dump, Option.map_eq_some_iff] at h
    obtain ⟨ts, hts, rfl⟩ := h
    rw [ofJson, text, itemTexts_ofItems hts]
    rfl
  | .object members, _, h => by
    rw [Json.dump, Option.map_eq_some_iff] at h
    obtain ⟨ts, hts, rfl⟩ := h
    rw [ofJson, text, memberTexts_ofMembers hts]
    rfl

theorem itemTexts_ofItems : ∀ {l : List Json} {ts : List Bytes}, Json.dumpItems l = some ts →
    itemTexts (ofItems l) = ts
  | [], _, h => by cases h; rfl
  | v :: l, _, h => by
    rw [Json.dumpItems, Option.bind_eq_some_iff] at h
    obtain ⟨t, ht, h⟩ := h
    obtain ⟨ts, hts, rfl⟩ := Option.map_eq_some_iff.1 h
    rw [ofItems, itemTexts, text_ofJson ht, itemTexts_ofItems hts]

theorem memberTexts_ofMembers : ∀ {l : List (Bytes × Json)} {ts : List Bytes}, Json.dumpMembers l = some ts →
    memberTexts (ofMembers l) = ts
  | [], _, h => by cases h; rfl
  | (k, v) :: l, _, h => by
    rw [Json.dumpMembers, Option.bind_eq_some_iff] at h
    obtain ⟨tk, htk, h⟩ := h
    obtain ⟨t, ht, h⟩ := Option.bind_eq_some_iff.1 h
    obtain ⟨ts, hts, rfl⟩ := Option.map_eq_some_iff.1 h
    have hkey : (KeyText.ofBytes k).text = tk := by
      rw [Json.dumpString] at htk
      split at htk
      · cases htk
        have hname : (KeyText.ofBytes k).text = [] ++ (StringText.ofBytes k).text ++ [] := rfl
        rw [hname, List.nil_append, List.append_nil, StringText.text_ofBytes]
      · cases htk
    rw [ofMembers, memberTexts, text_ofJson ht, memberTexts_ofMembers hts, hkey]

end

/-! ### The limits of the preflight -/

theorem itemSize_eq (l : List Document) : Document.itemSize l = (l.map Document.size).sum := by
  induction l with
  | nil => rfl
  | cons d l ih => rw [Document.itemSize, ih, List.map_cons, List.sum_cons]

theorem memberSize_eq (l : List (Bytes × Document)) :
    Document.memberSize l = (l.map fun p => 1 + p.2.size).sum := by
  induction l with
  | nil => rfl
  | cons p l ih => rw [Document.memberSize, ih, List.map_cons, List.sum_cons]

theorem itemNesting_le_iff {n : Nat} {l : List Document} : Document.itemNesting l ≤ n ↔ ∀ d ∈ l, d.nesting ≤ n := by
  induction l with
  | nil => simp [Document.itemNesting]
  | cons d l ih => rw [Document.itemNesting, max_le_iff, ih, List.forall_mem_cons]

theorem memberNesting_le_iff {n : Nat} {l : List (Bytes × Document)} :
    Document.memberNesting l ≤ n ↔ ∀ p ∈ l, p.2.nesting ≤ n := by
  induction l with
  | nil => simp [Document.memberNesting]
  | cons p l ih => rw [Document.memberNesting, max_le_iff, ih, List.forall_mem_cons]

theorem distinctItems_iff_forall {l : List Document} : Document.DistinctItems l ↔ ∀ d ∈ l, d.Distinct := by
  induction l with
  | nil => simp [Document.DistinctItems]
  | cons d l ih => rw [Document.DistinctItems, ih, List.forall_mem_cons]

theorem distinctMembers_iff_forall {l : List (Bytes × Document)} :
    Document.DistinctMembers l ↔ ∀ p ∈ l, p.2.Distinct := by
  induction l with
  | nil => simp [Document.DistinctMembers]
  | cons p l ih => rw [Document.DistinctMembers, ih, List.forall_mem_cons]

/-- The text that is written for the value of another. -/
def reprint (t : JsonText) : JsonText := ofJson t.value

theorem text_reprint {t : JsonText} {d : Bytes} (h : t.value.dump = some d) : t.reprint.text = d := text_ofJson h

theorem itemDocuments_ofItems (l : List JsonText) :
    itemDocuments (ofItems (itemValues l)) = l.map fun t => t.reprint.document := by
  rw [itemValues_eq, ofItems_eq, itemDocuments_eq, List.map_map, List.map_map]
  rfl

theorem memberDocuments_ofMembers (m : List (Bytes × Json)) :
    memberDocuments (ofMembers m) = m.map fun p => (p.1, (ofJson p.2).document) := by
  rw [ofMembers_eq, memberDocuments_eq, List.map_map]
  refine List.map_congr_left fun p _ => ?_
  exact congrArg (Prod.mk · (ofJson p.2).document) (StringText.value_ofBytes p.1)

theorem document_reprint_array (space : Space) (items : List JsonText) :
    (array space items).reprint.document = .array (items.map fun t => t.reprint.document) :=
  congrArg Document.array (itemDocuments_ofItems items)

theorem document_reprint_object (space : Space) (members : List (KeyText × JsonText)) :
    (object space members).reprint.document =
      .object ((memberValues members).map fun p => (p.1, (ofJson p.2).document)) :=
  congrArg Document.object (memberDocuments_ofMembers _)

/-- The keys of the members in a document that has no key twice. -/
theorem nodup_names {space : Space} {l : List (KeyText × JsonText)} (h : (object space l).document.Distinct) :
    (l.map fun p => p.1.name.value).Nodup ∧ ∀ p ∈ l, p.2.document.Distinct := by
  rw [document, memberDocuments_eq, Document.Distinct, distinctMembers_iff_forall, List.map_map] at h
  refine ⟨h.1, fun p hp => ?_⟩
  exact h.2 _ (List.mem_map_of_mem (f := fun p : KeyText × JsonText => (p.1.name.value, p.2.document)) hp)

/-- The new text has the tokens of the old one. -/
theorem size_reprint {t : JsonText} (h : t.document.Distinct) : t.reprint.document.size = t.document.size := by
  induction t using JsonText.induction with
  | null | boolean b | unsigned n | float spelled printed | string s => rfl
  | negative n => cases n <;> rfl
  | array space items ih =>
    rw [document, itemDocuments_eq, Document.Distinct, distinctItems_iff_forall] at h
    rw [document_reprint_array, document, itemDocuments_eq, Document.size, Document.size, itemSize_eq, itemSize_eq, List.map_map,
      List.map_map]
    have heq : ∀ t ∈ items, t.reprint.document.size = t.document.size := fun t ht =>
      ih t ht (h _ (List.mem_map_of_mem ht))
    exact congrArg (fun l => List.sum l + 1) (List.map_congr_left heq)
  | object space members ih =>
    obtain ⟨hnames, hmembers⟩ := nodup_names h
    have hperm := perm_memberValues hnames
    rw [document_reprint_object, document, memberDocuments_eq, Document.size, Document.size, memberSize_eq, memberSize_eq,
      List.map_map, List.map_map]
    have hsum := (hperm.map fun p => 1 + (ofJson p.2).document.size).sum_eq
    rw [List.map_map] at hsum
    have heq : ∀ p ∈ members, 1 + p.2.reprint.document.size = 1 + p.2.document.size := by
      intro p hp
      rw [ih p hp (hmembers p hp)]
    have hcongr := congrArg List.sum (List.map_congr_left heq)
    exact congrArg (· + 1) (hsum.trans hcongr)
  | spaced before t after ih => exact ih h

/-- The new text nests no deeper. -/
theorem nesting_reprint_le (t : JsonText) : t.reprint.document.nesting ≤ t.document.nesting := by
  induction t using JsonText.induction with
  | null | boolean b | unsigned n | float spelled printed | string s => exact Nat.le_refl _
  | negative n => cases n <;> exact Nat.le_refl _
  | array space items ih =>
    rw [document_reprint_array, document, itemDocuments_eq, Document.nesting, Document.nesting]
    refine Nat.succ_le_succ (itemNesting_le_iff.2 fun d hd => ?_)
    obtain ⟨t, ht, rfl⟩ := List.mem_map.1 hd
    have hbound := itemNesting_le_iff.1 (Nat.le_refl (Document.itemNesting (items.map document)))
    exact (ih t ht).trans (hbound _ (List.mem_map_of_mem ht))
  | object space members ih =>
    rw [document_reprint_object, document, memberDocuments_eq, Document.nesting, Document.nesting]
    refine Nat.succ_le_succ (memberNesting_le_iff.2 fun d hd => ?_)
    obtain ⟨q, hq, rfl⟩ := List.mem_map.1 hd
    obtain ⟨p, hp, rfl⟩ := exists_of_mem_memberValues hq
    have hbound := memberNesting_le_iff.1
      (Nat.le_refl (Document.memberNesting (members.map fun p => (p.1.name.value, p.2.document))))
    have hmem : (p.1.name.value, p.2.document) ∈ members.map fun p => (p.1.name.value, p.2.document) :=
      List.mem_map.2 ⟨p, hp, rfl⟩
    exact (ih p hp).trans (hbound _ hmem)
  | spaced before t after ih => exact ih

/-- No key is written twice. -/
theorem distinct_ofJson {v : Json} (h : Parsed v) : (ofJson v).document.Distinct := by
  induction h with
  | null | boolean b | numberUnsigned n | numberFloat t | string s => exact True.intro
  | @numberInteger i _ => cases i <;> exact True.intro
  | @array items _ ih =>
    rw [ofJson, document, ofItems_eq, itemDocuments_eq, Document.Distinct, distinctItems_iff_forall, List.map_map]
    intro d hd
    obtain ⟨v, hv, rfl⟩ := List.mem_map.1 hd
    exact ih v hv
  | @object members hs _ ih =>
    rw [ofJson, document, memberDocuments_ofMembers, Document.Distinct, distinctMembers_iff_forall, List.map_map]
    refine ⟨Json.nodup_of_sorted hs, fun d hd => ?_⟩
    obtain ⟨p, hp, rfl⟩ := List.mem_map.1 hd
    exact ih p hp

/-- The document is within the limits. -/
def Within (limits : JsonSafetyLimits) (d : Document) : Prop :=
  d.nesting ≤ limits.maxNestingDepth ∧ d.size ≤ limits.maxTokens ∧ d.Distinct

theorem reprint_within {limits : JsonSafetyLimits} {t : JsonText} (h : Within limits t.document) :
    Within limits t.reprint.document := by
  obtain ⟨hdepth, hsize, hdistinct⟩ := h
  refine ⟨t.nesting_reprint_le.trans hdepth, ?_, distinct_ofJson t.parsed_value⟩
  rw [size_reprint hdistinct]
  exact hsize

/-! ### The length of the new text -/

/-- No floating-point number occurs in the value. -/
inductive Integral : Json → Prop where
  | null : Integral .null
  | boolean (b : Bool) : Integral (.boolean b)
  | numberInteger (i : Int) : Integral (.numberInteger i)
  | numberUnsigned (n : Nat) : Integral (.numberUnsigned n)
  | string (s : Bytes) : Integral (.string s)
  | array {items : List Json} (h : ∀ v ∈ items, Integral v) : Integral (.array items)
  | object {members : List (Bytes × Json)} (h : ∀ p ∈ members, Integral p.2) : Integral (.object members)

/-- The bytes of some texts, with one more for each. -/
def load (ts : List Bytes) : Nat := (ts.map fun t => t.length + 1).sum

theorem length_commaSeparated (ts : List Bytes) : (Json.commaSeparated ts).length = load ts - 1 := by
  induction ts with
  | nil => rfl
  | cons t ts ih =>
    cases ts with
    | nil => simp [Json.commaSeparated, load]
    | cons u us =>
      have hcomma : (bytes ",").length = 1 := by decide +kernel
      have hpos : 1 ≤ load (u :: us) := by
        rw [load, List.map_cons, List.sum_cons]
        omega
      have hload : load (t :: u :: us) = t.length + 1 + load (u :: us) := by
        rw [load, List.map_cons, List.sum_cons]
        rfl
      rw [Json.commaSeparated, List.length_append, List.length_append, ih, hload, hcomma]
      · omega
      · exact List.cons_ne_nil u us

/-- No spelling of a value without floating-point numbers is shorter than the one the serializer writes. -/
theorem length_reprint_le {t : JsonText} (hd : t.document.Distinct) (hi : Integral t.value) :
    t.reprint.text.length ≤ t.text.length := by
  induction t using JsonText.induction with
  | null | boolean b | unsigned n => exact Nat.le_refl _
  | negative n =>
    cases n with
    | zero => decide +kernel
    | succ n => exact Nat.le_refl _
  | float spelled printed => cases hi
  | string s => exact s.length_ofBytes_le
  | array space items ih =>
    rw [document, itemDocuments_eq, Document.Distinct, distinctItems_iff_forall] at hd
    rw [value, itemValues_eq] at hi
    cases hi with
    | array hi =>
      have hle : ∀ t ∈ items, t.reprint.text.length + 1 ≤ t.text.length + 1 := fun t ht =>
        Nat.succ_le_succ (ih t ht (hd _ (List.mem_map_of_mem ht)) (hi _ (List.mem_map_of_mem ht)))
      have hload : load (itemTexts (ofItems (itemValues items))) ≤ load (itemTexts items) := by
        rw [itemValues_eq, ofItems_eq, itemTexts_eq, itemTexts_eq, load, load, List.map_map, List.map_map, List.map_map,
          List.map_map]
        exact List.sum_le_sum hle
      have hspace : Space.none.text = [] := rfl
      rw [reprint, value, ofJson, text, text, hspace]
      simp only [List.length_append, length_commaSeparated, List.length_nil]
      omega
  | object space members ih =>
    obtain ⟨hnames, hmembers⟩ := nodup_names hd
    have hperm := perm_memberValues hnames
    cases hi with
    | object hi =>
      have hle : ∀ p ∈ members,
          ((KeyText.ofBytes p.1.name.value).text ++ bytes ":" ++ p.2.reprint.text).length + 1 ≤
            (p.1.text ++ bytes ":" ++ p.2.text).length + 1 := by
        intro p hp
        have hmem : (p.1.name.value, p.2.value) ∈ memberValues members := hperm.mem_iff.2 (List.mem_map.2 ⟨p, hp, rfl⟩)
        have hvalue := ih p hp (hmembers p hp) (hi _ hmem)
        have hname := p.1.name.length_ofBytes_le
        have hkey : (KeyText.ofBytes p.1.name.value).text = (StringText.ofBytes p.1.name.value).text := by
          have h : (KeyText.ofBytes p.1.name.value).text = [] ++ (StringText.ofBytes p.1.name.value).text ++ [] := rfl
          rw [h, List.nil_append, List.append_nil]
        have hold : p.1.name.text.length ≤ p.1.text.length := by
          rw [KeyText.text, List.length_append, List.length_append]
          omega
        rw [hkey]
        simp only [List.length_append]
        omega
      have hload : load (memberTexts (ofMembers (memberValues members))) ≤ load (memberTexts members) := by
        rw [ofMembers_eq, memberTexts_eq, memberTexts_eq, load, load, List.map_map, List.map_map, List.map_map]
        rw [(hperm.map _).sum_eq, List.map_map]
        exact List.sum_le_sum hle
      have hspace : Space.none.text = [] := rfl
      rw [reprint, value, ofJson, text, text, hspace]
      simp only [List.length_append, length_commaSeparated, List.length_nil]
      omega
  | spaced before t after ih =>
    have h : t.reprint.text.length ≤ t.text.length := ih hd hi
    have hreprint : (spaced before t after).reprint = t.reprint := rfl
    rw [hreprint, text, List.length_append, List.length_append]
    omega

/-! ### Reading a text -/

/-- The text spells this, perhaps behind a byte order mark, which the parser skips. -/
def Spells (t : JsonText) (text : Bytes) : Prop := text = t.text ∨ text = [0xEF, 0xBB, 0xBF] ++ t.text

theorem Spells.length_le {t : JsonText} {text : Bytes} (h : t.Spells text) : t.text.length ≤ text.length := by
  rcases h with rfl | rfl
  · exact Nat.le_refl _
  · rw [List.length_append]
    exact Nat.le_add_left _ _

end JsonText

/-- The parser reads a text as it is spelled. -/
def Nlohmann.Understands (N : Nlohmann) (t : JsonText) : Prop :=
  ∀ text, t.Spells text → N.parse text = some t.value ∧ N.saxEvents text = t.document.events

namespace JsonText

def isSpelled (text : Bytes) (t : JsonText) : Bool := text == t.text || text == [0xEF, 0xBB, 0xBF] ++ t.text

theorem isSpelled_iff {text : Bytes} {t : JsonText} : t.isSpelled text = true ↔ t.Spells text := by
  unfold isSpelled Spells
  rw [Bool.or_eq_true, beq_iff_eq, beq_iff_eq]

theorem isUtf8_of_find? {known : List JsonText} (h : ∀ t ∈ known, t.value.isUtf8 = true) (text : Bytes) (v : Json)
    (hv : (known.find? (isSpelled text)).map value = some v) : v.isUtf8 = true := by
  obtain ⟨t, ht, rfl⟩ := Option.map_eq_some_iff.1 hv
  exact h t (List.mem_of_find?_eq_some ht)

/-- A parser that knows some texts. -/
def parserOf (known : List JsonText) (h : ∀ t ∈ known, t.value.isUtf8 = true) : Nlohmann where
  saxEvents text := ((known.find? (isSpelled text)).map fun t => t.document.events).getD [.parseError]
  parse text := (known.find? (isSpelled text)).map value
  isUtf8_of_parse := isUtf8_of_find? h

/-- No text spells both. -/
def Apart (t u : JsonText) : Prop :=
  t.text ≠ u.text ∧ t.text ≠ [0xEF, 0xBB, 0xBF] ++ u.text ∧ u.text ≠ [0xEF, 0xBB, 0xBF] ++ t.text

instance (t u : JsonText) : Decidable (Apart t u) := inferInstanceAs (Decidable (_ ∧ _ ∧ _))

theorem Apart.not_spells {t u : JsonText} (h : Apart t u) {text : Bytes} (hu : u.Spells text) : ¬ t.Spells text := by
  obtain ⟨hne, hleft, hright⟩ := h
  intro ht
  rcases hu with rfl | rfl
  · rcases ht with ht | ht
    · exact hne ht.symm
    · exact hright ht
  · rcases ht with ht | ht
    · exact hleft ht.symm
    · exact hne (List.append_cancel_left ht).symm

theorem find?_isSpelled {known : List JsonText} (h : known.Pairwise Apart) {t : JsonText} (ht : t ∈ known) {text : Bytes}
    (hs : t.Spells text) : known.find? (isSpelled text) = some t := by
  induction known with
  | nil => cases ht
  | cons u known ih =>
    obtain ⟨hu, hknown⟩ := List.pairwise_cons.1 h
    rcases List.mem_cons.1 ht with rfl | ht
    · exact List.find?_cons_of_pos (isSpelled_iff.2 hs)
    · rw [List.find?_cons_of_neg (fun hspelled => (hu t ht).not_spells hs (isSpelled_iff.1 hspelled))]
      exact ih hknown ht

/-- A parser understands the texts that it knows. -/
theorem parserOf_understands {known : List JsonText} (hutf8 : ∀ t ∈ known, t.value.isUtf8 = true)
    (h : known.Pairwise Apart) : ∀ t ∈ known, (parserOf known hutf8).Understands t := by
  intro t ht text hs
  have hfind := find?_isSpelled h ht hs
  constructor
  · show (known.find? (isSpelled text)).map value = some t.value
    rw [hfind]
    rfl
  · show ((known.find? (isSpelled text)).map fun t => t.document.events).getD [.parseError] = t.document.events
    rw [hfind]
    rfl

end JsonText

end NativeMcp
