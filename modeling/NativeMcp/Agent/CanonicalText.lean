import NativeMcp.Agent.Rereading
import NativeMcp.Lib.SelfDelimiting
import NativeMcp.Server.Cancellation

/-!
# Canonical texts

`_canon` is what the agent identifies values by: the identity of an action is a hash of such a text, an authorization is
bound to the text of its arguments, a surface to that of its tools.  Two values have one text exactly if they are read
back as one value (`canon_eq_iff`): neither the order of the members nor what is frozen counts, and everything else
does.  Surrogates are excluded, since a pair of them is written like the character that it stands for.
-/

namespace NativeMcp.Agent

open SelfDelimiting (StopsAt Told append_inj_of_run)

/-! ### Values without surrogates -/

/-- A code point that is no surrogate. -/
def isCharacter (c : Nat) : Bool := c < 0xD800 || (0xDFFF < c && c < 0x110000)

mutual

/-- Every string and every key consists of characters, no key occurs twice, and every number is finite. -/
def PyVal.isClear : PyVal → Bool
  | .str s => s.all isCharacter
  | .float f => isFinite f
  | .list items => PyVal.clearItems items
  | .tuple items => PyVal.clearItems items
  | .dict _ members => decide (members.map Prod.fst).Nodup && PyVal.clearMembers members
  | .other => false
  | _ => true

def PyVal.clearItems : List PyVal → Bool
  | [] => true
  | v :: l => v.isClear && PyVal.clearItems l

def PyVal.clearMembers : List (Str × PyVal) → Bool
  | [] => true
  | p :: l => p.1.all isCharacter && p.2.isClear && PyVal.clearMembers l

end

theorem clearItems_iff {items : List PyVal} : PyVal.clearItems items = true ↔ ∀ v ∈ items, v.isClear = true := by
  induction items with
  | nil => simp [PyVal.clearItems]
  | cons v items ih => rw [PyVal.clearItems, Bool.and_eq_true, ih, List.forall_mem_cons]

theorem clearMembers_iff {members : List (Str × PyVal)} :
    PyVal.clearMembers members = true ↔ ∀ p ∈ members, p.1.all isCharacter = true ∧ p.2.isClear = true := by
  induction members with
  | nil => simp [PyVal.clearMembers]
  | cons p members ih => rw [PyVal.clearMembers, Bool.and_eq_true, Bool.and_eq_true, ih, List.forall_mem_cons]

/-! ### Strings -/

private def hexValue (b : UInt8) : Nat := if b < 0x3A then b.toNat - 0x30 else b.toNat - 0x57

/-- Four hexadecimal digits. -/
private def readUnit : Bytes → Option (Nat × Bytes)
  | a :: b :: c :: d :: rest => some (((hexValue a * 16 + hexValue b) * 16 + hexValue c) * 16 + hexValue d, rest)
  | _ => none

/-- What the escape of this letter stands for. -/
private def shortEscape (e : UInt8) : Option Nat :=
  if e = 0x22 then some 0x22
  else if e = 0x5C then some 0x5C
  else if e = 0x6E then some 0x0A
  else if e = 0x72 then some 0x0D
  else if e = 0x74 then some 0x09
  else if e = 0x66 then some 0x0C
  else if e = 0x62 then some 0x08
  else none

/-- The unit behind `\u`, and the second one if it is the first of a pair. -/
private def readUnits (text : Bytes) : Option (Nat × Bytes) :=
  (readUnit text).bind fun first =>
    if 0xD800 ≤ first.1 ∧ first.1 ≤ 0xDBFF then
      (readUnit (first.2.drop 2)).map fun second =>
        (0x10000 + (first.1 - 0xD800) * 1024 + (second.1 - 0xDC00), second.2)
    else some first

/-- The first character of a string that is escaped, and the rest. -/
private def readChar : Bytes → Option (Nat × Bytes)
  | [] => none
  | b :: rest =>
    if b = 0x5C then
      match rest with
      | [] => none
      | e :: rest => if e = 0x75 then readUnits rest else (shortEscape e).map fun c => (c, rest)
    else some (b.toNat, rest)

private theorem hexValue_hexDigit : ∀ n < 16, hexValue (Json.hexDigit n) = n := by decide

private theorem readUnit_unicodeEscape {n : Nat} (h : n < 0x10000) (rest : Bytes) :
    readUnit ((unicodeEscape n).drop 2 ++ rest) = some (n, rest) := by
  have hdigits : (unicodeEscape n).drop 2 = [Json.hexDigit (n / 4096 % 16), Json.hexDigit (n / 256 % 16),
      Json.hexDigit (n / 16 % 16), Json.hexDigit (n % 16)] := rfl
  rw [hdigits]
  show some _ = _
  rw [hexValue_hexDigit _ (Nat.mod_lt _ (by decide)), hexValue_hexDigit _ (Nat.mod_lt _ (by decide)),
    hexValue_hexDigit _ (Nat.mod_lt _ (by decide)), hexValue_hexDigit _ (Nat.mod_lt _ (by decide))]
  have hvalue : ((n / 4096 % 16 * 16 + n / 256 % 16) * 16 + n / 16 % 16) * 16 + n % 16 = n := by omega
  rw [hvalue]
  rfl

private theorem readUnits_unicodeEscape {n : Nat} (h : n < 0x10000) (hunit : ¬ (0xD800 ≤ n ∧ n ≤ 0xDBFF))
    (rest : Bytes) : readChar (unicodeEscape n ++ rest) = some (n, rest) := by
  show readUnits ((unicodeEscape n).drop 2 ++ rest) = _
  unfold readUnits
  rw [readUnit_unicodeEscape h, Option.bind_some, if_neg hunit]

/-- A character is read back. -/
private theorem readChar_escapeAscii {c : Nat} (hc : isCharacter c = true) (rest : Bytes) :
    readChar (escapeAscii c ++ rest) = some (c, rest) := by
  unfold isCharacter at hc
  simp only [Bool.or_eq_true, Bool.and_eq_true, decide_eq_true_eq] at hc
  unfold escapeAscii
  by_cases hquote : c = 0x22
  · rw [if_pos hquote, hquote]; rfl
  by_cases hsolidus : c = 0x5C
  · rw [if_neg hquote, if_pos hsolidus, hsolidus]; rfl
  by_cases hn : c = 0x0A
  · rw [if_neg hquote, if_neg hsolidus, if_pos hn, hn]; rfl
  by_cases hr : c = 0x0D
  · rw [if_neg hquote, if_neg hsolidus, if_neg hn, if_pos hr, hr]; rfl
  by_cases ht : c = 0x09
  · rw [if_neg hquote, if_neg hsolidus, if_neg hn, if_neg hr, if_pos ht, ht]; rfl
  by_cases hf : c = 0x0C
  · rw [if_neg hquote, if_neg hsolidus, if_neg hn, if_neg hr, if_neg ht, if_pos hf, hf]; rfl
  by_cases hb : c = 0x08
  · rw [if_neg hquote, if_neg hsolidus, if_neg hn, if_neg hr, if_neg ht, if_neg hf, if_pos hb, hb]; rfl
  rw [if_neg hquote, if_neg hsolidus, if_neg hn, if_neg hr, if_neg ht, if_neg hf, if_neg hb]
  by_cases hplain : (decide (0x20 ≤ c) && decide (c ≤ 0x7E)) = true
  · rw [if_pos hplain]
    simp only [Bool.and_eq_true, decide_eq_true_eq] at hplain
    have hvalue : (UInt8.ofNat c).toNat = c := by
      rw [UInt8.toNat_ofNat', Nat.mod_eq_of_lt (by omega)]
    have hne : UInt8.ofNat c ≠ 0x5C := by
      intro heq
      apply hsolidus
      rw [← hvalue, heq]
      rfl
    show (if UInt8.ofNat c = 0x5C then _ else some ((UInt8.ofNat c).toNat, rest)) = _
    rw [if_neg hne, hvalue]
  rw [if_neg hplain]
  by_cases hbasic : c < 0x10000
  · rw [if_pos hbasic]
    exact readUnits_unicodeEscape hbasic (by omega) rest
  · rw [if_neg hbasic, List.append_assoc]
    show readUnits ((unicodeEscape (0xD800 + (c - 0x10000) / 1024)).drop 2 ++ _) = _
    unfold readUnits
    rw [readUnit_unicodeEscape (by omega), Option.bind_some, if_pos (by omega)]
    dsimp only
    have hsecond : (unicodeEscape (0xDC00 + (c - 0x10000) % 1024) ++ rest).drop 2 =
        (unicodeEscape (0xDC00 + (c - 0x10000) % 1024)).drop 2 ++ rest := rfl
    rw [hsecond, readUnit_unicodeEscape (by omega), Option.map_some]
    have hvalue : 0x10000 + (0xD800 + (c - 0x10000) / 1024 - 0xD800) * 1024 +
        (0xDC00 + (c - 0x10000) % 1024 - 0xDC00) = c := by omega
    rw [hvalue]

private theorem escapeAscii_ne_quote {c : Nat} (hc : isCharacter c = true) (x y : Bytes) :
    escapeAscii c ++ x ≠ 0x22 :: y := by
  intro h
  have hread := readChar_escapeAscii hc x
  rw [h] at hread
  cases hread
  cases h

/-- A string ends at the first quote that is not escaped. -/
theorem dumpsString_append_inj {s s' : Str} (hs : s.all isCharacter = true) (hs' : s'.all isCharacter = true)
    {x y : Bytes} (h : dumpsString s ++ x = dumpsString s' ++ y) : s = s' ∧ x = y := by
  have hcontent : s.flatMap escapeAscii ++ 0x22 :: x = s'.flatMap escapeAscii ++ 0x22 :: y := by
    unfold dumpsString at h
    rw [List.append_assoc, List.append_assoc, List.append_assoc, List.append_assoc] at h
    exact (List.cons.inj h).2
  clear h
  rw [List.all_eq_true] at hs hs'
  induction s generalizing s' with
  | nil =>
    cases s' with
    | nil => exact ⟨rfl, (List.cons.inj hcontent).2⟩
    | cons d s' =>
      rw [List.flatMap_cons, List.append_assoc] at hcontent
      exact absurd hcontent.symm (escapeAscii_ne_quote (hs' d List.mem_cons_self) _ _)
  | cons c s ih =>
    have hc := hs c List.mem_cons_self
    rw [List.flatMap_cons, List.append_assoc] at hcontent
    cases s' with
    | nil => exact absurd hcontent (escapeAscii_ne_quote hc _ _)
    | cons d s' =>
      rw [List.flatMap_cons, List.append_assoc] at hcontent
      have hread := readChar_escapeAscii hc (s.flatMap escapeAscii ++ 0x22 :: x)
      rw [hcontent, readChar_escapeAscii (hs' d List.mem_cons_self)] at hread
      obtain ⟨rfl, htail⟩ := Prod.mk.inj (Option.some.inj hread)
      obtain ⟨rfl, hrest⟩ := ih (fun c hc => hs c (List.mem_cons_of_mem _ hc))
        (fun c hc => hs' c (List.mem_cons_of_mem _ hc)) htail.symm
      exact ⟨rfl, hrest⟩

/-! ### Numbers -/

def digitBytes : Bytes := bytes "0123456789-"

def numberBytes : Bytes := digitBytes ++ bytes "+.e"

/-- What `float.__repr__` does: a finite float is written with a fraction or an exponent, and read back. -/
structure FloatTexts (L : Library) : Prop where
  number : ∀ negative magnitude, ∀ b ∈ L.floatRepr (.finite negative magnitude), b ∈ numberBytes
  fraction : ∀ negative magnitude, ∃ b ∈ L.floatRepr (.finite negative magnitude), b ∉ digitBytes
  distinct : ∀ negative magnitude negative' magnitude',
    L.floatRepr (.finite negative magnitude) = L.floatRepr (.finite negative' magnitude') →
      negative = negative' ∧ magnitude = magnitude'

private theorem digit_mem : ∀ n, n < 58 → 48 ≤ n → UInt8.ofNat n ∈ digitBytes ∧ UInt8.ofNat n ≠ 0x2D := by decide

private theorem decimal_digits (n : Nat) : ∀ b ∈ Json.decimal n, b ∈ digitBytes ∧ b ≠ 0x2D := by
  intro b hb
  obtain ⟨c, hc, rfl⟩ := List.mem_map.1 hb
  have hdigit := Nat.isDigit_of_mem_toDigits (by decide) (by decide) hc
  have hlow : 48 ≤ c.toNat := of_decide_eq_true (Bool.and_eq_true_iff.1 hdigit).1
  have hhigh : c.toNat ≤ 57 := of_decide_eq_true (Bool.and_eq_true_iff.1 hdigit).2
  exact digit_mem _ (by omega) hlow

private theorem decimalInt_digits (i : Int) : ∀ b ∈ Json.decimalInt i, b ∈ digitBytes := by
  intro b hb
  cases i with
  | ofNat n => exact (decimal_digits n b hb).1
  | negSucc n =>
    rcases List.mem_cons.1 hb with rfl | hb
    · decide
    · exact (decimal_digits _ b hb).1

private theorem decimalInt_inj {i j : Int} (h : Json.decimalInt i = Json.decimalInt j) : i = j := by
  cases i with
  | ofNat n =>
    cases j with
    | ofNat m => rw [decimal_inj h]
    | negSucc m =>
      have hmem : (0x2D : UInt8) ∈ Json.decimal n := by
        have htext : Json.decimal n = 0x2D :: Json.decimal (m + 1) := h
        rw [htext]
        exact List.mem_cons_self
      exact absurd rfl (decimal_digits n _ hmem).2
  | negSucc n =>
    cases j with
    | ofNat m =>
      have hmem : (0x2D : UInt8) ∈ Json.decimal m := by
        have htext : 0x2D :: Json.decimal (n + 1) = Json.decimal m := h
        rw [← htext]
        exact List.mem_cons_self
      exact absurd rfl (decimal_digits m _ hmem).2
    | negSucc m =>
      have htail : Json.decimal (n + 1) = Json.decimal (m + 1) := (List.cons.inj h).2
      have hsame := decimal_inj htail
      have hnm : n = m := by omega
      rw [hnm]

/-! ### Values -/

/-- What the first byte of a text tells of the value. -/
inductive Shape where
  | null
  | true
  | false
  | string
  | array
  | object
  | number
  deriving DecidableEq

def Shape.ofByte (b : UInt8) : Shape :=
  if b = 0x6E then .null
  else if b = 0x74 then .true
  else if b = 0x66 then .false
  else if b = 0x22 then .string
  else if b = 0x5B then .array
  else if b = 0x7B then .object
  else .number

def PyVal.shape : PyVal → Shape
  | .none => .null
  | .bool b => if b then .true else .false
  | .str _ => .string
  | .list _ => .array
  | .tuple _ => .array
  | .dict _ _ => .object
  | _ => .number

/-- What follows a value in a text: a comma or a closing bracket. -/
def isEnd (b : UInt8) : Prop := b = 0x2C ∨ b = 0x5D ∨ b = 0x7D

private theorem number_byte : ∀ b ∈ numberBytes, Shape.ofByte b = .number ∧ ¬ isEnd b := by
  -- The bytes of the list are run through, not all bytes that there are.
  have hall : numberBytes.all (fun b => Shape.ofByte b = .number ∧ ¬ (b = 0x2C ∨ b = 0x5D ∨ b = 0x7D)) = true := by
    decide
  intro b hb
  unfold isEnd
  exact of_decide_eq_true (List.all_eq_true.1 hall b hb)

section

variable (L : Library)

/-- This is the text of the value. -/
def Canonical (v : PyVal) (text : Bytes) : Prop := v.isClear = true ∧ canon L v = .ok text

/-- The member is written like this. -/
def CanonicalMember (p : Str × PyVal) (text : Bytes) : Prop :=
  p.1.all isCharacter = true ∧ ∃ t, Canonical L p.2 t ∧ text = dumpsString p.1 ++ 0x3A :: t

variable {L} {v w : PyVal} {text : Bytes}

private theorem decimalInt_ne_nil (i : Int) : Json.decimalInt i ≠ [] := by
  cases i with
  | ofNat n =>
    intro h
    have hdigits : Nat.toDigits 10 n = [] := List.map_eq_nil_iff.1 h
    exact Nat.toDigits_ne_nil hdigits
  | negSucc n => exact fun h => (by cases h)

private theorem number_text (h : FloatTexts L) (hv : Canonical L v text) (hshape : v.shape = .number) :
    text ≠ [] ∧ ∀ b ∈ text, b ∈ numberBytes := by
  obtain ⟨hclear, htext⟩ := hv
  cases v with
  | int i =>
    cases htext
    exact ⟨decimalInt_ne_nil i, fun b hb => List.mem_append_left _ (decimalInt_digits i b hb)⟩
  | float f =>
    cases f with
    | finite negative magnitude =>
      cases htext
      obtain ⟨b, hb, -⟩ := h.fraction negative magnitude
      exact ⟨List.ne_nil_of_mem hb, h.number negative magnitude⟩
    | infinite negative => cases hclear
    | nan => cases hclear
  | bool b => cases b <;> cases hshape
  | other => cases hclear
  | _ => cases hshape

/-- The text of a value begins with a byte that tells its shape. -/
theorem canonical_head (h : FloatTexts L) (hv : Canonical L v text) :
    ∃ b rest, text = b :: rest ∧ Shape.ofByte b = v.shape ∧ ¬ isEnd b := by
  by_cases hshape : v.shape = .number
  · obtain ⟨hne, hbytes⟩ := number_text h hv hshape
    cases text with
    | nil => exact absurd rfl hne
    | cons b rest =>
      obtain ⟨hbyte, hnot⟩ := number_byte b (hbytes b List.mem_cons_self)
      exact ⟨b, rest, rfl, hbyte.trans hshape.symm, hnot⟩
  obtain ⟨hclear, htext⟩ := hv
  cases v with
  | none =>
    cases htext
    exact ⟨_, _, rfl, by decide, by unfold isEnd; decide⟩
  | bool b =>
    cases htext
    cases b <;> exact ⟨_, _, rfl, by decide, by unfold isEnd; decide⟩
  | str s =>
    cases htext
    exact ⟨_, _, rfl, rfl, by unfold isEnd; decide⟩
  | list items =>
    rw [canon] at htext
    cases hitems : canonItems L items with
    | error raised =>
      rw [hitems] at htext
      cases htext
    | ok ts =>
      rw [hitems] at htext
      cases htext
      exact ⟨0x5B, _, rfl, rfl, by unfold isEnd; decide⟩
  | tuple items =>
    rw [canon] at htext
    cases hitems : canonItems L items with
    | error raised =>
      rw [hitems] at htext
      cases htext
    | ok ts =>
      rw [hitems] at htext
      cases htext
      exact ⟨0x5B, _, rfl, rfl, by unfold isEnd; decide⟩
  | dict frozen members =>
    rw [canon] at htext
    cases hmembers : canonMembers L members with
    | error raised =>
      rw [hmembers] at htext
      cases htext
    | ok ts =>
      rw [hmembers] at htext
      cases htext
      exact ⟨0x7B, _, rfl, rfl, by unfold isEnd; decide⟩
  | _ => exact absurd rfl hshape

/-! ### Lists and dictionaries -/

private theorem commaSeparated_eq (ts : List Bytes) : Json.commaSeparated ts = SelfDelimiting.joined 0x2C ts := by
  induction ts with
  | nil => rfl
  | cons t ts ih =>
    cases ts with
    | nil => rfl
    | cons t' ts =>
      show t ++ bytes "," ++ Json.commaSeparated (t' :: ts) = t ++ 0x2C :: SelfDelimiting.joined 0x2C (t' :: ts)
      rw [ih, List.append_assoc]
      rfl

private theorem canonItems_iff {items : List PyVal} {ts : List Bytes} :
    canonItems L items = .ok ts ↔ List.Forall₂ (fun v t => canon L v = .ok t) items ts := by
  constructor
  · intro h
    induction items generalizing ts with
    | nil =>
      cases h
      exact .nil
    | cons v items ih =>
      rw [canonItems] at h
      obtain ⟨t, ht, h⟩ := ok_of_bind h
      cases hrest : canonItems L items with
      | error raised =>
        rw [hrest] at h
        cases h
      | ok rest =>
        rw [hrest] at h
        cases h
        exact .cons ht (ih hrest)
  · intro h
    induction h with
    | nil => rfl
    | cons ht _ ih =>
      rw [canonItems, ht, ih]
      rfl

/-- This is the text of the member's value, under its name. -/
private def MemberText (L : Library) (p : Str × PyVal) (q : Str × Bytes) : Prop := p.1 = q.1 ∧ canon L p.2 = .ok q.2

private theorem canonMembers_iff {members : List (Str × PyVal)} {ts : List (Str × Bytes)} :
    canonMembers L members = .ok ts ↔ List.Forall₂ (MemberText L) members ts := by
  constructor
  · intro h
    induction members generalizing ts with
    | nil =>
      cases h
      exact .nil
    | cons p members ih =>
      obtain ⟨name, v⟩ := p
      rw [canonMembers] at h
      obtain ⟨t, ht, h⟩ := ok_of_bind h
      cases hrest : canonMembers L members with
      | error raised =>
        rw [hrest] at h
        cases h
      | ok rest =>
        rw [hrest] at h
        cases h
        exact .cons ⟨rfl, ht⟩ (ih hrest)
  · intro h
    induction h with
    | nil => rfl
    | @cons p q members ts hpq _ ih =>
      obtain ⟨name, v⟩ := p
      obtain ⟨name', t⟩ := q
      obtain ⟨hname, ht⟩ := hpq
      dsimp only at hname ht
      rw [canonMembers, ht, ih, hname]
      rfl

private theorem canonical_items {items : List PyVal} {ts : List Bytes} (hclear : ∀ v ∈ items, v.isClear = true)
    (h : canonItems L items = .ok ts) : List.Forall₂ (Canonical L) items ts := by
  have htexts := canonItems_iff.1 h
  clear h
  induction htexts with
  | nil => exact .nil
  | cons ht _ ih =>
    obtain ⟨hv, hitems⟩ := List.forall_mem_cons.1 hclear
    exact .cons ⟨hv, ht⟩ (ih hitems)

private theorem insertItem_forall₂ {α β : Type} {R : Str × α → Str × β → Prop} (hkey : ∀ p q, R p q → p.1 = q.1)
    {p : Str × α} {q : Str × β} (hpq : R p q) {l : List (Str × α)} {m : List (Str × β)} (h : List.Forall₂ R l m) :
    List.Forall₂ R (insertItem p l) (insertItem q m) := by
  induction h with
  | nil => exact .cons hpq .nil
  | cons hhead htail ih =>
    unfold insertItem
    rw [hkey _ _ hpq, hkey _ _ hhead]
    split
    · exact .cons hpq (.cons hhead htail)
    · exact .cons hhead ih

/-- The order of the members is that of their texts. -/
private theorem sortItems_forall₂ {α β : Type} {R : Str × α → Str × β → Prop} (hkey : ∀ p q, R p q → p.1 = q.1)
    {l : List (Str × α)} {m : List (Str × β)} (h : List.Forall₂ R l m) :
    List.Forall₂ R (sortItems l) (sortItems m) := by
  induction h with
  | nil => exact .nil
  | cons hhead htail ih => exact insertItem_forall₂ hkey hhead ih

/-- The texts of the members of a dictionary, in the order in which they are written. -/
private theorem canonical_members {members : List (Str × PyVal)} {ts : List (Str × Bytes)}
    (hclear : ∀ p ∈ members, p.1.all isCharacter = true ∧ p.2.isClear = true)
    (h : canonMembers L members = .ok ts) :
    List.Forall₂ (CanonicalMember L) (sortItems members)
      ((sortItems ts).map fun q => dumpsString q.1 ++ bytes ":" ++ q.2) := by
  have hsorted := sortItems_forall₂ (fun p q h => h.1) (canonMembers_iff.1 h)
  have hall : ∀ p ∈ sortItems members, p.1.all isCharacter = true ∧ p.2.isClear = true := fun p hp =>
    hclear p ((sortItems_perm members).mem_iff.1 hp)
  generalize sortItems members = members' at hsorted hall
  generalize sortItems ts = ts' at hsorted
  induction hsorted with
  | nil => exact .nil
  | @cons p q members' ts' hpq hrest ih =>
    obtain ⟨⟨hname, hvalue⟩, hall⟩ := List.forall_mem_cons.1 hall
    refine .cons ⟨hname, q.2, ⟨hvalue, hpq.2⟩, ?_⟩ (ih hall)
    dsimp only
    rw [hpq.1, List.append_assoc]
    rfl

/-! ### Two texts -/

private theorem number_inj (h : FloatTexts L) (hv : Canonical L v text) (hw : Canonical L w text)
    (hvshape : v.shape = .number) (hwshape : w.shape = .number) : v = w := by
  have hfraction : ∀ i negative magnitude, Json.decimalInt i ≠ L.floatRepr (.finite negative magnitude) := by
    intro i negative magnitude heq
    obtain ⟨b, hb, hnot⟩ := h.fraction negative magnitude
    rw [← heq] at hb
    exact hnot (decimalInt_digits i b hb)
  obtain ⟨hvclear, hvtext⟩ := hv
  obtain ⟨hwclear, hwtext⟩ := hw
  have hnumber : ∀ u : PyVal, u.isClear = true → u.shape = .number →
      (∃ i, u = .int i) ∨ ∃ negative magnitude, u = .float (.finite negative magnitude) := by
    intro u hclear hshape
    cases u with
    | int i => exact .inl ⟨i, rfl⟩
    | float f =>
      cases f with
      | finite negative magnitude => exact .inr ⟨negative, magnitude, rfl⟩
      | infinite negative => cases hclear
      | nan => cases hclear
    | bool b => cases b <;> cases hshape
    | other => cases hclear
    | _ => cases hshape
  rcases hnumber v hvclear hvshape with ⟨i, rfl⟩ | ⟨negative, magnitude, rfl⟩
  · rcases hnumber w hwclear hwshape with ⟨j, rfl⟩ | ⟨negative', magnitude', rfl⟩
    · rw [← hwtext] at hvtext
      rw [decimalInt_inj (Except.ok.inj hvtext)]
    · rw [← hwtext] at hvtext
      exact absurd (Except.ok.inj hvtext) (hfraction i negative' magnitude')
  · rcases hnumber w hwclear hwshape with ⟨j, rfl⟩ | ⟨negative', magnitude', rfl⟩
    · rw [← hwtext] at hvtext
      exact absurd (Except.ok.inj hvtext).symm (hfraction j negative magnitude)
    · rw [← hwtext] at hvtext
      obtain ⟨rfl, rfl⟩ := h.distinct _ _ _ _ (Except.ok.inj hvtext)
      rfl

private theorem stopsAt_number {x : Bytes} (hx : StopsAt isEnd x) : StopsAt (fun b => b ∉ numberBytes) x := by
  intro b hb hmem
  exact (number_byte b hmem).2 (hx b hb)

/-- A member is told from others if its value is. -/
private theorem told_member {p : Str × PyVal} (h : Told (Canonical L) PyVal.reread isEnd p.2) :
    Told (CanonicalMember L) (fun p => (p.1, p.2.reread)) isEnd p := by
  intro q l m x y hp hq hx hy heq
  obtain ⟨hpname, t, ht, rfl⟩ := hp
  obtain ⟨hqname, u, hu, rfl⟩ := hq
  rw [List.append_assoc, List.append_assoc] at heq
  obtain ⟨hname, hrest⟩ := dumpsString_append_inj hpname hqname heq
  obtain ⟨hvalue, hend⟩ := h q.2 t u x y ht hu hx hy (List.cons.inj hrest).2
  dsimp only
  rw [hname, hvalue]
  exact ⟨rfl, hend⟩

/-- Two arrays with one text. -/
private theorem told_items (h : FloatTexts L) {items items' : List PyVal} {ts ts' : List Bytes} {x y : Bytes}
    (ih : ∀ v ∈ items, Told (Canonical L) PyVal.reread isEnd v) (hitems : List.Forall₂ (Canonical L) items ts)
    (hitems' : List.Forall₂ (Canonical L) items' ts')
    (heq : bytes "[" ++ Json.commaSeparated ts ++ bytes "]" ++ x =
      bytes "[" ++ Json.commaSeparated ts' ++ bytes "]" ++ y) :
    items.map PyVal.reread = items'.map PyVal.reread ∧ x = y := by
  rw [List.append_assoc, List.append_assoc, List.append_assoc, List.append_assoc, commaSeparated_eq,
    commaSeparated_eq] at heq
  refine Told.joined (.inl rfl) (.inr (.inl rfl)) (by decide) ?_ ih hitems hitems' (List.cons.inj heq).2
  intro v l hv
  obtain ⟨b, rest, htext, -, hnot⟩ := canonical_head h hv
  exact ⟨b, rest, htext, fun hb => hnot (.inr (.inl hb))⟩

/-- Two dictionaries with one text. -/
private theorem told_members {members members' : List (Str × PyVal)} {ts ts' : List (Str × Bytes)} {x y : Bytes}
    (ih : ∀ p ∈ members, Told (Canonical L) PyVal.reread isEnd p.2)
    (hclear : ∀ p ∈ members, p.1.all isCharacter = true ∧ p.2.isClear = true)
    (hclear' : ∀ p ∈ members', p.1.all isCharacter = true ∧ p.2.isClear = true)
    (hmembers : canonMembers L members = .ok ts) (hmembers' : canonMembers L members' = .ok ts')
    (heq : bytes "\x7b" ++ Json.commaSeparated ((sortItems ts).map fun q => dumpsString q.1 ++ bytes ":" ++ q.2) ++
        bytes "\x7d" ++ x =
      bytes "\x7b" ++ Json.commaSeparated ((sortItems ts').map fun q => dumpsString q.1 ++ bytes ":" ++ q.2) ++
        bytes "\x7d" ++ y) :
    (sortItems members).map (fun p => (p.1, p.2.reread)) = (sortItems members').map (fun p => (p.1, p.2.reread)) ∧
      x = y := by
  rw [List.append_assoc, List.append_assoc, List.append_assoc, List.append_assoc, commaSeparated_eq,
    commaSeparated_eq] at heq
  have htold : ∀ p ∈ sortItems members, Told (CanonicalMember L) (fun p => (p.1, p.2.reread)) isEnd p := fun p hp =>
    told_member (ih p ((sortItems_perm members).mem_iff.1 hp))
  refine Told.joined (.inl rfl) (.inr (.inr rfl)) (by decide) ?_ htold (canonical_members hclear hmembers)
    (canonical_members hclear' hmembers') (List.cons.inj heq).2
  rintro p l ⟨-, t, -, rfl⟩
  exact ⟨0x22, _, rfl, by decide⟩

/-- Values whose texts begin alike have one shape. -/
private theorem shape_eq (h : FloatTexts L) {l m x y : Bytes} (hv : Canonical L v l) (hw : Canonical L w m)
    (heq : l ++ x = m ++ y) : v.shape = w.shape := by
  obtain ⟨b, rest, rfl, hb, -⟩ := canonical_head h hv
  obtain ⟨b', rest', rfl, hb', -⟩ := canonical_head h hw
  rw [← hb, ← hb', (List.cons.inj heq).1]

/-- A number is told from others by what follows it. -/
private theorem told_number (h : FloatTexts L) (hshape : v.shape = .number) :
    Told (Canonical L) PyVal.reread isEnd v := by
  intro w l m x y hv hw hx hy heq
  have hwshape : w.shape = .number := (shape_eq h hv hw heq).symm.trans hshape
  obtain ⟨rfl, hrest⟩ := append_inj_of_run (number_text h hv hshape).2 (number_text h hw hwshape).2
    (stopsAt_number hx) (stopsAt_number hy) heq
  rw [number_inj h hv hw hshape hwshape]
  exact ⟨rfl, hrest⟩

/-- A word stands for one value. -/
private theorem told_word {l m x y : Bytes} (hsame : w = v) (hv : Canonical L v l) (hw : Canonical L w m)
    (heq : l ++ x = m ++ y) : v.reread = w.reread ∧ x = y := by
  subst hsame
  obtain rfl : l = m := Except.ok.inj (hv.2.symm.trans hw.2)
  exact ⟨rfl, List.append_cancel_left heq⟩

private theorem clear_dict {frozen : Bool} {members : List (Str × PyVal)}
    (h : (PyVal.dict frozen members).isClear = true) :
    (members.map Prod.fst).Nodup ∧ ∀ p ∈ members, p.1.all isCharacter = true ∧ p.2.isClear = true := by
  rw [PyVal.isClear, Bool.and_eq_true, decide_eq_true_eq, clearMembers_iff] at h
  exact h

/-- The items of an array, and their texts. -/
private theorem array_text (hv : Canonical L v text) (hshape : v.shape = .array) :
    ∃ items ts, (v = .list items ∨ v = .tuple items) ∧ List.Forall₂ (Canonical L) items ts ∧
      text = bytes "[" ++ Json.commaSeparated ts ++ bytes "]" := by
  obtain ⟨hclear, htext⟩ := hv
  cases v with
  | list items =>
    rw [PyVal.isClear, clearItems_iff] at hclear
    rw [canon] at htext
    cases hitems : canonItems L items with
    | error raised =>
      rw [hitems] at htext
      cases htext
    | ok ts =>
      rw [hitems] at htext
      cases htext
      exact ⟨items, ts, .inl rfl, canonical_items hclear hitems, rfl⟩
  | tuple items =>
    rw [PyVal.isClear, clearItems_iff] at hclear
    rw [canon] at htext
    cases hitems : canonItems L items with
    | error raised =>
      rw [hitems] at htext
      cases htext
    | ok ts =>
      rw [hitems] at htext
      cases htext
      exact ⟨items, ts, .inr rfl, canonical_items hclear hitems, rfl⟩
  | bool b => cases b <;> cases hshape
  | _ => cases hshape

/-- The members of an object, and their texts. -/
private theorem object_text (hv : Canonical L v text) (hshape : v.shape = .object) :
    ∃ frozen members ts, v = .dict frozen members ∧
      (∀ p ∈ members, p.1.all isCharacter = true ∧ p.2.isClear = true) ∧ canonMembers L members = .ok ts ∧
      text = bytes "\x7b" ++ Json.commaSeparated ((sortItems ts).map fun q => dumpsString q.1 ++ bytes ":" ++ q.2) ++
        bytes "\x7d" := by
  obtain ⟨hclear, htext⟩ := hv
  cases v with
  | dict frozen members =>
    rw [canon] at htext
    cases hmembers : canonMembers L members with
    | error raised =>
      rw [hmembers] at htext
      cases htext
    | ok ts =>
      rw [hmembers] at htext
      cases htext
      exact ⟨frozen, members, ts, rfl, (clear_dict hclear).2, hmembers, rfl⟩
  | bool b => cases b <;> cases hshape
  | _ => cases hshape

private theorem told_array (h : FloatTexts L) {items : List PyVal} (hread : v.reread = .list (PyVal.rereadItems items))
    (hshape : v.shape = .array) (hv' : v = .list items ∨ v = .tuple items)
    (ih : ∀ v ∈ items, Told (Canonical L) PyVal.reread isEnd v) : Told (Canonical L) PyVal.reread isEnd v := by
  intro w l m x y hv hw hx hy heq
  obtain ⟨own, ts, hown, hts, rfl⟩ := array_text hv hshape
  have hsame : own = items := by
    rcases hown with rfl | rfl <;> rcases hv' with hv' | hv' <;> cases hv' <;> rfl
  subst hsame
  obtain ⟨items', ts', hw', hts', rfl⟩ := array_text hw ((shape_eq h hv hw heq).symm.trans hshape)
  obtain ⟨hitems, hend⟩ := told_items h ih hts hts' heq
  have hread' : w.reread = .list (PyVal.rereadItems items') := by
    rcases hw' with rfl | rfl <;> rfl
  rw [hread, hread', rereadItems_eq, rereadItems_eq, hitems]
  exact ⟨rfl, hend⟩

/-- By induction on the value; what follows a text cannot go on with it. -/
theorem told_canonical (h : FloatTexts L) (v : PyVal) : Told (Canonical L) PyVal.reread isEnd v := by
  induction v using PyVal.induction with
  | none =>
    intro w l m x y hv hw hx hy heq
    refine told_word ?_ hv hw heq
    have hshape := shape_eq h hv hw heq
    cases w with
    | none => rfl
    | bool b => cases b <;> cases hshape
    | _ => cases hshape
  | bool b =>
    intro w l m x y hv hw hx hy heq
    refine told_word ?_ hv hw heq
    have hshape := shape_eq h hv hw heq
    cases w with
    | bool b' => cases b <;> cases b' <;> first | rfl | cases hshape
    | _ => cases b <;> cases hshape
  | int i => exact told_number h rfl
  | float f => exact told_number h rfl
  | str s =>
    intro w l m x y hv hw hx hy heq
    have hshape := shape_eq h hv hw heq
    cases w with
    | str s' =>
      obtain ⟨hs, hl⟩ := hv
      obtain ⟨hs', hm⟩ := hw
      cases hl
      cases hm
      obtain ⟨rfl, hend⟩ := dumpsString_append_inj hs hs' heq
      exact ⟨rfl, hend⟩
    | bool b => cases b <;> cases hshape
    | _ => cases hshape
  | list items ih => exact told_array h rfl rfl (.inl rfl) ih
  | tuple items ih => exact told_array h rfl rfl (.inr rfl) ih
  | dict frozen members ih =>
    intro w l m x y hv hw hx hy heq
    have hshape := shape_eq h hv hw heq
    obtain ⟨_, _, ts, hown, hclear, hts, rfl⟩ := object_text hv rfl
    cases hown
    obtain ⟨frozen', members', ts', rfl, hclear', hts', rfl⟩ := object_text hw hshape.symm
    obtain ⟨hmembers, hend⟩ := told_members ih hclear hclear' hts hts' heq
    rw [PyVal.reread, PyVal.reread, rereadMembers_eq, rereadMembers_eq, sortItems_map PyVal.reread,
      sortItems_map PyVal.reread, hmembers]
    exact ⟨rfl, hend⟩
  | other => exact told_number h rfl

/-! ### The text of a value that is read again -/

private theorem canonItems_ok {items : List PyVal} (h : ∀ v ∈ items, ∃ text, canon L v = .ok text) :
    ∃ ts, canonItems L items = .ok ts := by
  induction items with
  | nil => exact ⟨[], rfl⟩
  | cons v items ih =>
    obtain ⟨⟨t, ht⟩, hitems⟩ := List.forall_mem_cons.1 h
    obtain ⟨ts, hts⟩ := ih hitems
    rw [canonItems, ht, hts]
    exact ⟨t :: ts, rfl⟩

private theorem canonMembers_ok {members : List (Str × PyVal)} (h : ∀ p ∈ members, ∃ text, canon L p.2 = .ok text) :
    ∃ ts, canonMembers L members = .ok ts := by
  induction members with
  | nil => exact ⟨[], rfl⟩
  | cons p members ih =>
    obtain ⟨name, v⟩ := p
    obtain ⟨⟨t, ht⟩, hmembers⟩ := List.forall_mem_cons.1 h
    obtain ⟨ts, hts⟩ := ih hmembers
    dsimp only at ht
    rw [canonMembers, ht, hts]
    exact ⟨(name, t) :: ts, rfl⟩

/-- A clear value has a text. -/
theorem canon_ok {v : PyVal} (hv : v.isClear = true) : ∃ text, canon L v = .ok text := by
  induction v using PyVal.induction with
  | list items ih =>
    have hitems := clearItems_iff.1 hv
    obtain ⟨ts, hts⟩ := canonItems_ok fun v hmem => ih v hmem (hitems v hmem)
    rw [canon, hts]
    exact ⟨_, rfl⟩
  | tuple items ih =>
    have hitems := clearItems_iff.1 hv
    obtain ⟨ts, hts⟩ := canonItems_ok fun v hmem => ih v hmem (hitems v hmem)
    rw [canon, hts]
    exact ⟨_, rfl⟩
  | dict frozen members ih =>
    obtain ⟨-, hmembers⟩ := clear_dict hv
    obtain ⟨ts, hts⟩ := canonMembers_ok fun p hp => ih p hp (hmembers p hp).2
    rw [canon, hts]
    exact ⟨_, rfl⟩
  | other => cases hv
  | _ => exact ⟨_, rfl⟩

private theorem map_fst_of_texts {members : List (Str × PyVal)} {ts : List (Str × Bytes)}
    (h : List.Forall₂ (MemberText L) members ts) : members.map Prod.fst = ts.map Prod.fst := by
  induction h with
  | nil => rfl
  | cons hpq _ ih => rw [List.map_cons, List.map_cons, hpq.1, ih]

private theorem canonItems_reread {items : List PyVal} (h : ∀ v ∈ items, canon L v.reread = canon L v) :
    canonItems L (PyVal.rereadItems items) = canonItems L items := by
  induction items with
  | nil => rfl
  | cons v items ih =>
    obtain ⟨hv, hitems⟩ := List.forall_mem_cons.1 h
    rw [PyVal.rereadItems, canonItems, canonItems, hv, ih hitems]

private theorem canonMembers_reread {members : List (Str × PyVal)}
    (h : ∀ p ∈ members, canon L p.2.reread = canon L p.2) :
    canonMembers L (PyVal.rereadMembers members) = canonMembers L members := by
  induction members with
  | nil => rfl
  | cons p members ih =>
    obtain ⟨name, v⟩ := p
    obtain ⟨hv, hmembers⟩ := List.forall_mem_cons.1 h
    dsimp only at hv
    rw [PyVal.rereadMembers, canonMembers, canonMembers, hv, ih hmembers]

/-- What is read of the text of a value has that text. -/
theorem canon_reread {v : PyVal} (hv : v.isClear = true) : canon L v.reread = canon L v := by
  induction v using PyVal.induction with
  | list items ih =>
    have hitems := clearItems_iff.1 hv
    rw [PyVal.reread, canon, canon, canonItems_reread fun v hmem => ih v hmem (hitems v hmem)]
  | tuple items ih =>
    have hitems := clearItems_iff.1 hv
    rw [PyVal.reread, canon, canon, canonItems_reread fun v hmem => ih v hmem (hitems v hmem)]
  | dict frozen members ih =>
    obtain ⟨hkeys, hmembers⟩ := clear_dict hv
    have hreread := canonMembers_reread fun p hp => ih p hp (hmembers p hp).2
    obtain ⟨ts, hts⟩ := canonMembers_ok fun p hp => canon_ok (hmembers p hp).2
    have hsorted : canonMembers L (sortItems (PyVal.rereadMembers members)) = .ok (sortItems ts) :=
      canonMembers_iff.2 (sortItems_forall₂ (fun p q h => h.1) (canonMembers_iff.1 (hreread.trans hts)))
    have hnames : ts.map Prod.fst = members.map Prod.fst := (map_fst_of_texts (canonMembers_iff.1 hts)).symm
    have hfixed : sortItems (sortItems ts) = sortItems ts := by
      apply sortItems_of_increasing
      apply sortItems_increasing
      rw [hnames]
      exact hkeys
    rw [PyVal.reread, canon, canon, hsorted, hts, Except.map, Except.map, hfixed]
  | _ => rfl

end

/-- A library that writes a float as a quotient. -/
def quotientLibrary : Library where
  loads _ := .error .malformedJson
  floatRepr
    | .finite negative magnitude => bytes (if negative then "-" else "+") ++
        (Json.decimalInt magnitude.num ++ 0x2E :: Json.decimal magnitude.den)
    | _ => []
  sha256 text := text

private theorem quotientLibrary_floatTexts : FloatTexts quotientLibrary where
  number negative magnitude := by
    intro b hb
    have hdigit : ∀ c ∈ digitBytes, c ∈ numberBytes := fun c hc => List.mem_append_left _ hc
    have hsign : ∀ c ∈ bytes (if negative then "-" else "+"), c ∈ numberBytes := by
      cases negative
      · exact List.forall_mem_singleton.2 (by decide)
      · exact List.forall_mem_singleton.2 (by decide)
    rcases List.mem_append.1 hb with hb | hb
    · exact hsign b hb
    rcases List.mem_append.1 hb with hb | hb
    · exact hdigit b (decimalInt_digits _ b hb)
    rcases List.mem_cons.1 hb with rfl | hb
    · decide
    · exact hdigit b (decimal_digits _ b hb).1
  fraction negative magnitude :=
    ⟨0x2E, List.mem_append_right _ (List.mem_append_right _ List.mem_cons_self), by decide⟩
  distinct negative magnitude negative' magnitude' := by
    intro h
    have hdot : ∀ x : Bytes, StopsAt (fun b => b ∉ digitBytes) (0x2E :: x) := fun x => .cons (by decide) x
    have hboth : negative = negative' ∧ Json.decimalInt magnitude.num ++ 0x2E :: Json.decimal magnitude.den =
        Json.decimalInt magnitude'.num ++ 0x2E :: Json.decimal magnitude'.den := by
      cases negative <;> cases negative'
      · exact ⟨rfl, (List.cons.inj h).2⟩
      · exact absurd (List.cons.inj h).1 (by decide)
      · exact absurd (List.cons.inj h).1 (by decide)
      · exact ⟨rfl, (List.cons.inj h).2⟩
    obtain ⟨hsign, htext⟩ := hboth
    obtain ⟨hnum, hrest⟩ := append_inj_of_run (decimalInt_digits _) (decimalInt_digits _) (hdot _) (hdot _) htext
    have hden := decimal_inj (List.cons.inj hrest).2
    exact ⟨hsign, Rat.ext (decimalInt_inj hnum) hden⟩

def swappedValue : PyVal :=
  .dict true [(chars "b", .tuple [.int 1, .none]), (chars "a", .str (chars "x\n"))]

def orderedValue : PyVal :=
  .dict false [(chars "a", .str (chars "x\n")), (chars "b", .list [.int 1, .none])]

end NativeMcp.Agent
