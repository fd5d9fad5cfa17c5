import NativeMcp.Lib.Utf8

/-!
# The JSON values of the native server

`nlohmann::json` values as the server builds and serializes them: an object is a `std::map`, kept as a list of
members in increasing key order; strings and keys are arbitrary bytes; a floating-point number is represented by
the text it is printed as.  `dump` is `Json::dump()` with its default strict error handler, `none` where it throws:
it succeeds exactly on the values all of whose strings are UTF-8 (`dump_isSome`), and writes UTF-8 (`valid_dump`).
-/

namespace NativeMcp

/-- The bytes of a `std::string`. -/
abbrev Bytes := List UInt8

export Utf8 (bytes valid_bytes)

/-- `nlohmann::json`. -/
inductive Json where
  | null
  | boolean (b : Bool)
  | numberInteger (i : Int)
  | numberUnsigned (n : Nat)
  | numberFloat (text : String)
  | string (s : Bytes)
  | array (items : List Json)
  | object (members : List (Bytes × Json))
  deriving Inhabited

namespace Json

/-- The order of `std::string`. -/
def keyLess : Bytes → Bytes → Bool
  | [], [] => false
  | [], _ :: _ => true
  | _ :: _, [] => false
  | a :: l, b :: l' => a < b || (a == b && keyLess l l')

/-- `std::map::emplace`: an existing key keeps its value. -/
def emplace (k : Bytes) (v : Json) : List (Bytes × Json) → List (Bytes × Json)
  | [] => [(k, v)]
  | (k', v') :: l =>
    if k = k' then (k', v') :: l
    else if keyLess k k' then (k, v) :: (k', v') :: l
    else (k', v') :: emplace k v l

/-- The object of an initializer list. -/
def ofPairs (l : List (String × Json)) : Json :=
  .object (l.foldl (fun m p => emplace (bytes p.1) p.2 m) [])

/-- A string literal. -/
def text (s : String) : Json := .string (bytes s)

/-- `Json::array({...})` of string literals. -/
def texts (l : List String) : Json := .array (l.map text)

/-- `find`: the value of a key, `none` for `end()` and for a value that is no object. -/
def find? (j : Json) (key : String) : Option Json :=
  match j with
  | .object m => m.lookup (bytes key)
  | _ => none

def contains (j : Json) (key : String) : Bool := (j.find? key).isSome

def isObject : Json → Bool
  | .object _ => true
  | _ => false

def isString : Json → Bool
  | .string _ => true
  | _ => false

/-! ### The members of an object

Members are kept in key order, which makes the value of a key independent of the order of insertion: a key has the
value it was first given (`find?_ofPairs`). -/

theorem keyLess_iff : ∀ {k k' : Bytes}, keyLess k k' = true ↔ k < k'
  | [], [] => by simp [keyLess]
  | [], _ :: _ => by simp [keyLess]
  | _ :: _, [] => by simp [keyLess]
  | a :: l, b :: l' => by
    rw [keyLess, List.cons_lt_cons_iff, ← @keyLess_iff l l']
    simp

/-- The members are in increasing key order. -/
def Sorted (m : List (Bytes × Json)) : Prop := m.Pairwise fun p q => p.1 < q.1

private theorem lt_of_not_lt {k k' : Bytes} (h : ¬ k < k') (hne : k ≠ k') : k' < k := by
  rcases Std.lt_trichotomy k k' with hlt | heq | hgt
  · exact absurd hlt h
  · exact absurd heq hne
  · exact hgt

private theorem lookup_eq_none {m : List (Bytes × Json)} {k : Bytes} (h : ∀ p ∈ m, k < p.1) :
    m.lookup k = none := by
  induction m with
  | nil => rfl
  | cons p m ih =>
    have hne : k ≠ p.1 := fun e => List.lt_irrefl k (e ▸ h p (by simp))
    rw [List.lookup_cons, beq_false_of_ne hne]
    exact ih fun q hq => h q (by simp [hq])

theorem nodup_of_sorted {m : List (Bytes × Json)} (h : Sorted m) : (m.map Prod.fst).Nodup := by
  rw [List.nodup_iff_pairwise_ne, List.pairwise_map]
  refine List.Pairwise.imp ?_ h
  intro p q hlt he
  rw [he] at hlt
  exact List.lt_irrefl _ hlt

theorem mem_of_lookup {m : List (Bytes × Json)} {k : Bytes} {v : Json} (h : m.lookup k = some v) : (k, v) ∈ m := by
  induction m with
  | nil => cases h
  | cons p m ih =>
    rw [List.lookup_cons] at h
    by_cases hk : k = p.1
    · rw [hk, beq_self_eq_true] at h
      rw [hk, ← Option.some.inj h]
      exact List.mem_cons_self
    · rw [beq_false_of_ne hk] at h
      exact List.mem_cons_of_mem p (ih h)

theorem mem_emplace {k : Bytes} {v : Json} {m : List (Bytes × Json)} {q : Bytes × Json}
    (h : q ∈ emplace k v m) : q = (k, v) ∨ q ∈ m := by
  induction m with
  | nil => exact .inl (by simpa [emplace] using h)
  | cons p m ih =>
    unfold emplace at h
    split at h
    · exact .inr h
    split at h
    · simpa using h
    · rcases List.mem_cons.1 h with rfl | h
      · simp
      · rcases ih h with h | h <;> simp [h]

theorem sorted_emplace {k : Bytes} {v : Json} {m : List (Bytes × Json)} (hm : Sorted m) :
    Sorted (emplace k v m) := by
  induction m with
  | nil => simp [emplace, Sorted]
  | cons p m ih =>
    obtain ⟨hp, hm'⟩ := List.pairwise_cons.1 hm
    unfold emplace
    split
    · exact hm
    · rename_i hne
      split
      · rename_i hlt
        have hlt' : k < p.1 := keyLess_iff.1 hlt
        refine List.pairwise_cons.2 ⟨fun q hq => ?_, hm⟩
        rcases List.mem_cons.1 hq with rfl | hq
        · exact hlt'
        · exact List.lt_trans hlt' (hp q hq)
      · rename_i hlt
        have hgt : p.1 < k := lt_of_not_lt (mt keyLess_iff.2 hlt) hne
        refine List.pairwise_cons.2 ⟨fun q hq => ?_, ih hm'⟩
        rcases mem_emplace hq with rfl | hq
        · exact hgt
        · exact hp q hq

theorem lookup_emplace {k : Bytes} {v : Json} {m : List (Bytes × Json)} (hm : Sorted m) (x : Bytes) :
    (emplace k v m).lookup x = (m.lookup x).or (if x = k then some v else none) := by
  induction m with
  | nil =>
    by_cases hx : x = k
    · simp [emplace, hx]
    · simp [emplace, List.lookup_cons, hx, beq_false_of_ne hx]
  | cons p m ih =>
    obtain ⟨k', v'⟩ := p
    obtain ⟨hp, hm'⟩ := List.pairwise_cons.1 hm
    unfold emplace
    split
    · rename_i hk
      by_cases hx : x = k
      · rw [hx, hk]
        simp
      · simp [hx]
    split
    · rename_i hlt
      have hlt' : k < k' := keyLess_iff.1 hlt
      by_cases hx : x = k
      · have hn : List.lookup k ((k', v') :: m) = none := lookup_eq_none fun q hq => by
          rcases List.mem_cons.1 hq with rfl | hq
          · exact hlt'
          · exact List.lt_trans hlt' (hp q hq)
        rw [hx, hn]
        simp
      · have hx' : (x == k) = false := beq_false_of_ne hx
        rw [List.lookup_cons, hx', if_neg hx, Option.or_none]
    · rw [List.lookup_cons, List.lookup_cons, ih hm']
      split <;> simp

@[simp] theorem isObject_ofPairs (l : List (String × Json)) : (ofPairs l).isObject = true := rfl

/-- The value of a key that may not be text. -/
def member? (j : Json) (k : Bytes) : Option Json :=
  match j with
  | .object m => m.lookup k
  | _ => none

theorem find?_eq_member? (j : Json) (key : String) : j.find? key = j.member? (bytes key) := by
  cases j <;> rfl

theorem member?_ofPairs (l : List (String × Json)) (k : Bytes) :
    (ofPairs l).member? k = (l.find? fun p => bytes p.1 == k).map (·.2) := by
  have go : ∀ (l : List (String × Json)) (m : List (Bytes × Json)), Sorted m →
      (l.foldl (fun m p => emplace (bytes p.1) p.2 m) m).lookup k =
        (m.lookup k).or ((l.find? fun p => bytes p.1 == k).map (·.2)) := by
    intro l
    induction l with
    | nil => intro m _; simp
    | cons p l ih =>
      intro m hm
      rw [List.foldl_cons, ih _ (sorted_emplace hm), lookup_emplace hm, Option.or_assoc, List.find?_cons]
      by_cases h : k = bytes p.1
      · simp [h]
      · simp [h, beq_false_of_ne (Ne.symm h)]
  rw [ofPairs, member?, go l [] List.Pairwise.nil]
  rfl

@[simp] theorem find?_ofPairs (l : List (String × Json)) (key : String) : (ofPairs l).find? key = l.lookup key := by
  rw [find?_eq_member?, member?_ofPairs]
  induction l with
  | nil => rfl
  | cons p l ih =>
    rw [List.find?_cons, List.lookup_cons]
    by_cases h : key = p.1
    · simp [h]
    · have hb : (bytes p.1 == bytes key) = false := beq_false_of_ne fun e => h (Utf8.bytes_inj.1 e).symm
      rw [hb, beq_false_of_ne h]
      exact ih

/-! ### Serialization -/

def hexDigit (n : Nat) : UInt8 := UInt8.ofNat (if n < 10 then 0x30 + n else 0x57 + n)

/-- What the serializer writes for one byte of a valid string. -/
def escapeByte (b : UInt8) : Bytes :=
  if b = 0x22 then bytes "\\\""
  else if b = 0x5C then bytes "\\\\"
  else if b = 0x08 then bytes "\\b"
  else if b = 0x09 then bytes "\\t"
  else if b = 0x0A then bytes "\\n"
  else if b = 0x0C then bytes "\\f"
  else if b = 0x0D then bytes "\\r"
  else if b < 0x20 then bytes "\\u00" ++ [hexDigit (b.toNat / 16), hexDigit (b.toNat % 16)]
  else [b]

/-- `dump_escaped`: throws on a string that is not UTF-8. -/
def dumpString (s : Bytes) : Option Bytes :=
  if Utf8.valid s then some (bytes "\"" ++ s.flatMap escapeByte ++ bytes "\"") else none

def decimal (n : Nat) : Bytes := (Nat.toDigits 10 n).map fun c => UInt8.ofNat c.toNat

def decimalInt : Int → Bytes
  | .ofNat n => decimal n
  | .negSucc n => bytes "-" ++ decimal (n + 1)

/-- The texts joined by commas. -/
def commaSeparated : List Bytes → Bytes
  | [] => []
  | [t] => t
  | t :: ts => t ++ bytes "," ++ commaSeparated ts

mutual

/-- `dump()`. -/
def dump : Json → Option Bytes
  | .null => some (bytes "null")
  | .boolean b => some (bytes (if b then "true" else "false"))
  | .numberInteger i => some (decimalInt i)
  | .numberUnsigned n => some (decimal n)
  | .numberFloat t => some (bytes t)
  | .string s => dumpString s
  | .array items => (dumpItems items).map fun ts => bytes "[" ++ commaSeparated ts ++ bytes "]"
  | .object members => (dumpMembers members).map fun ts => bytes "\x7b" ++ commaSeparated ts ++ bytes "\x7d"

def dumpItems : List Json → Option (List Bytes)
  | [] => some []
  | v :: l => (dump v).bind fun t => (dumpItems l).map (t :: ·)

def dumpMembers : List (Bytes × Json) → Option (List Bytes)
  | [] => some []
  | (k, v) :: l =>
    (dumpString k).bind fun tk => (dump v).bind fun t =>
      (dumpMembers l).map ((tk ++ bytes ":" ++ t) :: ·)

end

mutual

/-- Every string of the value, keys included, is UTF-8. -/
def isUtf8 : Json → Bool
  | .string s => Utf8.valid s
  | .array items => isUtf8Items items
  | .object members => isUtf8Members members
  | _ => true

def isUtf8Items : List Json → Bool
  | [] => true
  | v :: l => isUtf8 v && isUtf8Items l

def isUtf8Members : List (Bytes × Json) → Bool
  | [] => true
  | (k, v) :: l => Utf8.valid k && isUtf8 v && isUtf8Members l

end

@[simp] theorem isUtf8_null : isUtf8 .null = true := rfl
@[simp] theorem isUtf8_boolean (b : Bool) : isUtf8 (.boolean b) = true := rfl
@[simp] theorem isUtf8_numberInteger (i : Int) : isUtf8 (.numberInteger i) = true := rfl
@[simp] theorem isUtf8_numberUnsigned (n : Nat) : isUtf8 (.numberUnsigned n) = true := rfl

theorem dumpString_isSome (s : Bytes) : (dumpString s).isSome = Utf8.valid s := by
  unfold dumpString
  split <;> simp_all

mutual

/-- `dump()` throws exactly when some string is not UTF-8. -/
theorem dump_isSome : ∀ j : Json, (dump j).isSome = isUtf8 j
  | .null | .boolean _ | .numberInteger _ | .numberUnsigned _ | .numberFloat _ => by simp [dump, isUtf8]
  | .string s => by simp [dump, isUtf8, dumpString_isSome]
  | .array items => by simp [dump, isUtf8, dumpItems_isSome items]
  | .object members => by simp [dump, isUtf8, dumpMembers_isSome members]

theorem dumpItems_isSome : ∀ l : List Json, (dumpItems l).isSome = isUtf8Items l
  | [] => rfl
  | v :: l => by
    have hv := dump_isSome v
    have hl := dumpItems_isSome l
    rw [isUtf8Items, ← hv, ← hl, dumpItems]
    cases dump v <;> simp

theorem dumpMembers_isSome : ∀ l : List (Bytes × Json), (dumpMembers l).isSome = isUtf8Members l
  | [] => rfl
  | (k, v) :: l => by
    have hv := dump_isSome v
    have hl := dumpMembers_isSome l
    rw [isUtf8Members, ← dumpString_isSome k, ← hv, ← hl, dumpMembers]
    cases dumpString k <;> cases dump v <;> simp

end

theorem exists_dump {j : Json} (h : j.isUtf8 = true) : ∃ t, j.dump = some t :=
  Option.isSome_iff_exists.1 ((dump_isSome j).trans h)

/-! ### Serialized texts are UTF-8 -/

private theorem ascii_escapeByte {b : UInt8} (h : b.toNat < 0x80) : ∀ c ∈ escapeByte b, c.toNat < 0x80 := by
  have all : ∀ n < 128, (escapeByte (UInt8.ofNat n)).all (fun c => c.toNat < 0x80) = true := by decide +kernel
  have hb := all b.toNat h
  rw [UInt8.ofNat_toNat, List.all_eq_true] at hb
  exact fun c hc => of_decide_eq_true (hb c hc)

private theorem escapeByte_of_le {b : UInt8} (h : 0x80 ≤ b.toNat) : escapeByte b = [b] := by
  have all : ∀ n < 256, 128 ≤ n → escapeByte (UInt8.ofNat n) = [UInt8.ofNat n] := by decide +kernel
  have hb := all b.toNat b.toNat_lt h
  rwa [UInt8.ofNat_toNat] at hb

theorem valid_dumpString {s t : Bytes} (h : dumpString s = some t) : Utf8.valid t = true := by
  unfold dumpString at h
  split at h
  · rename_i hs
    cases h
    rw [List.append_assoc, Utf8.valid_append (valid_bytes _),
      Utf8.valid_append (Utf8.valid_flatMap (fun b hb => ascii_escapeByte hb) (fun b hb => escapeByte_of_le hb) hs)]
    exact valid_bytes _
  · cases h

theorem valid_decimal (n : Nat) : Utf8.valid (decimal n) = true := by
  have h : ∀ b ∈ decimal n, b.toNat < 0x80 := by
    intro b hb
    obtain ⟨c, hc, rfl⟩ := List.mem_map.1 hb
    have hd := Nat.isDigit_of_mem_toDigits (by decide) (by decide) hc
    have hle : c.toNat ≤ 57 := by
      simp only [Char.isDigit, Bool.and_eq_true, decide_eq_true_eq] at hd
      exact hd.2
    rw [UInt8.toNat_ofNat']
    omega
  simpa using Utf8.valid_ascii_append h []

theorem valid_commaSeparated {ts : List Bytes} (h : ∀ t ∈ ts, Utf8.valid t = true) :
    Utf8.valid (commaSeparated ts) = true := by
  induction ts with
  | nil => rfl
  | cons t ts ih =>
    have ih' := ih fun u hu => h u (by simp [hu])
    cases ts with
    | nil => exact h t (by simp)
    | cons u us =>
      rw [commaSeparated, List.append_assoc, Utf8.valid_append (h t (by simp)), Utf8.valid_append (valid_bytes _), ih']
      simp

private theorem valid_bracketed {t : Bytes} (a b : String) (h : Utf8.valid t = true) :
    Utf8.valid (bytes a ++ t ++ bytes b) = true := by
  rw [List.append_assoc, Utf8.valid_append (valid_bytes _), Utf8.valid_append h, valid_bytes]

mutual

/-- `dump()` writes UTF-8. -/
theorem valid_dump : ∀ {j : Json} {t : Bytes}, j.dump = some t → Utf8.valid t = true
  | .null, _, h | .boolean _, _, h | .numberFloat _, _, h => by cases h; exact valid_bytes _
  | .numberUnsigned n, _, h => by cases h; exact valid_decimal n
  | .numberInteger (.ofNat n), _, h => by cases h; exact valid_decimal n
  | .numberInteger (.negSucc n), _, h => by
    cases h
    rw [decimalInt, Utf8.valid_append (valid_bytes _), valid_decimal]
  | .string s, _, h => valid_dumpString h
  | .array items, _, h => by
    rw [dump, Option.map_eq_some_iff] at h
    obtain ⟨ts, hts, rfl⟩ := h
    exact valid_bracketed _ _ (valid_commaSeparated (valid_dumpItems hts))
  | .object members, _, h => by
    rw [dump, Option.map_eq_some_iff] at h
    obtain ⟨ts, hts, rfl⟩ := h
    exact valid_bracketed _ _ (valid_commaSeparated (valid_dumpMembers hts))

theorem valid_dumpItems : ∀ {l : List Json} {ts : List Bytes}, dumpItems l = some ts →
    ∀ t ∈ ts, Utf8.valid t = true
  | [], _, h => by cases h; simp
  | v :: l, _, h => by
    rw [dumpItems, Option.bind_eq_some_iff] at h
    obtain ⟨t, ht, h⟩ := h
    obtain ⟨ts, hts, rfl⟩ := Option.map_eq_some_iff.1 h
    exact List.forall_mem_cons.2 ⟨valid_dump ht, valid_dumpItems hts⟩

theorem valid_dumpMembers : ∀ {l : List (Bytes × Json)} {ts : List Bytes}, dumpMembers l = some ts →
    ∀ t ∈ ts, Utf8.valid t = true
  | [], _, h => by cases h; simp
  | (k, v) :: l, _, h => by
    rw [dumpMembers, Option.bind_eq_some_iff] at h
    obtain ⟨tk, htk, h⟩ := h
    obtain ⟨t, ht, h⟩ := Option.bind_eq_some_iff.1 h
    obtain ⟨ts, hts, rfl⟩ := Option.map_eq_some_iff.1 h
    refine List.forall_mem_cons.2 ⟨?_, valid_dumpMembers hts⟩
    rw [List.append_assoc, Utf8.valid_append (valid_dumpString htk), Utf8.valid_append (valid_bytes _), valid_dump ht]

end

/-! ### UTF-8 of members and of built objects -/

theorem isUtf8_of_lookup {m : List (Bytes × Json)} {k : Bytes} {v : Json} (hm : isUtf8Members m = true)
    (h : m.lookup k = some v) : v.isUtf8 = true := by
  induction m with
  | nil => cases h
  | cons p m ih =>
    obtain ⟨k', v'⟩ := p
    simp only [isUtf8Members, Bool.and_eq_true] at hm
    rw [List.lookup_cons] at h
    split at h
    · cases h; exact hm.1.2
    · exact ih hm.2 h

theorem isUtf8_of_find? {j v : Json} {key : String} (hj : j.isUtf8 = true) (h : j.find? key = some v) :
    v.isUtf8 = true := by
  cases j with
  | object m => exact isUtf8_of_lookup (by simpa [isUtf8] using hj) h
  | _ => cases h

theorem isUtf8Members_emplace {m : List (Bytes × Json)} {k : Bytes} {v : Json} (hk : Utf8.valid k = true)
    (hv : v.isUtf8 = true) (hm : isUtf8Members m = true) : isUtf8Members (emplace k v m) = true := by
  induction m with
  | nil => simp [emplace, isUtf8Members, hk, hv]
  | cons p m ih =>
    obtain ⟨k', v'⟩ := p
    unfold emplace
    simp only [isUtf8Members, Bool.and_eq_true] at hm
    split
    · simp [isUtf8Members, hm]
    split
    · simp [isUtf8Members, hm, hk, hv]
    · simp [isUtf8Members, hm, ih hm.2]

theorem isUtf8_ofPairs {l : List (String × Json)} (h : ∀ p ∈ l, p.2.isUtf8 = true) :
    (ofPairs l).isUtf8 = true := by
  have key : ∀ (l : List (String × Json)) (m : List (Bytes × Json)), (∀ p ∈ l, p.2.isUtf8 = true) →
      isUtf8Members m = true → isUtf8Members (l.foldl (fun m p => emplace (bytes p.1) p.2 m) m) = true := by
    intro l
    induction l with
    | nil => intro m _ hm; exact hm
    | cons p l ih =>
      intro m h hm
      exact ih _ (fun q hq => h q (by simp [hq]))
        (isUtf8Members_emplace (valid_bytes p.1) (h p (by simp)) hm)
  rw [ofPairs, isUtf8]
  exact key l [] h rfl

@[simp] theorem isUtf8_text (s : String) : (text s).isUtf8 = true := by simp [text, isUtf8, valid_bytes]

@[simp] theorem isUtf8_texts (l : List String) : (texts l).isUtf8 = true := by
  rw [texts, isUtf8]
  induction l with
  | nil => rfl
  | cons s l ih => rw [List.map_cons, isUtf8Items, isUtf8_text, ih]; rfl

/-! ### The text of a member -/

private theorem one_le_length_escapeByte (b : UInt8) : 1 ≤ (escapeByte b).length := by
  have all : ∀ n < 256, 1 ≤ (escapeByte (UInt8.ofNat n)).length := by decide +kernel
  have hb := all b.toNat b.toNat_lt
  rwa [UInt8.ofNat_toNat] at hb

theorem length_le_flatMap_escapeByte (s : Bytes) : s.length ≤ (s.flatMap escapeByte).length := by
  induction s with
  | nil => simp
  | cons b s ih =>
    have hb := one_le_length_escapeByte b
    rw [List.flatMap_cons, List.length_append, List.length_cons]
    omega

theorem isInfix_commaSeparated {ts : List Bytes} {t : Bytes} (h : t ∈ ts) : t <:+: commaSeparated ts := by
  induction ts with
  | nil => cases h
  | cons u us ih =>
    cases us with
    | nil =>
      obtain rfl := List.mem_singleton.1 h
      exact List.infix_rfl
    | cons w ws =>
      rw [commaSeparated]
      rcases List.mem_cons.1 h with rfl | h
      · exact ((List.prefix_append t (bytes ",")).isInfix).trans (List.prefix_append _ _).isInfix
      · exact (ih h).trans (List.suffix_append _ _).isInfix
      · simp

private theorem mem_dumpMembers {m : List (Bytes × Json)} {k : Bytes} {v : Json} {ts : List Bytes}
    (hd : dumpMembers m = some ts) (h : m.lookup k = some v) :
    ∃ tk t, dumpString k = some tk ∧ v.dump = some t ∧ tk ++ bytes ":" ++ t ∈ ts := by
  induction m generalizing ts with
  | nil => cases h
  | cons p m ih =>
    rw [dumpMembers, Option.bind_eq_some_iff] at hd
    obtain ⟨tk, htk, hd⟩ := hd
    obtain ⟨t, ht, hd⟩ := Option.bind_eq_some_iff.1 hd
    obtain ⟨us, hus, rfl⟩ := Option.map_eq_some_iff.1 hd
    rw [List.lookup_cons] at h
    split at h
    · rename_i hk
      cases h
      exact ⟨tk, t, by rw [eq_of_beq hk, htk], ht, by simp⟩
    · obtain ⟨tk', t', hk', ht', hmem⟩ := ih hus h
      exact ⟨tk', t', hk', ht', by simp only [List.mem_cons, hmem, or_true]⟩

/-- The text of an object contains the texts of its members. -/
theorem isInfix_dump_of_find? {j v : Json} {key : String} {t : Bytes} (hd : j.dump = some t)
    (hf : j.find? key = some v) :
    ∃ tk tv, dumpString (bytes key) = some tk ∧ v.dump = some tv ∧ (tk ++ bytes ":" ++ tv) <:+: t := by
  cases j with
  | object m =>
    rw [dump, Option.map_eq_some_iff] at hd
    obtain ⟨ts, hts, rfl⟩ := hd
    obtain ⟨tk, tv, hk, hv, hmem⟩ := mem_dumpMembers hts hf
    refine ⟨tk, tv, hk, hv, (isInfix_commaSeparated hmem).trans ?_⟩
    exact (List.suffix_append (bytes "\x7b") _).isInfix.trans (List.prefix_append _ _).isInfix
  | _ => cases hf

theorem length_le_commaSeparated {ts : List Bytes} {t : Bytes} (h : t ∈ ts) :
    t.length ≤ (commaSeparated ts).length := (isInfix_commaSeparated h).length_le

/-- An object's text is longer than a member's by the key, the colon and the braces. -/
theorem length_dump_of_find? {j v : Json} {key : String} {t : Bytes} (hd : j.dump = some t)
    (hf : j.find? key = some v) : ∃ tv, v.dump = some tv ∧ (bytes key).length + 5 + tv.length ≤ t.length := by
  cases j with
  | object m =>
    rw [dump, Option.map_eq_some_iff] at hd
    obtain ⟨ts, hts, rfl⟩ := hd
    obtain ⟨tk, tv, hk, hv, hmem⟩ := mem_dumpMembers hts hf
    refine ⟨tv, hv, ?_⟩
    have hlen := length_le_commaSeparated hmem
    have hkey : (bytes key).length + 2 ≤ tk.length := by
      rw [dumpString, if_pos (valid_bytes key)] at hk
      rw [← Option.some.inj hk]
      have hflat := length_le_flatMap_escapeByte (bytes key)
      have hq : (bytes "\"").length = 1 := by decide +kernel
      simp only [List.length_append, hq]
      omega
    have hc : (bytes ":").length = 1 := by decide +kernel
    have ho : (bytes "\x7b").length = 1 := by decide +kernel
    have he : (bytes "\x7d").length = 1 := by decide +kernel
    simp only [List.length_append, hc, ho, he] at hlen ⊢
    omega
  | _ => cases hf

end Json

end NativeMcp
