import Mathlib.Data.List.Basic
import Mathlib.Tactic.NormNum

/-!
# UTF-8

A recogniser of well-formed UTF-8 (no overlong form, no surrogate, nothing above U+10FFFF), the encoder of code
points, and the facts a serializer needs: the encoding of a scalar value is accepted (`valid_encodeChar`), and
accepted texts are closed under concatenation and under adding or removing ASCII bytes at either end
(`valid_append`, `valid_ascii_append`, `valid_append_ascii`).
-/

namespace Utf8

/-- What a started character still needs: the number of bytes and the range of the next one. -/
structure Pending where
  need : Nat
  low : Nat
  high : Nat
  deriving DecidableEq, Repr

/-- Between two characters. -/
def Pending.none : Pending := ⟨0, 0x80, 0xBF⟩

/-- What a character needs after its first byte. -/
def lead (b : Nat) : Option Pending :=
  if b < 0x80 then some .none
  else if b < 0xC2 then .none
  else if b < 0xE0 then some ⟨1, 0x80, 0xBF⟩
  else if b < 0xF0 then some ⟨2, if b = 0xE0 then 0xA0 else 0x80, if b = 0xED then 0x9F else 0xBF⟩
  else if b < 0xF5 then some ⟨3, if b = 0xF0 then 0x90 else 0x80, if b = 0xF4 then 0x8F else 0xBF⟩
  else .none

/-- Feeds one byte. -/
def feed (p : Pending) (b : Nat) : Option Pending :=
  if p.need = 0 then lead b
  else if p.low ≤ b ∧ b ≤ p.high then some ⟨p.need - 1, 0x80, 0xBF⟩
  else .none

/-- Feeds a byte sequence; `none` once a byte is refused. -/
def feedAll : Pending → List UInt8 → Option Pending
  | p, [] => some p
  | p, b :: l => (feed p b.toNat).bind fun p' => feedAll p' l

/-- A byte sequence is well-formed UTF-8. -/
def valid (l : List UInt8) : Bool := (feedAll .none l).any fun p => p.need == 0

@[simp] theorem valid_nil : valid [] = true := rfl

theorem feedAll_append (p : Pending) (l l' : List UInt8) :
    feedAll p (l ++ l') = (feedAll p l).bind fun p' => feedAll p' l' := by
  induction l generalizing p with
  | nil => rfl
  | cons b l ih =>
    simp only [List.cons_append, feedAll, Option.bind_assoc]
    congr 1
    funext p'
    exact ih p'

/-- Only the number of missing bytes matters between characters. -/
private theorem feedAll_congr {p : Pending} (h : p.need = 0) {l : List UInt8} (hl : l ≠ []) :
    feedAll p l = feedAll .none l := by
  cases l with
  | nil => exact absurd rfl hl
  | cons b l => simp [feedAll, feed, h, Pending.none]

theorem valid_append {l : List UInt8} (h : valid l = true) (l' : List UInt8) : valid (l ++ l') = valid l' := by
  unfold valid at h ⊢
  rw [feedAll_append]
  cases hp : feedAll .none l with
  | none => simp [hp] at h
  | some p =>
    have hn : p.need = 0 := by simpa [hp] using h
    rw [Option.bind_some]
    by_cases hl : l' = []
    · subst hl; simp [feedAll, hn, Pending.none]
    · rw [feedAll_congr hn hl]

/-- A byte below 0x80 is a character of its own, and is refused inside a character. -/
private theorem feed_ascii {b : Nat} (h : b < 0x80) {p : Pending} (hp : 0x80 ≤ p.low) :
    feed p b = if p.need = 0 then some .none else none := by
  unfold feed lead
  split
  · simp
  · rw [if_neg (by omega)]

private theorem low_of_lead {p : Pending} {b : Nat} (h : lead b = some p) : 0x80 ≤ p.low := by
  unfold lead at h
  repeat' split at h
  all_goals cases h <;> decide

private theorem low_of_feed {p p' : Pending} {b : Nat} (h : feed p b = some p') : 0x80 ≤ p'.low := by
  unfold feed at h
  split at h
  · exact low_of_lead h
  · split at h <;> cases h
    exact Nat.le_refl 0x80

private theorem low_of_feedAll {p p' : Pending} {l : List UInt8} (hp : 0x80 ≤ p.low)
    (h : feedAll p l = some p') : 0x80 ≤ p'.low := by
  induction l generalizing p with
  | nil => cases h; exact hp
  | cons b l ih =>
    rw [feedAll, Option.bind_eq_some_iff] at h
    obtain ⟨q, hq, h⟩ := h
    exact ih (low_of_feed hq) h

theorem valid_ascii_cons {b : UInt8} (h : b.toNat < 0x80) (l : List UInt8) : valid (b :: l) = valid l := by
  unfold valid
  rw [feedAll, feed_ascii h (by decide)]
  rfl

theorem valid_ascii_append {a : List UInt8} (h : ∀ b ∈ a, b.toNat < 0x80) (l : List UInt8) :
    valid (a ++ l) = valid l := by
  induction a with
  | nil => rfl
  | cons b a ih =>
    rw [List.cons_append, valid_ascii_cons (h b (by simp)), ih fun c hc => h c (by simp [hc])]

private theorem valid_append_byte {b : UInt8} (h : b.toNat < 0x80) (l : List UInt8) :
    valid (l ++ [b]) = valid l := by
  unfold valid
  rw [feedAll_append]
  cases hp : feedAll .none l with
  | none => rfl
  | some p =>
    simp only [Option.bind_some, feedAll, feed_ascii h (low_of_feedAll (by decide) hp)]
    by_cases hn : p.need = 0
    · simp [hn, Pending.none]
    · simp [hn]

theorem valid_append_ascii {a : List UInt8} (h : ∀ b ∈ a, b.toNat < 0x80) (l : List UInt8) :
    valid (l ++ a) = valid l := by
  induction a generalizing l with
  | nil => simp
  | cons b a ih =>
    rw [List.append_cons, ih (fun c hc => h c (by simp [hc])), valid_append_byte (h b (by simp))]

/-! ### Encoding -/

private theorem feedAll_asciis {p : Pending} (hp : p.need = 0) {a : List UInt8} (h : ∀ b ∈ a, b.toNat < 0x80) :
    ∃ q, feedAll p a = some q ∧ q.need = 0 := by
  induction a generalizing p with
  | nil => exact ⟨p, rfl, hp⟩
  | cons b a ih =>
    obtain ⟨q, hq, hn⟩ := ih (p := .none) rfl fun c hc => h c (by simp [hc])
    have hb : b.toNat < 0x80 := h b (by simp)
    have hf : feed p b.toNat = some .none := by simp [feed, hp, lead, hb]
    exact ⟨q, by rw [feedAll, hf, Option.bind_some, hq], hn⟩

private theorem feedAll_flatMap {f : UInt8 → List UInt8} (ha : ∀ b, b.toNat < 0x80 → ∀ c ∈ f b, c.toNat < 0x80)
    (hb : ∀ b, 0x80 ≤ b.toNat → f b = [b]) {p q : Pending} {l : List UInt8} (hp : 0x80 ≤ p.low)
    (h : feedAll p l = some q) : ∃ q', feedAll p (l.flatMap f) = some q' ∧ q'.need = q.need := by
  induction l generalizing p with
  | nil => exact ⟨q, h, rfl⟩
  | cons b l ih =>
    rw [feedAll, Option.bind_eq_some_iff] at h
    obtain ⟨p', hp', h⟩ := h
    obtain ⟨q', hq', hn⟩ := ih (low_of_feed hp') h
    rw [List.flatMap_cons, feedAll_append]
    by_cases hlt : b.toNat < 0x80
    · -- an ASCII byte stands between characters, and so does what replaces it
      rw [feed_ascii hlt hp] at hp'
      split at hp'
      · rename_i h0
        cases hp'
        obtain ⟨r, hr, hr0⟩ := feedAll_asciis h0 (ha b hlt)
        rw [hr, Option.bind_some]
        by_cases he : l.flatMap f = []
        · rw [he] at hq' ⊢
          cases hq'
          exact ⟨r, rfl, hr0.trans hn⟩
        · exact ⟨q', by rw [feedAll_congr hr0 he, hq'], hn⟩
      · cases hp'
    · rw [hb b (by omega)]
      exact ⟨q', by simp [feedAll, hp', hq'], hn⟩

/-- Replacing ASCII bytes by ASCII texts keeps a text well-formed. -/
theorem valid_flatMap {f : UInt8 → List UInt8} (ha : ∀ b, b.toNat < 0x80 → ∀ c ∈ f b, c.toNat < 0x80)
    (hb : ∀ b, 0x80 ≤ b.toNat → f b = [b]) {l : List UInt8} (h : valid l = true) : valid (l.flatMap f) = true := by
  unfold valid at h ⊢
  cases hp : feedAll .none l with
  | none => simp [hp] at h
  | some q =>
    obtain ⟨q', hq', hn⟩ := feedAll_flatMap ha hb (by decide) hp
    simpa [hq', hn, hp] using h

/-- A code point that is a Unicode scalar value. -/
def IsScalar (c : Nat) : Prop := c < 0xD800 ∨ 0xDFFF < c ∧ c < 0x110000

/-- The UTF-8 encoding of a code point. -/
def encodeChar (c : Nat) : List UInt8 :=
  if c < 0x80 then [UInt8.ofNat c]
  else if c < 0x800 then [UInt8.ofNat (0xC0 + c / 0x40), UInt8.ofNat (0x80 + c % 0x40)]
  else if c < 0x10000 then
    [UInt8.ofNat (0xE0 + c / 0x1000), UInt8.ofNat (0x80 + c / 0x40 % 0x40), UInt8.ofNat (0x80 + c % 0x40)]
  else
    [UInt8.ofNat (0xF0 + c / 0x40000), UInt8.ofNat (0x80 + c / 0x1000 % 0x40),
      UInt8.ofNat (0x80 + c / 0x40 % 0x40), UInt8.ofNat (0x80 + c % 0x40)]

private theorem toNat_ofNat {n : Nat} (h : n < 256) : (UInt8.ofNat n).toNat = n := by
  simp; omega

/-- A first byte. -/
private theorem feedAll_lead {n : Nat} {p : Pending} (hn : n < 256) (h : lead n = some p) (l : List UInt8) :
    feedAll .none (UInt8.ofNat n :: l) = feedAll p l := by
  have hf : feed .none n = some p := h
  rw [feedAll, toNat_ofNat hn, hf, Option.bind_some]

/-- A continuation byte in the allowed range. -/
private theorem feedAll_tail {k low high n : Nat} (hn : n < 256) (hl : low ≤ n) (hh : n ≤ high)
    (l : List UInt8) : feedAll ⟨k + 1, low, high⟩ (UInt8.ofNat n :: l) = feedAll ⟨k, 0x80, 0xBF⟩ l := by
  have hf : feed ⟨k + 1, low, high⟩ n = some ⟨k, 0x80, 0xBF⟩ := by simp [feed, hl, hh]
  rw [feedAll, toNat_ofNat hn, hf, Option.bind_some]

private theorem lead_two {b : Nat} (h : 0xC2 ≤ b) (h' : b < 0xE0) : lead b = some ⟨1, 0x80, 0xBF⟩ := by
  rw [lead, if_neg (by omega), if_neg (by omega), if_pos h']

private theorem lead_three {b : Nat} (h : 0xE0 ≤ b) (h' : b < 0xF0) :
    lead b = some ⟨2, if b = 0xE0 then 0xA0 else 0x80, if b = 0xED then 0x9F else 0xBF⟩ := by
  rw [lead, if_neg (by omega), if_neg (by omega), if_neg (by omega), if_pos h']

private theorem lead_four {b : Nat} (h : 0xF0 ≤ b) (h' : b < 0xF5) :
    lead b = some ⟨3, if b = 0xF0 then 0x90 else 0x80, if b = 0xF4 then 0x8F else 0xBF⟩ := by
  rw [lead, if_neg (by omega), if_neg (by omega), if_neg (by omega), if_neg (by omega), if_pos h']

theorem valid_encodeChar {c : Nat} (h : IsScalar c) : valid (encodeChar c) = true := by
  unfold IsScalar at h
  unfold valid encodeChar
  split
  · have hl : lead c = some .none := by rw [lead, if_pos (by omega)]
    rw [feedAll_lead (by omega) hl]
    rfl
  split
  · rw [feedAll_lead (by omega) (lead_two (by omega) (by omega)), feedAll_tail (by omega) (by omega) (by omega)]
    rfl
  split
  · rw [feedAll_lead (by omega) (lead_three (by omega) (by omega)),
      feedAll_tail (by omega) (by split <;> omega) (by split <;> omega),
      feedAll_tail (by omega) (by omega) (by omega)]
    rfl
  · rw [feedAll_lead (by omega) (lead_four (by omega) (by omega)),
      feedAll_tail (by omega) (by split <;> omega) (by split <;> omega),
      feedAll_tail (by omega) (by omega) (by omega), feedAll_tail (by omega) (by omega) (by omega)]
    rfl

/-- The UTF-8 encoding of a list of code points. -/
def encode (cs : List Nat) : List UInt8 := cs.flatMap encodeChar

theorem valid_encode {cs : List Nat} (h : ∀ c ∈ cs, IsScalar c) : valid (encode cs) = true := by
  induction cs with
  | nil => rfl
  | cons c cs ih =>
    have hc := valid_encodeChar (h c (by simp))
    rw [encode, List.flatMap_cons, valid_append hc]
    exact ih fun c' hc' => h c' (by simp [hc'])

private theorem ofNat_eq {m n : Nat} (h : UInt8.ofNat m = UInt8.ofNat n) : m % 256 = n % 256 := by
  simpa using congrArg UInt8.toNat h

/-- No encoding is a proper prefix of another. -/
private theorem encodeChar_append_inj {c d : Nat} (hc : c < 0x110000) (hd : d < 0x110000) {l l' : List UInt8}
    (h : encodeChar c ++ l = encodeChar d ++ l') : c = d ∧ l = l' := by
  unfold encodeChar at h
  split at h <;> split at h <;> (try split at h) <;> (try split at h) <;> (try split at h) <;>
    simp only [List.cons_append, List.nil_append, List.cons.injEq] at h <;>
    grind [ofNat_eq]

private theorem encode_cons_ne_nil {c : Nat} (cs : List Nat) : encode (c :: cs) ≠ [] := by
  rw [encode, List.flatMap_cons]
  unfold encodeChar
  split
  · simp
  split
  · simp
  split <;> simp

theorem encode_inj {cs ds : List Nat} (hc : ∀ c ∈ cs, c < 0x110000) (hd : ∀ d ∈ ds, d < 0x110000)
    (h : encode cs = encode ds) : cs = ds := by
  induction cs generalizing ds with
  | nil =>
    cases ds with
    | nil => rfl
    | cons d ds => exact absurd h.symm (encode_cons_ne_nil ds)
  | cons c cs ih =>
    cases ds with
    | nil => exact absurd h (encode_cons_ne_nil cs)
    | cons d ds =>
      obtain ⟨rfl, h'⟩ := encodeChar_append_inj (hc c (by simp)) (hd d (by simp)) h
      rw [ih (fun x hx => hc x (by simp [hx])) (fun x hx => hd x (by simp [hx])) h']

/-- The bytes of a text literal. -/
def bytes (s : String) : List UInt8 := encode (s.toList.map Char.toNat)

theorem valid_bytes (s : String) : valid (bytes s) = true := by
  apply valid_encode
  intro c hc
  obtain ⟨ch, -, rfl⟩ := List.mem_map.1 hc
  rcases ch.valid with h | ⟨h, h'⟩
  · exact .inl h
  · exact .inr ⟨h, h'⟩

@[simp] theorem bytes_inj {s t : String} : bytes s = bytes t ↔ s = t := by
  refine ⟨fun h => ?_, congrArg bytes⟩
  have bound (u : String) : ∀ c ∈ u.toList.map Char.toNat, c < 0x110000 := by
    intro c hc
    obtain ⟨ch, -, rfl⟩ := List.mem_map.1 hc
    rcases ch.valid with h | ⟨-, h⟩
    · exact lt_of_lt_of_le h (by decide)
    · exact h
  have hl := encode_inj (bound s) (bound t) h
  exact String.toList_inj.1 (List.map_injective_iff.2 (fun a b hab => Char.ext (UInt32.toNat.inj hab)) hl)

end Utf8
