import Mathlib.Data.List.Infix
import NativeMcp.Tools.LogAnalysis

/-!
# What a preview says about its bytes

`escape_preview` writes a backslash as it is, so that a log may spell an escape itself.  `readEscapes` reads every
escape that is spelled; it decodes previews, and two previews are equal exactly if it reads the same from the bytes.
-/

namespace NativeMcp.LogAnalyzer

def backslash : UInt8 := 0x5C

/-- Not written as itself. -/
def isEscaped (value : UInt8) : Bool := !(0x20 ≤ value && value ≤ 0x7E)

/-- The value of a hexadecimal digit as `escape_preview` writes it. -/
def hexValue (digit : UInt8) : Option Nat :=
  if 0x30 ≤ digit ∧ digit ≤ 0x39 then some (digit.toNat - 0x30)
  else if 0x41 ≤ digit ∧ digit ≤ 0x46 then some (digit.toNat - 0x37)
  else none

/-- The byte that is written with these two digits. -/
def hexEscaped (high low : UInt8) : Option UInt8 := do
  let h ← hexValue high
  let l ← hexValue low
  let value := UInt8.ofNat (16 * h + l)
  if isEscaped value ∧ value ≠ 0x09 then some value else none

/-- The byte whose escape goes on like this after its backslash, and what follows. -/
def spelled : Bytes → Option (UInt8 × Bytes)
  | [] => none
  | c :: rest =>
    if c = 0x74 then some (0x09, rest)
    else if c = 0x78 then
      match rest with
      | high :: low :: after => (hexEscaped high low).map (·, after)
      | _ => none
    else none

theorem length_spelled {text after : Bytes} {value : UInt8} (h : spelled text = some (value, after)) :
    after.length < text.length := by
  unfold spelled at h
  split at h
  · cases h
  split at h
  · cases h
    simp
  split at h
  · split at h
    · obtain ⟨v, -, hv⟩ := Option.map_eq_some_iff.1 h
      cases hv
      simp only [List.length_cons]
      omega
    · cases h
  · cases h

example : spelled (bytes "x1B[0m") = some (0x1B, bytes "[0m") := by decide +kernel

/-- The bytes, with every escape that they spell read as the byte it stands for. -/
def readEscapes : Bytes → Bytes
  | [] => []
  | b :: rest =>
    if b = backslash then
      match _h : spelled rest with
      | some (value, after) => value :: readEscapes after
      | none => b :: readEscapes rest
    else b :: readEscapes rest
termination_by text => text.length
decreasing_by
  · have := length_spelled _h
    simp only [List.length_cons]
    omega
  · simp
  · simp

/-! ### One escape -/

private theorem forall_byte {P : UInt8 → Prop} (h : ∀ n < 256, P (UInt8.ofNat n)) (b : UInt8) : P b := by
  have := h b.toNat b.toNat_lt
  rwa [UInt8.ofNat_toNat] at this

private theorem escapeByte_of_hexValue {high low value : UInt8} (h : hexEscaped high low = some value) :
    escapeByte value = [backslash, 0x78, high, low] ∧ isEscaped value = true ∧ value ≠ 0x09 := by
  have hdigit : ∀ digit n, hexValue digit = some n → n < 16 ∧ hex.getD n 0 = digit := by
    intro digit
    refine forall_byte (P := fun digit => ∀ n, hexValue digit = some n → n < 16 ∧ hex.getD n 0 = digit) ?_ digit
    intro k hk n hn
    have hall : ∀ k < 256, ∀ n ∈ hexValue (UInt8.ofNat k), n < 16 ∧ hex.getD n 0 = UInt8.ofNat k := by decide +kernel
    exact hall k hk n hn
  unfold hexEscaped at h
  obtain ⟨m, hm, h⟩ := Option.bind_eq_some_iff.1 h
  obtain ⟨n, hn, h⟩ := Option.bind_eq_some_iff.1 h
  obtain ⟨hm16, hhigh⟩ := hdigit high m hm
  obtain ⟨hn16, hlow⟩ := hdigit low n hn
  dsimp only at h
  split at h
  · rename_i hvalue
    cases h
    refine ⟨?_, hvalue⟩
    have hall : ∀ m < 16, ∀ n < 16, isEscaped (UInt8.ofNat (16 * m + n)) = true → UInt8.ofNat (16 * m + n) ≠ 0x09 →
        escapeByte (UInt8.ofNat (16 * m + n)) = [backslash, 0x78, hex.getD m 0, hex.getD n 0] := by decide +kernel
    rw [hall m hm16 n hn16 hvalue.1 hvalue.2, hhigh, hlow]
  · cases h

/-- What spells an escape is the escape of the byte that is read. -/
theorem spelled_sound {text after : Bytes} {value : UInt8} (h : spelled text = some (value, after)) :
    isEscaped value = true ∧ backslash :: text = escapeByte value ++ after := by
  unfold spelled at h
  split at h
  · cases h
  split at h
  · rename_i hc
    cases h
    subst hc
    exact ⟨rfl, rfl⟩
  split at h
  · rename_i hc
    subst hc
    split at h
    · obtain ⟨v, hv, hp⟩ := Option.map_eq_some_iff.1 h
      cases hp
      obtain ⟨he, hescaped, -⟩ := escapeByte_of_hexValue hv
      exact ⟨hescaped, by rw [he]; rfl⟩
    · cases h
  · cases h

theorem escapeByte_of_escaped {value : UInt8} (h : isEscaped value = true) :
    ∃ tail, escapeByte value = backslash :: tail ∧ ∀ after, spelled (tail ++ after) = some (value, after) := by
  revert h
  refine forall_byte (P := fun value => isEscaped value = true → ∃ tail, escapeByte value = backslash :: tail ∧
    ∀ after, spelled (tail ++ after) = some (value, after)) ?_ value
  intro k hk hescaped
  have hall : ∀ k < 256, isEscaped (UInt8.ofNat k) = true →
      (escapeByte (UInt8.ofNat k) = [backslash, 0x74] ∧ UInt8.ofNat k = 0x09) ∨
      escapeByte (UInt8.ofNat k) = [backslash, 0x78, hex.getD (k / 16) 0, hex.getD (k % 16) 0] ∧
        hexEscaped (hex.getD (k / 16) 0) (hex.getD (k % 16) 0) = some (UInt8.ofNat k) := by decide +kernel
  rcases hall k hk hescaped with ⟨he, hv⟩ | ⟨he, hv⟩
  · refine ⟨[0x74], he, fun after => ?_⟩
    rw [hv]
    rfl
  · generalize hex.getD (k / 16) 0 = high at he hv
    generalize hex.getD (k % 16) 0 = low at he hv
    refine ⟨[0x78, high, low], he, fun after => ?_⟩
    simp [spelled, hv]

theorem escapeByte_of_printable {value : UInt8} (h : isEscaped value = false) : escapeByte value = [value] := by
  revert h
  refine forall_byte (P := fun value => isEscaped value = false → escapeByte value = [value]) ?_ value
  decide +kernel

example : escapePreview [0x1B, 0x41] = bytes "\\x1BA" := by decide +kernel

theorem mem_escapeByte {value c : UInt8} (h : c ∈ escapeByte value) : isEscaped c = false := by
  revert c
  refine forall_byte (P := fun value => ∀ {c}, c ∈ escapeByte value → isEscaped c = false) ?_ value
  intro k hk c hc
  have hall : ∀ k < 256, (escapeByte (UInt8.ofNat k)).all (fun c => !isEscaped c) = true := by decide +kernel
  simpa using List.all_eq_true.1 (hall k hk) c hc

private theorem backslash_notMem_tail {value : UInt8} {tail : Bytes} (h : escapeByte value = backslash :: tail)
    (hescaped : isEscaped value = true) : backslash ∉ tail := by
  have hall : ∀ k < 256, isEscaped (UInt8.ofNat k) = true → backslash ∉ (escapeByte (UInt8.ofNat k)).tail := by
    decide +kernel
  have := forall_byte (P := fun value => isEscaped value = true → backslash ∉ (escapeByte value).tail) hall value hescaped
  rwa [h] at this

/-! ### Whole texts -/

theorem escapePreview_cons (b : UInt8) (rest : Bytes) :
    escapePreview (b :: rest) = escapeByte b ++ escapePreview rest := rfl

theorem escapePreview_append (a b : Bytes) : escapePreview (a ++ b) = escapePreview a ++ escapePreview b :=
  List.flatMap_append

/-- Printable bytes are written as themselves. -/
theorem escapePreview_of_printable {a : Bytes} (h : ∀ c ∈ a, isEscaped c = false) : escapePreview a = a := by
  induction a with
  | nil => rfl
  | cons c a ih =>
    have hc : escapeByte c = [c] := escapeByte_of_printable (h c (by simp))
    have ha : escapePreview a = a := ih fun d hd => h d (by simp [hd])
    rw [escapePreview_cons, hc, ha]
    rfl

theorem readEscapes_cons_of_ne {b : UInt8} (h : b ≠ backslash) (rest : Bytes) :
    readEscapes (b :: rest) = b :: readEscapes rest := by
  rw [readEscapes, if_neg h]

theorem readEscapes_of_spelled {rest after : Bytes} {value : UInt8} (h : spelled rest = some (value, after)) :
    readEscapes (backslash :: rest) = value :: readEscapes after := by
  rw [readEscapes, if_pos rfl]
  split
  · rename_i v a hs
    rw [h] at hs
    cases hs
    rfl
  · rename_i hs
    rw [h] at hs
    cases hs

theorem readEscapes_of_unspelled {rest : Bytes} (h : spelled rest = none) :
    readEscapes (backslash :: rest) = backslash :: readEscapes rest := by
  rw [readEscapes, if_pos rfl]
  split
  · rename_i v a hs
    rw [h] at hs
    cases hs
  · rfl

theorem readEscapes_escapeByte {value : UInt8} (h : isEscaped value = true) (rest : Bytes) :
    readEscapes (escapeByte value ++ rest) = value :: readEscapes rest := by
  obtain ⟨tail, he, hs⟩ := escapeByte_of_escaped h
  rw [he, List.cons_append]
  exact readEscapes_of_spelled (hs rest)

/-- A beginning of a preview without a backslash is a beginning of the bytes. -/
private theorem exists_of_escapePreview_eq {p after : Bytes} (hp : backslash ∉ p) {a : Bytes}
    (h : escapePreview a = p ++ after) : ∃ a', a = p ++ a' ∧ escapePreview a' = after := by
  induction p generalizing a with
  | nil => exact ⟨a, rfl, h⟩
  | cons c p ih =>
    rw [List.mem_cons, not_or] at hp
    cases a with
    | nil => cases h
    | cons b a =>
      rw [escapePreview_cons] at h
      cases hb : isEscaped b with
      | true =>
        obtain ⟨tail, he, -⟩ := escapeByte_of_escaped hb
        rw [he] at h
        exact absurd (List.cons.inj h).1 hp.1
      | false =>
        rw [escapeByte_of_printable hb] at h
        obtain ⟨rfl, hrest⟩ := List.cons.inj h
        obtain ⟨a', rfl, ha'⟩ := ih hp.2 hrest
        exact ⟨a', rfl, ha'⟩

private theorem spelled_escapePreview {rest : Bytes} (h : spelled rest = none) :
    spelled (escapePreview rest) = none := by
  cases hs : spelled (escapePreview rest) with
  | none => rfl
  | some p =>
    obtain ⟨value, after⟩ := p
    obtain ⟨hescaped, heq⟩ := spelled_sound hs
    obtain ⟨tail, he, htail⟩ := escapeByte_of_escaped hescaped
    rw [he, List.cons_append] at heq
    obtain ⟨rest', hrest, -⟩ := exists_of_escapePreview_eq (backslash_notMem_tail he hescaped) (List.cons.inj heq).2
    rw [hrest, htail] at h
    cases h

/-- Reading a preview is reading the bytes. -/
theorem readEscapes_escapePreview (a : Bytes) : readEscapes (escapePreview a) = readEscapes a := by
  induction a using readEscapes.induct with
  | case1 => rfl
  | case2 rest value after hs ih =>
    obtain ⟨hescaped, heq⟩ := spelled_sound hs
    rw [readEscapes_of_spelled hs, heq, escapePreview_append, escapePreview_of_printable fun c => mem_escapeByte,
      readEscapes_escapeByte hescaped, ih]
  | case3 rest hs ih =>
    have hb : escapeByte backslash = [backslash] := rfl
    rw [readEscapes_of_unspelled hs, escapePreview_cons, hb, List.cons_append, List.nil_append,
      readEscapes_of_unspelled (spelled_escapePreview hs), ih]
  | case4 b rest hb ih =>
    rw [readEscapes_cons_of_ne hb, escapePreview_cons]
    cases hescaped : isEscaped b with
    | true => rw [readEscapes_escapeByte hescaped, ih]
    | false =>
      rw [escapeByte_of_printable hescaped, List.cons_append, List.nil_append, readEscapes_cons_of_ne hb, ih]

/-- A spelled escape is written like the byte it stands for. -/
theorem escapePreview_readEscapes (a : Bytes) : escapePreview (readEscapes a) = escapePreview a := by
  induction a using readEscapes.induct with
  | case1 => simp [readEscapes]
  | case2 rest value after hs ih =>
    obtain ⟨-, heq⟩ := spelled_sound hs
    rw [readEscapes_of_spelled hs, heq, escapePreview_append, escapePreview_of_printable fun c => mem_escapeByte,
      escapePreview_cons, ih]
  | case3 rest hs ih => rw [readEscapes_of_unspelled hs, escapePreview_cons, escapePreview_cons, ih]
  | case4 b rest hb ih => rw [readEscapes_cons_of_ne hb, escapePreview_cons, escapePreview_cons, ih]

/-- The bytes spell no escape. -/
def Unspelled (a : Bytes) : Prop := ∀ value, isEscaped value = true → ¬ escapeByte value <:+: a

theorem readEscapes_eq_self_iff (a : Bytes) : readEscapes a = a ↔ Unspelled a := by
  have hlength : ∀ a : Bytes, (readEscapes a).length ≤ a.length := by
    intro a
    induction a using readEscapes.induct with
    | case1 => simp [readEscapes]
    | case2 rest value after hs ih =>
      have := length_spelled hs
      rw [readEscapes_of_spelled hs, List.length_cons, List.length_cons]
      omega
    | case3 rest hs ih =>
      rw [readEscapes_of_unspelled hs, List.length_cons, List.length_cons]
      omega
    | case4 b rest hb ih =>
      rw [readEscapes_cons_of_ne hb, List.length_cons, List.length_cons]
      omega
  induction a using readEscapes.induct with
  | case1 =>
    refine ⟨fun _ value hv hi => ?_, fun _ => by simp [readEscapes]⟩
    obtain ⟨tail, he, -⟩ := escapeByte_of_escaped hv
    rw [he] at hi
    simp at hi
  | case2 rest value after hs ih =>
    obtain ⟨hescaped, heq⟩ := spelled_sound hs
    constructor
    · intro h
      have hlt := length_spelled hs
      have hle := hlength after
      have := congrArg List.length h
      rw [readEscapes_of_spelled hs, List.length_cons, List.length_cons] at this
      omega
    · intro h
      exact absurd ⟨[], after, by simpa using heq.symm⟩ (h value hescaped)
  | case3 rest hs ih =>
    rw [readEscapes_of_unspelled hs, List.cons_eq_cons, and_iff_right rfl]
    refine ih.trans ⟨?_, ?_⟩
    · intro h value hv hi
      obtain ⟨tail, he, htail⟩ := escapeByte_of_escaped hv
      rcases List.infix_cons_iff.1 hi with hp | hi
      · obtain ⟨after, hafter⟩ := hp
        rw [he, List.cons_append] at hafter
        rw [← (List.cons.inj hafter).2, htail] at hs
        cases hs
      · exact h value hv hi
    · exact fun h value hv hi => h value hv (List.infix_cons hi)
  | case4 b rest hb ih =>
    rw [readEscapes_cons_of_ne hb, List.cons_eq_cons, and_iff_right rfl]
    refine ih.trans ⟨?_, ?_⟩
    · intro h value hv hi
      obtain ⟨tail, he, -⟩ := escapeByte_of_escaped hv
      rcases List.infix_cons_iff.1 hi with hp | hi
      · obtain ⟨after, hafter⟩ := hp
        rw [he, List.cons_append] at hafter
        exact hb (List.cons.inj hafter).1.symm
      · exact h value hv hi
    · exact fun h value hv hi => h value hv (List.infix_cons hi)

/-- Two previews are equal exactly if the bytes read the same, and the decoder recovers exactly the bytes that spell no
escape. -/
theorem previews_equal_iff (a b : Bytes) :
    (escapePreview a = escapePreview b ↔ readEscapes a = readEscapes b) ∧
      (readEscapes (escapePreview a) = a ↔ Unspelled a) := by
  refine ⟨⟨fun h => ?_, fun h => ?_⟩, ?_⟩
  · rw [← readEscapes_escapePreview a, h, readEscapes_escapePreview]
  · rw [← escapePreview_readEscapes a, h, escapePreview_readEscapes]
  · rw [readEscapes_escapePreview]
    exact readEscapes_eq_self_iff a

/-- A tab and the two bytes of its escape have the same preview, so that no decoder recovers both. -/
theorem tab_collides : (∃ a b : Bytes, a ≠ b ∧ escapePreview a = escapePreview b) ∧
    ¬ ∃ decoder : Bytes → Bytes, ∀ a, decoder (escapePreview a) = a := by
  have hequal : escapePreview [0x09] = escapePreview [0x5C, 0x74] := by decide
  refine ⟨⟨[0x09], [0x5C, 0x74], by decide, hequal⟩, ?_⟩
  rintro ⟨decoder, hd⟩
  have h := hd [0x09]
  rw [hequal, hd] at h
  exact absurd h (by decide)

end NativeMcp.LogAnalyzer
