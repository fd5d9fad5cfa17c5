import Mathlib.Data.Nat.Digits.Defs

/-!
# Integers in bytes

The value of a list of bytes and the bytes of a value, with the least significant byte first (`little`) or last.
-/

namespace NativeMcp

namespace ByteOrder

/-- The value of bytes that begin with the least significant one. -/
def ofLittle (data : List UInt8) : Nat := Nat.ofDigits 256 (data.map UInt8.toNat)

/-- The lowest `width` bytes of a value, beginning with the least significant one. -/
def toLittle : Nat → Nat → List UInt8
  | 0, _ => []
  | width + 1, value => UInt8.ofNat value :: toLittle width (value / 256)

def decode (little : Bool) (data : List UInt8) : Nat := ofLittle (if little then data else data.reverse)

def encode (little : Bool) (width value : Nat) : List UInt8 :=
  if little then toLittle width value else (toLittle width value).reverse

@[simp] theorem ofLittle_nil : ofLittle [] = 0 := rfl

@[simp] theorem ofLittle_cons (b : UInt8) (data : List UInt8) :
    ofLittle (b :: data) = b.toNat + 256 * ofLittle data := by
  unfold ofLittle
  rw [List.map_cons, Nat.ofDigits_cons]

theorem ofLittle_concat (data : List UInt8) (b : UInt8) :
    ofLittle (data ++ [b]) = ofLittle data + 256 ^ data.length * b.toNat := by
  unfold ofLittle
  rw [List.map_append, Nat.ofDigits_append, List.length_map, List.map_singleton, Nat.ofDigits_singleton]

theorem ofLittle_lt (data : List UInt8) : ofLittle data < 256 ^ data.length := by
  have h : ∀ d ∈ data.map UInt8.toNat, d < 256 := by
    intro d hd
    obtain ⟨b, -, rfl⟩ := List.mem_map.mp hd
    exact b.toNat_lt
  simpa [ofLittle] using Nat.ofDigits_lt_base_pow_length (by decide : 1 < 256) h

@[simp] theorem length_toLittle (width value : Nat) : (toLittle width value).length = width := by
  induction width generalizing value with
  | zero => rfl
  | succ width ih => simp [toLittle, ih]

theorem ofLittle_toLittle {width value : Nat} (h : value < 256 ^ width) : ofLittle (toLittle width value) = value := by
  induction width generalizing value with
  | zero =>
    have : value = 0 := by simpa using h
    simp [toLittle, this]
  | succ width ih =>
    have h' : value / 256 < 256 ^ width := Nat.div_lt_of_lt_mul (by rwa [Nat.pow_succ, Nat.mul_comm] at h)
    have hbyte : (UInt8.ofNat value).toNat = value % 256 := by simp
    rw [toLittle, ofLittle_cons, ih h', hbyte]
    exact Nat.mod_add_div value 256

theorem toLittle_ofLittle (data : List UInt8) : toLittle data.length (ofLittle data) = data := by
  induction data with
  | nil => rfl
  | cons b data ih =>
    have hb : b.toNat < 256 := b.toNat_lt
    have hbyte : UInt8.ofNat (b.toNat + 256 * ofLittle data) = b := by
      apply UInt8.toNat_inj.mp
      rw [UInt8.toNat_ofNat']
      omega
    have hrest : (b.toNat + 256 * ofLittle data) / 256 = ofLittle data := by omega
    rw [List.length_cons, ofLittle_cons, toLittle, hbyte, hrest, ih]

@[simp] theorem length_encode (little : Bool) (width value : Nat) : (encode little width value).length = width := by
  unfold encode
  split <;> simp

theorem decode_encode {width value : Nat} (little : Bool) (h : value < 256 ^ width) :
    decode little (encode little width value) = value := by
  cases little <;> simp [decode, encode, ofLittle_toLittle h]

theorem encode_decode (little : Bool) (data : List UInt8) : encode little data.length (decode little data) = data := by
  cases little
  · have h := toLittle_ofLittle data.reverse
    rw [List.length_reverse] at h
    simp [decode, encode, h]
  · simp [decode, encode, toLittle_ofLittle]

theorem decode_lt (little : Bool) (data : List UInt8) : decode little data < 256 ^ data.length := by
  cases little
  · simpa [decode] using ofLittle_lt data.reverse
  · exact ofLittle_lt data

/-! ### Byte by byte -/

@[simp] theorem decode_nil (little : Bool) : decode little [] = 0 := by cases little <;> rfl

theorem decode_little_concat (data : List UInt8) (b : UInt8) :
    decode true (data ++ [b]) = decode true data ||| b.toNat <<< (data.length * 8) := by
  have hlt : decode true data < 2 ^ (data.length * 8) := by
    have h := decode_lt true data
    rwa [show 256 = 2 ^ 8 by rfl, ← Nat.pow_mul, Nat.mul_comm] at h
  rw [Nat.or_comm, ← Nat.shiftLeft_add_eq_or_of_lt hlt, Nat.shiftLeft_eq]
  have hpow : 2 ^ (data.length * 8) = 256 ^ data.length := by rw [Nat.mul_comm, Nat.pow_mul]
  rw [hpow]
  show ofLittle (data ++ [b]) = b.toNat * 256 ^ data.length + ofLittle data
  rw [ofLittle_concat, Nat.mul_comm, Nat.add_comm]

theorem decode_big_concat (data : List UInt8) (b : UInt8) :
    decode false (data ++ [b]) = decode false data <<< 8 ||| b.toNat := by
  have hb : b.toNat < 2 ^ 8 := b.toNat_lt
  rw [← Nat.shiftLeft_add_eq_or_of_lt hb, Nat.shiftLeft_eq]
  show ofLittle (data ++ [b]).reverse = ofLittle data.reverse * 256 + b.toNat
  rw [List.reverse_concat, ofLittle_cons, Nat.mul_comm, Nat.add_comm]

end ByteOrder

end NativeMcp
