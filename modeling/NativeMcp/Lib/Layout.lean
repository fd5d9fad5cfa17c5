import Mathlib.Init

/-!
# Parts of a list

The elements of an interval of positions, and lists that are laid out from parts: each part is found where it was placed,
and an interval apart from all parts holds what was there before.
-/

namespace NativeMcp

namespace Layout

variable {α β : Type}

/-- The elements of `[offset, offset + size)`. -/
def slice (data : List α) (offset size : Nat) : List α := (data.drop offset).take size

theorem length_slice_eq_min (data : List α) (offset size : Nat) :
    (slice data offset size).length = min size (data.length - offset) := by
  unfold slice
  rw [List.length_take, List.length_drop]

theorem length_slice {data : List α} {offset size : Nat} (h : offset + size ≤ data.length) :
    (slice data offset size).length = size := by
  rw [length_slice_eq_min]
  omega

theorem slice_zero (data : List α) (offset : Nat) : slice data offset 0 = [] := rfl

theorem slice_min (data : List α) (offset size : Nat) :
    slice data offset (min size (data.length - offset)) = slice data offset size := by
  unfold slice
  rw [← List.length_drop]
  exact List.take_eq_take_min.symm

theorem slice_succ {data : List α} (offset size : Nat) (h : offset + size < data.length) :
    slice data offset (size + 1) = slice data offset size ++ [data[offset + size]] := by
  unfold slice
  rw [List.take_add_one, List.getElem?_drop, List.getElem?_eq_getElem h, Option.toList_some]

/-- A part of a part. -/
theorem slice_slice {data : List α} {offset size start count : Nat} (h : start + count ≤ size) :
    slice (slice data offset size) start count = slice data (offset + start) count := by
  unfold slice
  rw [List.drop_take, List.drop_drop, List.take_take, Nat.min_eq_left (by omega)]

theorem slice_append (data : List α) (offset size count : Nat) :
    slice data offset (size + count) = slice data offset size ++ slice data (offset + size) count := by
  unfold slice
  rw [List.take_add, List.drop_drop]

theorem drop_eq_slice_append (data : List α) (offset size next : Nat) (h : offset + size = next) :
    data.drop offset = slice data offset size ++ data.drop next := by
  unfold slice
  rw [← h, ← List.drop_drop, List.take_append_drop]

theorem getElem?_slice (data : List α) (offset size i : Nat) :
    (slice data offset size)[i]? = if i < size then data[offset + i]? else none := by
  unfold slice
  rw [List.getElem?_take, List.getElem?_drop]

/-- The part in the middle. -/
theorem slice_of_append (before part after : List α) :
    slice (before ++ (part ++ after)) before.length part.length = part := by
  unfold slice
  rw [List.drop_left, List.take_left]

theorem length_flatMap_blocks {f : α → List β} {size : Nat} {list : List α} (hsize : ∀ a ∈ list, (f a).length = size) :
    (list.flatMap f).length = list.length * size := by
  induction list with
  | nil => rw [List.flatMap_nil, List.length_nil, List.length_nil, Nat.zero_mul]
  | cons a list ih =>
    rw [List.flatMap_cons, List.length_append, hsize a List.mem_cons_self,
      ih fun b hb => hsize b (List.mem_cons_of_mem _ hb), List.length_cons, Nat.add_mul, Nat.one_mul, Nat.add_comm]

/-- A block of a list of blocks of one size. -/
theorem slice_flatMap {f : α → List β} {size : Nat} {list : List α} (hsize : ∀ a ∈ list, (f a).length = size)
    {i : Nat} (hi : i < list.length) : slice (list.flatMap f) (i * size) size = f list[i] := by
  induction list generalizing i with
  | nil => cases hi
  | cons a list ih =>
    have ha := hsize a List.mem_cons_self
    rw [List.flatMap_cons]
    cases i with
    | zero =>
      rw [Nat.zero_mul]
      unfold slice
      rw [List.drop_zero, ← ha, List.take_left]
      rfl
    | succ i =>
      have hskip : (f a ++ list.flatMap f).drop ((i + 1) * size) = (list.flatMap f).drop (i * size) := by
        rw [Nat.add_mul, Nat.one_mul, Nat.add_comm, ← List.drop_drop, ← ha, List.drop_left]
      unfold slice
      rw [hskip]
      exact ih (fun b hb => hsize b (List.mem_cons_of_mem _ hb)) (by simpa using hi)

/-! ### Placing a part -/

/-- The part takes the place of what was at these positions. -/
def place (base : List α) (offset : Nat) (part : List α) : List α :=
  base.take offset ++ (part ++ base.drop (offset + part.length))

/-- An offset and a size. -/
abbrev Range := Nat × Nat

/-- No position lies in both. -/
def Apart (r r' : Range) : Prop := r.2 = 0 ∨ r'.2 = 0 ∨ r.1 + r.2 ≤ r'.1 ∨ r'.1 + r'.2 ≤ r.1

instance (r r' : Range) : Decidable (Apart r r') :=
  inferInstanceAs (Decidable (r.2 = 0 ∨ r'.2 = 0 ∨ r.1 + r.2 ≤ r'.1 ∨ r'.1 + r'.2 ≤ r.1))

def rangeOf (part : Nat × List α) : Range := (part.1, part.2.length)

/-- A part that is empty fits everywhere. -/
def Fits (size : Nat) (r : Range) : Prop := r.2 = 0 ∨ r.1 + r.2 ≤ size

instance (size : Nat) (r : Range) : Decidable (Fits size r) := inferInstanceAs (Decidable (r.2 = 0 ∨ r.1 + r.2 ≤ size))

theorem length_place {base part : List α} {offset : Nat} (h : Fits base.length (offset, part.length)) :
    (place base offset part).length = base.length := by
  unfold place
  rw [List.length_append, List.length_append, List.length_take, List.length_drop]
  rcases h with h | h
  · dsimp only at h
    omega
  · dsimp only at h
    omega

theorem slice_place_same {base part : List α} {offset : Nat} (h : Fits base.length (offset, part.length)) :
    slice (place base offset part) offset part.length = part := by
  rcases h with h | h
  · dsimp only at h
    rw [h, slice_zero, List.eq_nil_of_length_eq_zero h]
  · dsimp only at h
    have hlength : (base.take offset).length = offset := by
      rw [List.length_take]
      omega
    have := slice_of_append (base.take offset) part (base.drop (offset + part.length))
    rwa [hlength] at this

theorem slice_place_apart {base part : List α} {offset : Nat} (h : Fits base.length (offset, part.length))
    {start size : Nat} (hapart : Apart (start, size) (offset, part.length)) :
    slice (place base offset part) start size = slice base start size := by
  by_cases hempty : part.length = 0
  · have hpart : part = [] := List.eq_nil_of_length_eq_zero hempty
    unfold place
    rw [hpart, List.nil_append, List.length_nil, Nat.add_zero, List.take_append_drop]
  · have hinside : offset + part.length ≤ base.length := h.resolve_left hempty
    apply List.ext_getElem?
    intro i
    rw [getElem?_slice, getElem?_slice]
    by_cases hi : i < size
    · rw [if_pos hi, if_pos hi]
      unfold place
      have hlength : (base.take offset).length = offset := by
        rw [List.length_take]
        omega
      have houtside : start + i < offset ∨ offset + part.length ≤ start + i := by
        unfold Apart at hapart
        dsimp only at hapart
        omega
      rcases houtside with hbefore | hbehind
      · rw [List.getElem?_append_left (by omega), List.getElem?_take_of_lt hbefore]
      · rw [List.getElem?_append_right (by omega), List.getElem?_append_right (by omega), List.getElem?_drop, hlength]
        congr 1
        omega
    · rw [if_neg hi, if_neg hi]

/-! ### Laying out parts -/

def layOut (base : List α) (parts : List (Nat × List α)) : List α :=
  parts.foldl (fun data part => place data part.1 part.2) base

theorem length_layOut (parts : List (Nat × List α)) (base : List α)
    (hfits : ∀ part ∈ parts, Fits base.length (rangeOf part)) : (layOut base parts).length = base.length := by
  induction parts generalizing base with
  | nil => rfl
  | cons part parts ih =>
    have hlength : (place base part.1 part.2).length = base.length := length_place (hfits part List.mem_cons_self)
    have hrest := ih (place base part.1 part.2) (by
      intro p hp
      rw [hlength]
      exact hfits p (List.mem_cons_of_mem _ hp))
    exact hrest.trans hlength

theorem slice_layOut_apart (parts : List (Nat × List α)) (base : List α)
    (hfits : ∀ part ∈ parts, Fits base.length (rangeOf part)) {r : Range} (hapart : ∀ part ∈ parts, Apart r (rangeOf part)) :
    slice (layOut base parts) r.1 r.2 = slice base r.1 r.2 := by
  induction parts generalizing base with
  | nil => rfl
  | cons part parts ih =>
    have hfirst := hfits part List.mem_cons_self
    have hlength : (place base part.1 part.2).length = base.length := length_place hfirst
    have hrest := ih (place base part.1 part.2) (by
      intro p hp
      rw [hlength]
      exact hfits p (List.mem_cons_of_mem _ hp)) fun p hp => hapart p (List.mem_cons_of_mem _ hp)
    exact hrest.trans (slice_place_apart hfirst (hapart part List.mem_cons_self))

/-- Each part is where it was placed, when the parts are apart. -/
theorem slice_layOut_part (parts : List (Nat × List α)) (base : List α)
    (hfits : ∀ part ∈ parts, Fits base.length (rangeOf part))
    (hparts : parts.Pairwise fun part part' => Apart (rangeOf part) (rangeOf part')) {part : Nat × List α}
    (hpart : part ∈ parts) : slice (layOut base parts) part.1 part.2.length = part.2 := by
  induction parts generalizing base with
  | nil => cases hpart
  | cons first parts ih =>
    obtain ⟨hfirst, hparts⟩ := List.pairwise_cons.mp hparts
    have hfitsFirst := hfits first List.mem_cons_self
    have hlength : (place base first.1 first.2).length = base.length := length_place hfitsFirst
    have hfits' : ∀ p ∈ parts, Fits (place base first.1 first.2).length (rangeOf p) := by
      intro p hp
      rw [hlength]
      exact hfits p (List.mem_cons_of_mem _ hp)
    rcases List.mem_cons.mp hpart with rfl | hmem
    · have := slice_layOut_apart parts (place base part.1 part.2) hfits' hfirst
      exact this.trans (slice_place_same hfitsFirst)
    · exact ih (place base first.1 first.2) hfits' hparts hmem

end Layout

end NativeMcp
