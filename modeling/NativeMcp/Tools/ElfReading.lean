import NativeMcp.Lib.ByteOrder
import NativeMcp.Lib.Layout
import NativeMcp.Tools.ElfAnalysis

/-!
# Reading the bytes of an ELF file

The integers of a buffer as values of its bytes, and what one program of the inspection does with the file: it reads
inside the file limit and the byte budget, and it ends.

In a quiet run nothing stops the operation and no `pread` fails; how much each `pread` returns stays open.
-/

namespace NativeMcp

namespace ElfAnalyzer

open Program ByteOrder Layout

/-! ### Buffers -/

/-- The integer of `width` bytes at an offset. -/
def valueAt (data : Bytes) (offset width : Nat) (little : Bool) : Nat := decode little (slice data offset width)

def wordSize (is64 : Bool) : Nat := if is64 then 8 else 4

theorem valueAt_lt (data : Bytes) (offset width : Nat) (little : Bool) : valueAt data offset width little < 256 ^ width := by
  have hlength : (slice data offset width).length ≤ width := List.length_take_le ..
  exact Nat.lt_of_lt_of_le (decode_lt little _) (Nat.pow_le_pow_right (by decide) hlength)

theorem byteAt_eq {data : Bytes} {index : Nat} (h : index < data.length) : byteAt data index = pure data[index] := by
  unfold byteAt
  rw [List.getElem?_eq_getElem h]

theorem bytesAt_eq {data : Bytes} {start size : Nat} (h : start + size ≤ data.length) :
    bytesAt data start size = pure (slice data start size) := by
  unfold bytesAt
  rw [if_pos h]
  rfl

theorem pure_bind_elf {α β : Type} (a : α) (f : α → Elf β) : (pure a >>= f : Elf β) = f a := rfl

/-- What the loops have after `index` bytes. -/
private theorem readUint_eq (data : Bytes) (offset : Nat) (little : Bool) (count : Nat) :
    ∀ index, offset + (index + count) ≤ data.length →
      readUint data offset little index count (valueAt data offset index little) =
        pure (valueAt data offset (index + count) little) := by
  induction count with
  | zero =>
    intro index _
    rfl
  | succ count ih =>
    intro index h
    have hlength : (slice data offset index).length = index := length_slice (by omega)
    have hnext : valueAt data offset (index + 1) little =
        if little then valueAt data offset index little ||| data[offset + index].toNat <<< (index * 8)
        else valueAt data offset index little <<< 8 ||| data[offset + index].toNat := by
      unfold valueAt
      rw [slice_succ offset index (by omega)]
      cases little
      · exact decode_big_concat ..
      · have := decode_little_concat (slice data offset index) data[offset + index]
        rwa [hlength] at this
    unfold readUint
    rw [byteAt_eq (by omega), pure_bind_elf, ← hnext, ih (index + 1) (by omega)]
    congr 2
    omega

theorem readU32_eq {data : Bytes} {offset : Nat} (little : Bool) (h : offset + 4 ≤ data.length) :
    readU32 data offset little = pure (valueAt data offset 4 little) := by
  have hzero : valueAt data offset 0 little = 0 := decode_nil little
  have := readUint_eq data offset little 4 0 (by omega)
  rwa [hzero] at this

theorem readU64_eq {data : Bytes} {offset : Nat} (little : Bool) (h : offset + 8 ≤ data.length) :
    readU64 data offset little = pure (valueAt data offset 8 little) := by
  have hzero : valueAt data offset 0 little = 0 := decode_nil little
  have := readUint_eq data offset little 8 0 (by omega)
  rwa [hzero] at this

theorem readWord_eq {data : Bytes} {offset : Nat} (is64 little : Bool) (h : offset + wordSize is64 ≤ data.length) :
    readWord data offset is64 little = pure (valueAt data offset (wordSize is64) little) := by
  cases is64
  · exact readU32_eq little h
  · exact readU64_eq little h

theorem readU16_eq {data : Bytes} {offset : Nat} (little : Bool) (h : offset + 2 ≤ data.length) :
    readU16 data offset little = pure (valueAt data offset 2 little) := by
  have hslice : slice data offset 2 = [data[offset], data[offset + 1]] := by
    rw [slice_succ offset 1 (by omega), slice_succ offset 0 (by omega), slice_zero]
    rfl
  unfold readU16 valueAt
  rw [byteAt_eq (by omega), pure_bind_elf, byteAt_eq (by omega), pure_bind_elf, hslice]
  cases little
  · have hfirst : decode false [data[offset]] = data[offset].toNat := by
      simpa using decode_big_concat [] data[offset]
    have hboth := decode_big_concat [data[offset]] data[offset + 1]
    rw [hfirst, Nat.or_comm] at hboth
    exact congrArg pure hboth.symm
  · have hfirst : decode true [data[offset]] = data[offset].toNat := by
      simpa using decode_little_concat [] data[offset]
    have hboth := decode_little_concat [data[offset]] data[offset + 1]
    rw [hfirst] at hboth
    exact congrArg pure hboth.symm

/-! ### Runs

`quiet` says whether the run is assumed to be quiet. -/

structure Quiet (s : Inspecting) : Prop where
  stopReason : ∀ k, s.stopReason k = .none
  turns : ∀ turn ∈ s.turns, turn ≠ .failed

/-- Each `pread` inside the file limit, and all that came within the byte budget. -/
structure Bounded (reader : Reader) (s : Inspecting) : Prop where
  inside : ∀ p ∈ s.log, p.offset + p.requested ≤ reader.fileLimit ∧ p.count ≤ p.requested
  total : (s.log.map Pread.count).sum ≤ reader.metadataLimit

/-- A state between two reads, after `bytesRead` bytes. -/
structure Reading (quiet : Prop) (reader : Reader) (bytesRead : Nat) (s : Inspecting) : Prop where
  bounded : Bounded reader s
  total : (s.log.map Pread.count).sum = bytesRead
  bytesRead_eq : s.bytesRead = bytesRead
  quiet : quiet → Quiet s

/-- The program returns with `Q` of its value and the bytes read so far, or it fails with an error; in a quiet run it
fails only if `F`. -/
def Safe (quiet : Prop) (reader : Reader) (bytesRead : Nat) {α : Type} (x : Elf α) (Q : α → Nat → Prop) (F : Prop) : Prop :=
  Ends (Reading quiet reader bytesRead) x (fun a s => ∃ total, Reading quiet reader total s ∧ Q a total)
    (fun e s => Bounded reader s ∧ (∃ error, e = .error error) ∧ (quiet → F)) fun _ => False

section

variable {quiet : Prop} {reader : Reader} {n : Nat} {α β : Type} {x : Elf α} {Q Q' : α → Nat → Prop} {F F' : Prop}

theorem Safe.pure {a : α} (h : Q a n) : Safe quiet reader n (pure a) Q F := Ends.pure fun _ hs => ⟨n, hs, h⟩

theorem Safe.fail {code : ElfAnalysisErrorCode} {message : String} (h : quiet → F) :
    Safe quiet reader n (fail code message) Q F :=
  Ends.raise fun _ hs => ⟨hs.bounded, ⟨_, rfl⟩, h⟩

theorem Safe.mono (h : Safe quiet reader n x Q F) (hQ : ∀ a m, Q a m → Q' a m) (hF : quiet → F → F') :
    Safe quiet reader n x Q' F' :=
  Ends.mono h (fun _ => id) (fun a _ ⟨m, hs, hQa⟩ => ⟨m, hs, hQ a m hQa⟩)
    (fun _ _ ⟨hs, he, hf⟩ => ⟨hs, he, fun hq => hF hq (hf hq)⟩) fun _ => id

theorem Safe.bind {f : α → Elf β} {R : β → Nat → Prop} (hx : Safe quiet reader n x Q F)
    (hf : ∀ a m, Q a m → Safe quiet reader m (f a) R F) : Safe quiet reader n (x >>= f) R F :=
  Ends.bind hx fun a s ⟨m, hs, hQ⟩ => hf a m hQ s hs

theorem Safe.bind_get {f : Inspecting → Elf β} {R : β → Nat → Prop}
    (h : ∀ s, Reading quiet reader n s → Safe quiet reader n (f s) R F) : Safe quiet reader n (Program.get >>= f) R F :=
  fun s hs => h s hs s hs

theorem Reading.bytesRead_le {s : Inspecting} (h : Reading quiet reader n s) : s.bytesRead ≤ reader.metadataLimit := by
  have := h.bounded.total
  rwa [h.total, ← h.bytesRead_eq] at this

theorem Safe.ite {c : Prop} [Decidable c] {y : Elf α} (hx : c → Safe quiet reader n x Q F)
    (hy : ¬c → Safe quiet reader n y Q F) : Safe quiet reader n (if c then x else y) Q F := by
  by_cases h : c
  · rw [if_pos h]
    exact hx h
  · rw [if_neg h]
    exact hy h

theorem fitting_eq {value : Nat} (h : value ≤ kMaxUint64) : fitting value = pure value := if_pos h

/-- The check of the stop conditions leaves everything as it is that it does not count itself. -/
theorem checkOperation_ends {P : Inspecting → Prop} {E : Fault → Inspecting → Prop} {S : Inspecting → Prop}
    (hP : ∀ s checks, P s → P { s with checks })
    (hE : ∀ s error, P s → s.stopReason s.checks ≠ .none → E (.error error) { s with checks := s.checks + 1 }) :
    Ends P checkOperation (fun _ => P) E S := by
  intro s hs
  have hnext : nextStopReason s = (.returned (s.stopReason s.checks), { s with checks := s.checks + 1 }) := rfl
  unfold checkOperation
  rw [bind_apply, hnext]
  dsimp only
  cases hreason : operationError (s.stopReason s.checks) with
  | none => exact hP s _ hs
  | some error =>
    refine hE s error hs ?_
    intro hnone
    rw [hnone] at hreason
    cases hreason

theorem Quiet.count {s : Inspecting} (h : Quiet s) (checks : Nat) : Quiet { s with checks } := ⟨h.1, h.2⟩

theorem Reading.count {s : Inspecting} (h : Reading quiet reader n s) (checks : Nat) :
    Reading quiet reader n { s with checks } :=
  ⟨⟨h.bounded.inside, h.bounded.total⟩, h.total, h.bytesRead_eq, fun hq => (h.quiet hq).count checks⟩

theorem checkOperation_safe : Safe quiet reader n checkOperation (fun _ m => m = n) F := by
  refine Ends.mono (checkOperation_ends (P := Reading quiet reader n)
    (E := fun e s => Bounded reader s ∧ (∃ error, e = .error error) ∧ (quiet → F)) (S := fun _ => False)
    (fun s checks hs => hs.count checks) ?_) (fun _ => id) (fun _ s hs => ⟨n, hs, rfl⟩) (fun _ _ => id) fun _ => id
  intro s error hs hstop
  exact ⟨(hs.count _).bounded, ⟨error, rfl⟩, fun hq => absurd ((hs.quiet hq).stopReason _) hstop⟩

/-! ### `Reader::read` -/

/-- The loop of `Reader::read` between two rounds. -/
structure Filling (quiet : Prop) (reader : Reader) (bytesRead offset size : Nat) (output : Bytes) (s : Inspecting) :
    Prop where
  bounded : Bounded reader s
  total : (s.log.map Pread.count).sum = bytesRead + output.length
  bytesRead_eq : s.bytesRead = bytesRead
  quiet : quiet → Quiet s
  output_eq : output = slice reader.file.contents offset output.length
  length_le : output.length ≤ size

/-- What is left to do for the loop: each round with a byte or a turn takes one of them. -/
def Rounds (size fuel : Nat) (output : Bytes) (s : Inspecting) : Prop :=
  s.turns.length + (size - output.length) < fuel

theorem pread_ends {offset size fuel : Nat} {output : Bytes} (hfile : offset + size ≤ reader.fileLimit)
    (hbudget : n + size ≤ reader.metadataLimit) (hmore : output.length < size) {S : Inspecting → Prop}
    {E : Fault → Inspecting → Prop} :
    Ends (fun s => Filling quiet reader n offset size output s ∧ Rounds size (fuel + 1) output s)
      (pread reader.file (offset + output.length) (size - output.length))
      (fun result s => match result with
        | .interrupted => Filling quiet reader n offset size output s ∧ Rounds size fuel output s
        | .failed => Bounded reader s ∧ ¬quiet
        | .returned data => Filling quiet reader n offset size (output ++ data) s ∧
            (data = [] → reader.file.contents.length < offset + size) ∧
            (data ≠ [] → Rounds size fuel (output ++ data) s)) E S := by
  rintro s ⟨hs, hrounds⟩
  have hlog : ∀ count, count ≤ size - output.length →
      ∀ p ∈ s.log ++ [(⟨offset + output.length, size - output.length, count⟩ : Pread)],
        p.offset + p.requested ≤ reader.fileLimit ∧ p.count ≤ p.requested := by
    intro count hcount p hp
    rcases List.mem_append.mp hp with hp | hp
    · exact hs.bounded.inside p hp
    · rw [List.mem_singleton.mp hp]
      exact ⟨by dsimp only; omega, hcount⟩
  have hsum : ∀ count,
      ((s.log ++ [(⟨offset + output.length, size - output.length, count⟩ : Pread)]).map Pread.count).sum =
        n + output.length + count := by
    intro count
    rw [List.map_append, List.sum_append, hs.total]
    simp
  have hturns : ∀ q : Quiet s, ∀ turn ∈ s.turns.tail, turn ≠ .failed := fun q turn hturn =>
    q.turns turn (List.mem_of_mem_tail hturn)
  -- the next turn, which asks for everything when there is none
  obtain ⟨turn, hturn⟩ : ∃ turn, s.turns.headD (.returned (size - output.length)) = turn := ⟨_, rfl⟩
  have hlength : turn = .returned (size - output.length) ∧ s.turns.tail.length = s.turns.length ∨
      turn ∈ s.turns ∧ s.turns.tail.length + 1 = s.turns.length := by
    cases hlist : s.turns with
    | nil => exact .inl ⟨by rw [← hturn, hlist]; rfl, rfl⟩
    | cons first rest =>
      rw [hlist] at hturn
      exact .inr ⟨by rw [← hturn]; exact List.mem_cons_self, rfl⟩
  unfold Rounds at hrounds
  have hle := hs.length_le
  unfold pread
  simp only [hturn]
  cases turn with
  | interrupted =>
    dsimp only
    refine ⟨⟨⟨hlog 0 (by omega), ?_⟩, ?_, hs.bytesRead_eq, fun hq => ⟨(hs.quiet hq).stopReason, hturns (hs.quiet hq)⟩,
      hs.output_eq, hle⟩, ?_⟩
    · rw [hsum]; omega
    · rw [hsum]; rfl
    · show s.turns.tail.length + (size - output.length) < fuel
      rcases hlength with ⟨h, -⟩ | ⟨-, h⟩
      · cases h
      · omega
  | failed =>
    dsimp only
    refine ⟨⟨hlog 0 (by omega), ?_⟩, fun hq => ?_⟩
    · rw [hsum]; omega
    · rcases hlength with ⟨h, -⟩ | ⟨h, -⟩
      · cases h
      · exact (hs.quiet hq).turns _ h rfl
  | returned short =>
    dsimp only
    set requested := min (size - output.length) (short + 1) with hrequested
    have hdata : LogAnalyzer.pread reader.file (size - output.length) (offset + output.length) short =
        slice reader.file.contents (offset + output.length) requested := rfl
    have hcount := length_slice_eq_min reader.file.contents (offset + output.length) requested
    rw [hdata]
    set data := slice reader.file.contents (offset + output.length) requested with hslice
    have htotal : output.length + data.length ≤ size := by omega
    refine ⟨⟨⟨hlog _ (by omega), ?_⟩, ?_, hs.bytesRead_eq, fun hq => ⟨(hs.quiet hq).stopReason, hturns (hs.quiet hq)⟩,
      ?_, ?_⟩, ?_, ?_⟩
    · rw [hsum]; omega
    · rw [hsum, List.length_append]; omega
    · rw [List.length_append, slice_append, ← hs.output_eq, hcount, slice_min, hslice]
    · rw [List.length_append]; exact htotal
    · intro hempty
      rw [hempty, List.length_nil] at hcount
      omega
    · intro hne
      have hpos : 0 < data.length := List.length_pos_iff.mpr hne
      show s.turns.tail.length + (size - (output ++ data).length) < fuel
      rw [List.length_append]
      rcases hlength with ⟨-, h⟩ | ⟨-, h⟩ <;> omega

theorem readLoop_ends {offset size : Nat} (hfile : offset + size ≤ reader.fileLimit)
    (hfits : size = 0 ∨ offset + size ≤ kMaxUint64) (hbudget : n + size ≤ reader.metadataLimit) (fuel : Nat) (output : Bytes) :
    Ends (fun s => Filling quiet reader n offset size output s ∧ Rounds size fuel output s)
      (readLoop reader.file offset size fuel output)
      (fun data s => Filling quiet reader n offset size data s ∧ data.length = size)
      (fun e s => Bounded reader s ∧ (∃ error, e = .error error) ∧
        (quiet → reader.file.contents.length < offset + size)) fun _ => False := by
  induction fuel generalizing output with
  | zero => exact fun s hs => absurd hs.2 (Nat.not_lt_zero _)
  | succ fuel ih =>
    unfold readLoop
    split
    · rename_i hmore
      have hcheck : Ends (fun s => Filling quiet reader n offset size output s ∧ Rounds size (fuel + 1) output s)
          checkOperation (fun _ s => Filling quiet reader n offset size output s ∧ Rounds size (fuel + 1) output s)
          (fun e s => Bounded reader s ∧ (∃ error, e = .error error) ∧
            (quiet → reader.file.contents.length < offset + size)) fun _ => False := by
        apply checkOperation_ends
        · rintro s checks ⟨hs, hrounds⟩
          exact ⟨⟨⟨hs.bounded.inside, hs.bounded.total⟩, hs.total, hs.bytesRead_eq, fun hq => (hs.quiet hq).count checks,
            hs.output_eq, hs.length_le⟩, hrounds⟩
        · rintro s error ⟨hs, -⟩ hstop
          exact ⟨⟨hs.bounded.inside, hs.bounded.total⟩, ⟨error, rfl⟩, fun hq => absurd ((hs.quiet hq).stopReason _) hstop⟩
      refine Ends.bind hcheck fun _ => ?_
      rw [fitting_eq (by omega), pure_bind_elf]
      refine Ends.bind (pread_ends hfile hbudget hmore) fun result => ?_
      cases result with
      | interrupted => exact ih output
      | failed => exact Ends.raise fun s hs => ⟨hs.1, ⟨_, rfl⟩, fun hq => absurd hq hs.2⟩
      | returned data =>
        dsimp only
        split
        · -- the file ends before the range does
          rename_i hempty
          exact Ends.raise fun s hs => ⟨hs.1.bounded, ⟨_, rfl⟩, fun _ => hs.2.1 hempty⟩
        · rename_i hne
          exact (ih (output ++ data)).pre fun s hs => ⟨hs.1, hs.2.2 hne⟩
    · rename_i hdone
      exact Ends.pure fun s hs => ⟨hs.1, Nat.le_antisymm hs.1.length_le (Nat.le_of_not_lt hdone)⟩

theorem rangeInside_iff {offset size limit : Nat} :
    rangeInside offset size limit = true ↔ offset + size ≤ limit ∧ (size = 0 ∨ offset + size ≤ kMaxUint64) := by
  unfold rangeInside checkedAdd
  by_cases h : kMaxUint64 - offset < size
  · rw [if_pos h]
    constructor
    · intro hfalse
      cases hfalse
    · rintro ⟨-, hsize⟩
      omega
  · rw [if_neg h]
    simp only [decide_eq_true_eq]
    constructor
    · intro hle
      exact ⟨hle, by omega⟩
    · exact And.left

/-- What `Reader::read` returns, and what a quiet run needs to return it. -/
theorem read_safe (hlimit : reader.metadataLimit ≤ kMaxUint64) (offset size : Nat) :
    Safe quiet reader n (reader.read offset size)
      (fun data m => m = n + size ∧ m ≤ reader.metadataLimit ∧ offset + size ≤ reader.fileLimit ∧
        data = slice reader.file.contents offset size ∧ data.length = size)
      (¬(offset + size ≤ reader.fileLimit ∧ offset + size ≤ kMaxUint64 ∧ n + size ≤ reader.metadataLimit ∧
        offset + size ≤ reader.file.contents.length)) := by
  unfold Reader.read
  refine Safe.bind checkOperation_safe ?_
  rintro _ m rfl
  by_cases hinside : rangeInside offset size reader.fileLimit = true
  · rw [hinside, if_neg (by decide)]
    have ⟨hfile, hfits⟩ := rangeInside_iff.mp hinside
    intro s hs
    rw [bind_apply, get_apply]
    dsimp only
    rw [hs.bytesRead_eq]
    by_cases hbudget : reader.metadataLimit - min m reader.metadataLimit < size
    · rw [if_pos hbudget]
      exact ⟨hs.bounded, ⟨_, rfl⟩, fun _ hall => by omega⟩
    · rw [if_neg hbudget]
      have hread : m ≤ reader.metadataLimit := by
        have := hs.bounded.total
        rwa [hs.total] at this
      rw [fitting_eq (by omega)]
      have hstart : Filling quiet reader m offset size [] s ∧ Rounds size (s.turns.length + size + 1) [] s :=
        ⟨⟨hs.bounded, hs.total, hs.bytesRead_eq, hs.quiet, rfl, Nat.zero_le _⟩, by
          unfold Rounds
          rw [List.length_nil]
          omega⟩
      have hloop := readLoop_ends hfile hfits (by omega) (s.turns.length + size + 1) [] s hstart
      have hall : readAll reader.file offset size s =
          readLoop reader.file offset size (s.turns.length + size + 1) [] s := rfl
      rw [bind_apply, hall]
      generalize readLoop reader.file offset size (s.turns.length + size + 1) [] s = result at hloop
      obtain ⟨(data | e | _), t⟩ := result
      · obtain ⟨ht, hlength⟩ := hloop
        refine ⟨m + size, ⟨⟨ht.bounded.inside, ht.bounded.total⟩, ?_, rfl, fun hq => ?_⟩, rfl, by omega, hfile, ?_, hlength⟩
        · rw [← hlength]
          exact ht.total
        · exact ⟨(ht.quiet hq).stopReason, (ht.quiet hq).turns⟩
        · rw [← hlength]
          exact ht.output_eq
      · exact ⟨hloop.1, hloop.2.1, fun hq hall => absurd (hloop.2.2 hq) (by omega)⟩
      · exact hloop
  · rw [Bool.not_eq_true] at hinside
    rw [hinside, if_pos (show (!false) = true from rfl)]
    refine Safe.fail fun _ hall => ?_
    have := rangeInside_iff.mpr ⟨hall.1, .inr hall.2.1⟩
    rw [hinside] at this
    cases this

end

end ElfAnalyzer

end NativeMcp
