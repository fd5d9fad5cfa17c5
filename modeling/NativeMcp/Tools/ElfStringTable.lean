import NativeMcp.Tools.ElfDynamic

/-!
# Where the string table lies in the file

Each program header that backs something in the file has been checked against the file limit when it was read.  From
this alone, for an interval of the address space that is not empty: the first load segment that holds the whole interval
decides where it lies, no sum on the way wraps around, and the read of the interval stays inside the file.
-/

namespace NativeMcp

namespace ElfAnalyzer

open Program

/-- What the inspection has checked of a program header. -/
def RangeChecked (limit : Nat) (program : ProgramHeader) : Prop :=
  0 < program.fileSize → rangeInside program.offset program.fileSize limit = true

instance (limit : Nat) (program : ProgramHeader) : Decidable (RangeChecked limit program) :=
  inferInstanceAs (Decidable (_ → _))

/-! ### The check -/

private theorem readProgramHeader_checked (reader : Reader) (header : Header) (index : Nat) :
    Ends (fun _ => True) (readProgramHeader reader header index)
      (fun program _ => RangeChecked reader.fileLimit program) (fun _ _ => True) fun _ => True := by
  have hany : ∀ {α : Type} (x : Elf α), Ends (fun _ => True) x (fun _ _ => True) (fun _ _ => True) fun _ => True := by
    intro α x s _
    split <;> trivial
  unfold readProgramHeader
  refine Ends.bind (hany _) fun distance => ?_
  refine Ends.bind (hany _) fun offset => ?_
  refine Ends.bind (hany _) fun raw => ?_
  refine Ends.bind (hany _) fun parsed => ?_
  intro s _
  by_cases hout : 0 < parsed.fileSize ∧ (!rangeInside parsed.offset parsed.fileSize reader.fileLimit) = true
  · rw [if_pos hout]
    trivial
  · have hchecked : RangeChecked reader.fileLimit parsed := by
      intro hpos
      by_contra hnot
      rw [Bool.not_eq_true] at hnot
      exact hout ⟨hpos, by rw [hnot]; rfl⟩
    rw [if_neg hout]
    by_cases hload : parsed.type = ptLoad ∧ parsed.memorySize < parsed.fileSize
    · rw [if_pos hload]
      trivial
    · rw [if_neg hload]
      exact hchecked

/-- Whatever the file holds and however it is read, the headers that the inspection goes on with have passed the
check. -/
theorem readProgramHeaders_checked (reader : Reader) (header : Header) (count : Nat) : ∀ index,
    Ends (fun _ => True) (readProgramHeaders reader header index count)
      (fun programs _ => ∀ program ∈ programs, RangeChecked reader.fileLimit program) (fun _ _ => True)
      fun _ => True := by
  induction count with
  | zero =>
    intro index
    exact Ends.pure fun _ _ program h => absurd h List.not_mem_nil
  | succ count ih =>
    intro index
    unfold readProgramHeaders
    intro s _
    have hfirst := readProgramHeader_checked reader header index s trivial
    rw [bind_apply]
    generalize readProgramHeader reader header index s = result at hfirst
    obtain ⟨(program | e | _), t⟩ := result
    · have hrest := ih (index + 1) t trivial
      dsimp only
      rw [bind_apply]
      generalize readProgramHeaders reader header (index + 1) count t = result' at hrest
      obtain ⟨(programs | e | _), t'⟩ := result'
      · intro p hp
        rcases List.mem_cons.1 hp with rfl | hp
        · exact hfirst
        · exact hrest p hp
      · trivial
      · trivial
    · trivial
    · trivial

/-! ### The read -/

/-- The refusal of a range that is not inside the file. -/
def outsideFile : ElfAnalysisError :=
  ⟨.invalidFormat, bytes "ELF metadata points outside the approved file range"⟩

/-- The program does not end with that refusal. -/
private def StaysInside {α : Type} (x : Elf α) : Prop :=
  Ends (fun _ => True) x (fun _ _ => True) (fun e _ => e ≠ .error outsideFile) fun _ => True

section

variable {α β : Type} {x : Elf α}

private theorem StaysInside.bind {f : α → Elf β} (hx : StaysInside x) (hf : ∀ a, StaysInside (f a)) :
    StaysInside (x >>= f) :=
  Ends.bind hx hf

private theorem StaysInside.fail {code : ElfAnalysisErrorCode} {message : String}
    (h : ⟨code, bytes message⟩ ≠ outsideFile) : StaysInside (fail code message : Elf α) :=
  Ends.raise fun _ _ herror => h (Fault.error.inj herror)

private theorem StaysInside.ite {c : Prop} [Decidable c] {y : Elf α} (hx : c → StaysInside x) (hy : ¬c → StaysInside y) :
    StaysInside (if c then x else y) := by
  by_cases h : c
  · rw [if_pos h]
    exact hx h
  · rw [if_neg h]
    exact hy h

end

private theorem checkOperation_staysInside : StaysInside checkOperation := by
  intro s _
  have hnext : nextStopReason s = (.returned (s.stopReason s.checks), { s with checks := s.checks + 1 }) := rfl
  unfold checkOperation
  rw [bind_apply, hnext]
  dsimp only
  cases s.stopReason s.checks with
  | none => trivial
  | cancelled => exact fun herror => absurd (Fault.error.inj herror) (by decide)
  | deadlineExceeded => exact fun herror => absurd (Fault.error.inj herror) (by decide)

private theorem fitting_staysInside (value : Nat) : StaysInside (fitting value) := by
  unfold fitting
  refine StaysInside.ite (fun _ => Ends.pure fun _ _ => trivial) fun _ => ?_
  exact Ends.raise fun _ _ herror => by cases herror

private theorem readLoop_staysInside (file : ReadOnlyFile) (offset size fuel : Nat) : ∀ output,
    StaysInside (readLoop file offset size fuel output) := by
  induction fuel with
  | zero =>
    intro output s _
    trivial
  | succ fuel ih =>
    intro output
    unfold readLoop
    refine StaysInside.ite (fun _ => ?_) fun _ => Ends.pure fun _ _ => trivial
    refine StaysInside.bind checkOperation_staysInside fun _ => ?_
    refine StaysInside.bind (fitting_staysInside _) fun position => ?_
    refine StaysInside.bind (fun s _ => trivial) fun result => ?_
    cases result with
    | interrupted => exact ih output
    | failed => exact StaysInside.fail (by decide +kernel)
    | returned data =>
      dsimp only
      refine StaysInside.ite (fun _ => ?_) fun _ => ih (output ++ data)
      exact StaysInside.fail (by decide +kernel)

/-- A range inside the file is not refused, in whatever state the read begins. -/
theorem read_ne_outsideFile {reader : Reader} {offset size : Nat}
    (hinside : rangeInside offset size reader.fileLimit = true) (s : Inspecting) :
    (reader.read offset size s).1 ≠ .raised (.error outsideFile) := by
  have hread : StaysInside (reader.read offset size) := by
    unfold Reader.read
    refine StaysInside.bind checkOperation_staysInside fun _ => ?_
    rw [hinside, if_neg (by decide)]
    refine StaysInside.bind (fun s _ => trivial) fun s => ?_
    refine StaysInside.ite (fun _ => StaysInside.fail (by decide +kernel)) fun _ => ?_
    refine StaysInside.bind ?_ fun output => ?_
    · exact fun s _ => readLoop_staysInside reader.file offset size _ [] s trivial
    · refine StaysInside.bind (fitting_staysInside _) fun total => ?_
      exact fun s _ => trivial
  intro herror
  have hends := hread s trivial
  generalize reader.read offset size s = result at hends herror
  obtain ⟨ending, t⟩ := result
  cases herror
  exact hends rfl

/-! ### The interval -/

theorem holdsInterval_iff {address size : Nat} {program : ProgramHeader} :
    holdsInterval address size program = true ↔ program.type = ptLoad ∧ program.virtualAddress ≤ address ∧
      address + size ≤ program.virtualAddress + program.fileSize := by
  unfold holdsInterval
  rw [Bool.and_eq_true, Bool.and_eq_true, beq_iff_eq, decide_eq_true_eq, decide_eq_true_eq, and_assoc]

private theorem inside_of_holds {limit address size : Nat} {program : ProgramHeader} (hsize : 0 < size)
    (hchecked : RangeChecked limit program) (hholds : holdsInterval address size program = true) :
    program.offset + program.fileSize ≤ limit ∧ program.offset + program.fileSize ≤ kMaxUint64 := by
  obtain ⟨-, hle, hend⟩ := holdsInterval_iff.1 hholds
  have hpos : 0 < program.fileSize := by omega
  have ⟨hlimit, hfits⟩ := rangeInside_iff.1 (hchecked hpos)
  exact ⟨hlimit, by omega⟩

/-- An interval that is not empty lies in the file where the first load segment holds it whose file-backed range contains
it, and nowhere when there is none; it lies inside the file, and its read is not refused as outside of it. -/
theorem virtualToFile_correct (reader : Reader) (programs : List ProgramHeader) (address size : Nat) (hsize : 0 < size)
    (hchecked : ∀ program ∈ programs, RangeChecked reader.fileLimit program) :
    (∀ offset, virtualToFile programs address size = some offset ↔
      ∃ before program after, programs = before ++ program :: after ∧
        (program.type = ptLoad ∧ program.virtualAddress ≤ address ∧
          address + size ≤ program.virtualAddress + program.fileSize) ∧
        (∀ earlier ∈ before, ¬(earlier.type = ptLoad ∧ earlier.virtualAddress ≤ address ∧
          address + size ≤ earlier.virtualAddress + earlier.fileSize)) ∧
        offset = program.offset + (address - program.virtualAddress)) ∧
    ((virtualToFile programs address size).isSome = true ↔
      ∃ program ∈ programs, program.type = ptLoad ∧ program.virtualAddress ≤ address ∧
        address + size ≤ program.virtualAddress + program.fileSize) ∧
    ∀ offset, virtualToFile programs address size = some offset →
      offset + size ≤ reader.fileLimit ∧ offset + size ≤ kMaxUint64 ∧
      ∀ s, (reader.read offset size s).1 ≠ .raised (.error outsideFile) := by
  have heq := virtualToFile_eq address size programs fun program h hholds =>
    (inside_of_holds hsize (hchecked program h) hholds).2
  refine ⟨fun offset => ?_, ?_, fun offset hoffset => ?_⟩
  · rw [heq, Option.map_eq_some_iff]
    constructor
    · intro h
      obtain ⟨program, hfind, hoffset⟩ := h
      obtain ⟨hholds, before, after, hsplit, hbefore⟩ := List.find?_eq_some_iff_append.1 hfind
      refine ⟨before, program, after, hsplit, holdsInterval_iff.1 hholds, ?_, hoffset.symm⟩
      intro earlier hmem hearlier
      have hnot := hbefore earlier hmem
      rw [holdsInterval_iff.2 hearlier] at hnot
      cases hnot
    · intro h
      obtain ⟨before, program, after, hsplit, hholds, hbefore, hoffset⟩ := h
      refine ⟨program, List.find?_eq_some_iff_append.2 ⟨holdsInterval_iff.2 hholds, before, after, hsplit, ?_⟩,
        hoffset.symm⟩
      intro earlier hmem
      rw [Bool.not_eq_true', ← Bool.not_eq_true, holdsInterval_iff]
      exact hbefore earlier hmem
  · rw [heq, Option.isSome_map, List.find?_isSome]
    constructor
    · intro h
      obtain ⟨program, hmem, hholds⟩ := h
      exact ⟨program, hmem, holdsInterval_iff.1 hholds⟩
    · intro h
      obtain ⟨program, hmem, hholds⟩ := h
      exact ⟨program, hmem, holdsInterval_iff.2 hholds⟩
  · rw [heq, Option.map_eq_some_iff] at hoffset
    obtain ⟨program, hfind, hoffset⟩ := hoffset
    have hholds := List.find?_some hfind
    have ⟨hlimit, hfits⟩ := inside_of_holds hsize (hchecked program (List.mem_of_find?_eq_some hfind)) hholds
    obtain ⟨-, hle, hend⟩ := holdsInterval_iff.1 hholds
    have hinside : offset + size ≤ reader.fileLimit := by omega
    have hsum : offset + size ≤ kMaxUint64 := by omega
    exact ⟨hinside, hsum, read_ne_outsideFile (rangeInside_iff.2 ⟨hinside, .inr hsum⟩)⟩

private def sampleReader : Reader := ⟨⟨[], 4096, 8192, none⟩, 4096⟩

/-- A note that backs nothing, the code and the data of a file of 4096 bytes. -/
private def samplePrograms : List ProgramHeader :=
  [⟨4, 4, kMaxUint64, 0, 0, 0⟩, ⟨ptLoad, 5, 0, 0x400000, 0x200, 0x200⟩, ⟨ptLoad, 6, 0x200, 0x600000, 0x100, 0x180⟩]

/-- A table of 32 bytes in the data. -/
theorem virtualToFile_sample :
    virtualToFile samplePrograms 0x600010 0x20 = some 0x210 ∧ 0x210 + 0x20 ≤ sampleReader.fileLimit ∧
      ∀ s, (sampleReader.read 0x210 0x20 s).1 ≠ .raised (.error outsideFile) := by
  obtain ⟨hiff, -, hread⟩ := virtualToFile_correct sampleReader samplePrograms 0x600010 0x20 (by decide) (by decide)
  have hsome : virtualToFile samplePrograms 0x600010 0x20 = some 0x210 := by
    refine (hiff 0x210).2 ⟨samplePrograms.take 2, ⟨ptLoad, 6, 0x200, 0x600000, 0x100, 0x180⟩, [], rfl, by decide, ?_, rfl⟩
    decide
  obtain ⟨hlimit, -, hnot⟩ := hread 0x210 hsome
  exact ⟨hsome, hlimit, hnot⟩

end ElfAnalyzer

end NativeMcp
