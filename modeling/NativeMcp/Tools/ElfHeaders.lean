import NativeMcp.Tools.ElfReading

/-!
# The headers and the segments of an ELF file

The header and the program headers that the bytes of a file encode, and what the inspection keeps of them: it decodes
exactly these, and the scan of the segments is a summary of the whole list of program headers.
-/

namespace NativeMcp

namespace ElfAnalyzer

open Program ByteOrder Layout

/-- The header with the fields of a file, in a class and a byte order. -/
def headerIn (contents : Bytes) (is64 little : Bool) (osAbi : UInt8) : Header where
  is64 := is64
  little := little
  osAbi := osAbi
  type := valueAt contents 16 2 little
  machine := valueAt contents 18 2 little
  entry := valueAt contents 24 (wordSize is64) little
  programOffset := valueAt contents (if is64 then 32 else 28) (wordSize is64) little
  programEntrySize := valueAt contents (if is64 then 54 else 42) 2 little
  programCount := valueAt contents (if is64 then 56 else 44) 2 little

/-- The header that the bytes of a file encode. -/
def fileHeader (contents : Bytes) : Header :=
  headerIn contents (contents.getD 4 0 == 2) (contents.getD 5 0 == 1) (contents.getD 7 0)

/-- The program header that begins at an offset. -/
def programAt (data : Bytes) (offset : Nat) (is64 little : Bool) : ProgramHeader :=
  if is64 then
    { type := valueAt data offset 4 little
      flags := valueAt data (offset + 4) 4 little
      offset := valueAt data (offset + 8) 8 little
      virtualAddress := valueAt data (offset + 16) 8 little
      fileSize := valueAt data (offset + 32) 8 little
      memorySize := valueAt data (offset + 40) 8 little }
  else
    { type := valueAt data offset 4 little
      flags := valueAt data (offset + 24) 4 little
      offset := valueAt data (offset + 4) 4 little
      virtualAddress := valueAt data (offset + 8) 4 little
      fileSize := valueAt data (offset + 16) 4 little
      memorySize := valueAt data (offset + 20) 4 little }

/-- The program header of an index. -/
def programOf (contents : Bytes) (header : Header) (index : Nat) : ProgramHeader :=
  programAt contents (header.programOffset + index * header.programEntrySize) header.is64 header.little

def filePrograms (contents : Bytes) (header : Header) : List ProgramHeader :=
  (List.range header.programCount).map (programOf contents header)

theorem valueAt_slice {data : Bytes} {offset size start width : Nat} (little : Bool) (h : start + width ≤ size) :
    valueAt (slice data offset size) start width little = valueAt data (offset + start) width little := by
  unfold valueAt
  rw [slice_slice h]

theorem programAt_slice {data : Bytes} {offset size : Nat} (is64 little : Bool) (h : programHeaderSize is64 ≤ size) :
    programAt (slice data offset size) 0 is64 little = programAt data offset is64 little := by
  unfold programHeaderSize at h
  unfold programAt
  cases is64
  · rw [if_neg Bool.false_ne_true] at h
    simp only [Bool.false_eq_true, if_false, Nat.zero_add]
    repeat rw [valueAt_slice little (by omega)]
    rfl
  · rw [if_pos rfl] at h
    simp only [if_true, Nat.zero_add]
    repeat rw [valueAt_slice little (by omega)]
    rfl

theorem parseProgramHeader_eq {raw : Bytes} (is64 little : Bool) (h : programHeaderSize is64 ≤ raw.length) :
    parseProgramHeader is64 little raw = pure (programAt raw 0 is64 little) := by
  unfold programHeaderSize at h
  unfold parseProgramHeader programAt
  cases is64
  · rw [if_neg Bool.false_ne_true] at h
    simp only [Bool.false_eq_true, if_false, Nat.zero_add]
    rw [readU32_eq little (by omega), pure_bind_elf, readU32_eq little (by omega), pure_bind_elf,
      readU32_eq little (by omega), pure_bind_elf, readU32_eq little (by omega), pure_bind_elf,
      readU32_eq little (by omega), pure_bind_elf, readU32_eq little (by omega), pure_bind_elf]
  · rw [if_pos rfl] at h
    simp only [if_true, Nat.zero_add]
    rw [readU32_eq little (by omega), pure_bind_elf, readU32_eq little (by omega), pure_bind_elf,
      readU64_eq little (by omega), pure_bind_elf, readU64_eq little (by omega), pure_bind_elf,
      readU64_eq little (by omega), pure_bind_elf, readU64_eq little (by omega), pure_bind_elf]

section

variable {quiet : Prop} {reader : Reader} {n : Nat} {limits : ElfInspectionLimits}

/-! ### The header -/

theorem byteAt_getD {data : Bytes} (index : Nat) (h : index < data.length) :
    byteAt data index = pure (data.getD index 0) := by
  rw [byteAt_eq h, List.getD_eq_getElem?_getD, List.getElem?_eq_getElem h, Option.getD_some]

private theorem checkIdentification_safe {identification : Bytes} (h : identification.length = 16) :
    Safe quiet reader n (checkIdentification identification)
      (fun r m => m = n ∧
        r = (identification.getD 4 0 == 2, identification.getD 5 0 == 1, identification.getD 7 0)) True := by
  have hbyte : ∀ index, index < 16 → byteAt identification index = pure (identification.getD index 0) := by
    intro index hindex
    exact byteAt_getD index (by omega)
  unfold checkIdentification
  simp only [hbyte 0 (by omega), hbyte 1 (by omega), hbyte 2 (by omega), hbyte 3 (by omega), hbyte 4 (by omega),
    hbyte 5 (by omega), hbyte 6 (by omega), hbyte 7 (by omega), pure_bind_elf]
  repeat' split
  all_goals first
    | exact Safe.fail fun _ => trivial
    | exact Safe.pure ⟨rfl, rfl⟩

/-- What the header says of the table of the program headers. -/
structure TableInside (reader : Reader) (limits : ElfInspectionLimits) (header : Header) : Prop where
  count_le : header.programCount ≤ limits.maxProgramHeaders
  entrySize : 0 < header.programCount → header.programEntrySize = programHeaderSize header.is64
  inside : header.programOffset + header.programCount * header.programEntrySize ≤ reader.fileLimit
  fits : header.programCount * header.programEntrySize = 0 ∨
    header.programOffset + header.programCount * header.programEntrySize ≤ kMaxUint64

theorem checkedMultiply_eq {left right result : Nat} (h : checkedMultiply left right = some result) :
    result = left * right := by
  unfold checkedMultiply at h
  split at h
  · cases h
  · exact (Option.some.inj h).symm

/-- The checks of the header, on its fields. -/
def checkFields (limits : ElfInspectionLimits) (fileLimit version size : Nat) (header : Header) : Elf Header :=
  if version ≠ 1 then fail .invalidFormat "ELF header version is invalid"
  else if size ≠ headerSize header.is64 then fail .invalidFormat "ELF header size is invalid"
  else if header.programCount = 0xFFFF then
    fail .unsupportedFeature "extended ELF program-header numbering is not supported"
  else if limits.maxProgramHeaders < header.programCount then
    fail .metadataTooLarge "ELF program-header count exceeds the inspection limit"
  else if 0 < header.programCount ∧ (header.programEntrySize ≠ programHeaderSize header.is64 ∨
      limits.maxProgramHeaderEntryBytes < header.programEntrySize) then
    fail .invalidFormat "ELF program-header entry size is invalid"
  else if !((checkedMultiply header.programCount header.programEntrySize).any fun tableSize =>
      rangeInside header.programOffset tableSize fileLimit) then
    fail .invalidFormat "ELF program-header table is out of range"
  else pure header

theorem checkHeader_eq (limits : ElfInspectionLimits) (fileLimit : Nat) {data contents : Bytes} (is64 little : Bool)
    (osAbi : UInt8) (hdata : data = slice contents 0 (headerSize is64)) (hlength : data.length = headerSize is64) :
    checkHeader limits fileLimit is64 little osAbi data =
      checkFields limits fileLimit (valueAt contents 20 4 little) (valueAt contents (if is64 then 52 else 40) 2 little)
        (headerIn contents is64 little osAbi) := by
  have hfield : ∀ offset width, offset + width ≤ headerSize is64 →
      valueAt data offset width little = valueAt contents offset width little := by
    intro offset width h
    rw [hdata, valueAt_slice little h, Nat.zero_add]
  have hsize : 52 ≤ headerSize is64 := by cases is64 <;> decide
  have hentry : 24 + wordSize is64 ≤ headerSize is64 := by cases is64 <;> decide
  have hprogram : (if is64 then 32 else 28) + wordSize is64 ≤ headerSize is64 := by cases is64 <;> decide
  have hsizes : (if is64 then 52 else 40) + 2 ≤ headerSize is64 := by cases is64 <;> decide
  have hentrySize : (if is64 then 54 else 42) + 2 ≤ headerSize is64 := by cases is64 <;> decide
  have hcount : (if is64 then 56 else 44) + 2 ≤ headerSize is64 := by cases is64 <;> decide
  unfold checkHeader
  rw [readU16_eq little (by omega), pure_bind_elf, readU16_eq little (by omega), pure_bind_elf,
    readU32_eq little (by omega), pure_bind_elf, readWord_eq is64 little (by omega), pure_bind_elf,
    readWord_eq is64 little (by omega), pure_bind_elf, readU16_eq little (by omega), pure_bind_elf,
    readU16_eq little (by omega), pure_bind_elf, readU16_eq little (by omega), pure_bind_elf, hfield 16 2 (by omega),
    hfield 18 2 (by omega), hfield 20 4 (by omega), hfield 24 _ hentry, hfield _ _ hprogram, hfield _ 2 hsizes,
    hfield _ 2 hentrySize, hfield _ 2 hcount]
  rfl

private theorem checkFields_safe (version size : Nat) (header : Header) :
    Safe quiet reader n (checkFields limits reader.fileLimit version size header)
      (fun result m => m = n ∧ result = header ∧ TableInside reader limits header) True := by
  unfold checkFields
  refine Safe.ite (fun _ => Safe.fail fun _ => trivial) fun _ => ?_
  refine Safe.ite (fun _ => Safe.fail fun _ => trivial) fun _ => ?_
  refine Safe.ite (fun _ => Safe.fail fun _ => trivial) fun _ => ?_
  refine Safe.ite (fun _ => Safe.fail fun _ => trivial) fun hmany => ?_
  refine Safe.ite (fun _ => Safe.fail fun _ => trivial) fun hentries => ?_
  refine Safe.ite (fun _ => Safe.fail fun _ => trivial) fun htable => ?_
  rw [Bool.not_eq_true, Bool.not_eq_false', Option.any_eq_true] at htable
  obtain ⟨tableSize, hmultiply, hinside⟩ := htable
  rw [checkedMultiply_eq hmultiply] at hinside
  have ⟨hlimit, hfits⟩ := rangeInside_iff.mp hinside
  refine Safe.pure ⟨rfl, rfl, Nat.le_of_not_lt hmany, fun hpos => ?_, hlimit, hfits⟩
  by_contra hother
  exact hentries ⟨hpos, .inl hother⟩

theorem readHeader_safe (hmetadata : reader.metadataLimit ≤ kMaxUint64) :
    Safe quiet reader n (readHeader reader limits)
      (fun header m => m ≤ reader.metadataLimit ∧ header = fileHeader reader.file.contents ∧
        TableInside reader limits header) True := by
  have hgetD : ∀ {data : Bytes} {size : Nat} (index : Nat), data = slice reader.file.contents 0 size → index < size →
      data.getD index 0 = reader.file.contents.getD index 0 := by
    intro data size index hdata hindex
    rw [hdata, List.getD_eq_getElem?_getD, List.getD_eq_getElem?_getD]
    unfold slice
    rw [List.drop_zero, List.getElem?_take_of_lt hindex]
  unfold readHeader
  refine Safe.bind (Safe.mono (read_safe hmetadata 0 16) (fun _ _ => id) fun _ _ => trivial) ?_
  rintro identification m ⟨-, -, -, hidentification, hlength⟩
  refine Safe.bind (checkIdentification_safe hlength) ?_
  rintro ⟨is64, little, osAbi⟩ m' ⟨-, hfields⟩
  rw [hgetD 4 hidentification (by omega), hgetD 5 hidentification (by omega), hgetD 7 hidentification (by omega)] at hfields
  simp only [Prod.mk.injEq] at hfields
  refine Safe.bind (Safe.mono (read_safe hmetadata 0 (headerSize is64)) (fun _ _ => id) fun _ _ => trivial) ?_
  rintro data m'' ⟨-, hbudget, -, hdata, hlength⟩
  rw [checkHeader_eq limits reader.fileLimit is64 little osAbi hdata hlength]
  refine Safe.mono (checkFields_safe _ _ _) ?_ fun _ => id
  rintro header _ ⟨rfl, rfl, h⟩
  obtain ⟨rfl, rfl, rfl⟩ := hfields
  exact ⟨hbudget, rfl, h⟩

/-! ### The program headers -/

/-- What the inspection has checked of a program header. -/
structure ProgramInside (reader : Reader) (program : ProgramHeader) : Prop where
  inside : 0 < program.fileSize → program.offset + program.fileSize ≤ reader.fileLimit
  fits : program.offset + program.fileSize ≤ kMaxUint64
  fileSize_le : program.type = ptLoad → program.fileSize ≤ program.memorySize

theorem programAt_le (data : Bytes) (offset : Nat) (is64 little : Bool) :
    (programAt data offset is64 little).offset ≤ kMaxUint64 ∧
      (programAt data offset is64 little).fileSize ≤ kMaxUint64 := by
  have hword := fun start => valueAt_lt data start 4 little
  have hlong := fun start => valueAt_lt data start 8 little
  unfold programAt kMaxUint64
  cases is64
  · have hoffset := hword (offset + 4)
    have hsize := hword (offset + 16)
    rw [if_neg Bool.false_ne_true]
    dsimp only
    omega
  · have hoffset := hlong (offset + 8)
    have hsize := hlong (offset + 32)
    rw [if_pos rfl]
    dsimp only
    omega

private theorem readProgramHeader_safe (hmetadata : reader.metadataLimit ≤ kMaxUint64) {header : Header} {index : Nat}
    (htable : TableInside reader limits header) (hindex : index < header.programCount) :
    Safe quiet reader n (readProgramHeader reader header index)
      (fun program m => m ≤ reader.metadataLimit ∧ program = programOf reader.file.contents header index ∧
        ProgramInside reader program) True := by
  have hentrySize := htable.entrySize (by omega)
  have hpos : 0 < header.programEntrySize := by
    rw [hentrySize]
    cases header.is64 <;> decide
  have hmul : (index + 1) * header.programEntrySize ≤ header.programCount * header.programEntrySize :=
    Nat.mul_le_mul_right _ hindex
  rw [Nat.add_mul, Nat.one_mul] at hmul
  have hfits := htable.fits
  unfold readProgramHeader
  rw [fitting_eq (by omega), pure_bind_elf, fitting_eq (by omega), pure_bind_elf]
  refine Safe.bind (Safe.mono (read_safe hmetadata _ header.programEntrySize) (fun _ _ => id) fun _ _ => trivial) ?_
  rintro raw m ⟨-, hm, -, hraw, hlength⟩
  rw [parseProgramHeader_eq _ _ (by omega), pure_bind_elf, hraw, programAt_slice _ _ (by omega)]
  refine Safe.ite (fun _ => Safe.fail fun _ => trivial) fun hinside => ?_
  refine Safe.ite (fun _ => Safe.fail fun _ => trivial) fun hload => ?_
  rw [not_and, Bool.not_eq_true, Bool.not_eq_false'] at hinside
  refine Safe.pure ⟨hm, rfl, fun hsize => (rangeInside_iff.mp (hinside hsize)).1, ?_, fun htype => ?_⟩
  · have hoffset := (programAt_le reader.file.contents
      (header.programOffset + index * header.programEntrySize) header.is64 header.little).1
    by_cases hsize : 0 < (programAt reader.file.contents (header.programOffset + index * header.programEntrySize)
        header.is64 header.little).fileSize
    · have := (rangeInside_iff.mp (hinside hsize)).2
      omega
    · omega
  · rw [not_and] at hload
    exact Nat.le_of_not_lt (hload htype)

theorem readProgramHeaders_safe (hmetadata : reader.metadataLimit ≤ kMaxUint64) {header : Header}
    (htable : TableInside reader limits header) (count index : Nat) (hcount : index + count = header.programCount)
    (hbudget : n ≤ reader.metadataLimit) :
    Safe quiet reader n (readProgramHeaders reader header index count)
      (fun programs m => m ≤ reader.metadataLimit ∧
        programs = (List.range' index count).map (programOf reader.file.contents header) ∧
        ∀ program ∈ programs, ProgramInside reader program) True := by
  induction count generalizing index n with
  | zero => exact Safe.pure ⟨hbudget, rfl, fun program h => absurd h List.not_mem_nil⟩
  | succ count ih =>
    unfold readProgramHeaders
    refine Safe.bind (readProgramHeader_safe hmetadata htable (by omega)) ?_
    rintro program m ⟨hm, hprogram, hinside⟩
    refine Safe.bind (ih (index + 1) (by omega) hm) ?_
    rintro programs m' ⟨hm', hprograms, hall⟩
    refine Safe.pure ⟨hm', by rw [hprogram, hprograms]; rfl, ?_⟩
    intro p hp
    rcases List.mem_cons.mp hp with rfl | hp
    · exact hinside
    · exact hall p hp

/-! ### The segments -/

/-- The bytes up to the first NUL. -/
theorem takeWhile_eq_take {data : Bytes} {last : Nat} (hlast : data[last]? = some 0)
    (hbefore : ∀ b ∈ data.take last, b ≠ 0) : data.takeWhile (· ≠ 0) = data.take last := by
  obtain ⟨hlt, hzero⟩ := List.getElem?_eq_some_iff.mp hlast
  have hsplit : data = data.take last ++ 0 :: data.drop (last + 1) := by
    rw [← hzero, ← List.drop_eq_getElem_cons hlt, List.take_append_drop]
  have hfirst : ∀ b ∈ data.take last, decide (b ≠ 0) = true := by
    intro b hb
    exact decide_eq_true (hbefore b hb)
  conv_lhs => rw [hsplit]
  rw [List.takeWhile_append_of_pos hfirst, List.takeWhile_cons_of_neg (by simp), List.append_nil]

/-- The interpreter that a segment names: its bytes up to the first NUL. -/
def interpreterText (contents : Bytes) (program : ProgramHeader) : Bytes :=
  (slice contents program.offset program.fileSize).takeWhile (· ≠ 0)

/-- The last segment for the stack decides. -/
def stackFlags (programs : List ProgramHeader) : Option Nat :=
  ((programs.filter (·.type == ptGnuStack)).getLast?).map ProgramHeader.flags

theorem stackFlags_concat (programs : List ProgramHeader) (program : ProgramHeader) :
    stackFlags (programs ++ [program]) =
      if program.type = ptGnuStack then some program.flags else stackFlags programs := by
  unfold stackFlags
  rw [List.filter_append]
  by_cases h : program.type = ptGnuStack
  · rw [if_pos h, List.filter_cons_of_pos (by simpa using h), List.filter_nil, List.getLast?_concat, Option.map_some]
  · rw [if_neg h, List.filter_cons_of_neg (by simpa using h), List.filter_nil, List.append_nil]

def isWritableExecutableLoad (program : ProgramHeader) : Bool :=
  program.type == ptLoad && isWritable program.flags && isExecutable program.flags

/-- The scan of the segments, as a summary of those scanned. -/
structure ScanOf (reader : Reader) (limits : ElfInspectionLimits) (programs : List ProgramHeader) (scan : SegmentScan) :
    Prop where
  segments : scan.segments = (programs.take limits.maxSegmentSummaries).map summary
  truncated : scan.truncated = decide (limits.maxSegmentSummaries < programs.length)
  writableExecutable : scan.writableExecutable = programs.any isWritableExecutableLoad
  interpreter : scan.interpreter =
    (programs.find? (·.type == ptInterp)).map fun program => escapeBytes (interpreterText reader.file.contents program)
  interpreter_lt : ∀ program ∈ programs, program.type = ptInterp →
    (interpreterText reader.file.contents program).length < limits.maxInterpreterBytes
  dynamicSegment : scan.dynamicSegment = programs.find? (·.type == ptDynamic)
  noteSegments : scan.noteSegments = programs.filter (·.type == ptNote)
  haveStack : scan.haveStack = (stackFlags programs).isSome
  executableStack : scan.executableStack = (stackFlags programs).any isExecutable
  haveRelro : scan.haveRelro = programs.any (·.type == ptGnuRelro)

theorem ScanOf.start (reader : Reader) (limits : ElfInspectionLimits) : ScanOf reader limits [] {} := by
  constructor <;> first | rfl | simp

private theorem readInterpreter_safe (hmetadata : reader.metadataLimit ≤ kMaxUint64) (program : ProgramHeader)
    (interpreter : Option Bytes) (hbudget : n ≤ reader.metadataLimit) :
    Safe quiet reader n (readInterpreter reader limits program interpreter)
      (fun result m => m ≤ reader.metadataLimit ∧
        if program.type = ptInterp then interpreter = none ∧
          result = some (escapeBytes (interpreterText reader.file.contents program)) ∧
          (interpreterText reader.file.contents program).length < limits.maxInterpreterBytes
        else result = interpreter) True := by
  unfold readInterpreter
  refine Safe.ite (fun htype => ?_) fun htype => Safe.pure ⟨hbudget, (if_neg htype).symm ▸ rfl⟩
  refine Safe.ite (fun _ => Safe.fail fun _ => trivial) fun hfirst => ?_
  refine Safe.ite (fun _ => Safe.fail fun _ => trivial) fun hsize => ?_
  refine Safe.bind (Safe.mono (read_safe hmetadata _ program.fileSize) (fun _ _ => id) fun _ _ => trivial) ?_
  rintro data m ⟨-, hm, -, hdata, hlength⟩
  cases hterminator : data.idxOf? 0 with
  | none => exact Safe.fail fun _ => trivial
  | some terminator =>
    obtain ⟨hlt, hzero, hbefore⟩ := List.idxOf?_eq_some_iff.mp hterminator
    have htext : interpreterText reader.file.contents program = data.take terminator := by
      unfold interpreterText
      rw [← hdata]
      apply takeWhile_eq_take
      · rw [List.getElem?_eq_getElem hlt, hzero]
      · intro b hb
        obtain ⟨j, hj, rfl⟩ := List.mem_take_iff_getElem.mp hb
        exact hbefore j (by omega)
    dsimp only
    rw [bytesAt_eq (by omega), pure_bind_elf]
    refine Safe.pure ⟨hm, ?_⟩
    rw [if_pos htype, htext]
    refine ⟨Option.not_isSome_iff_eq_none.mp hfirst, rfl, ?_⟩
    rw [List.length_take]
    rw [not_or] at hsize
    omega

private theorem findDynamic_safe (program : ProgramHeader) (dynamicSegment : Option ProgramHeader) :
    Safe quiet reader n (findDynamic program dynamicSegment)
      (fun result m => m = n ∧ if program.type = ptDynamic then dynamicSegment = none ∧ result = some program
        else result = dynamicSegment) True := by
  unfold findDynamic
  refine Safe.ite (fun htype => ?_) fun htype => Safe.pure ⟨rfl, by rw [if_neg htype]⟩
  refine Safe.ite (fun _ => Safe.fail fun _ => trivial) fun hfirst => ?_
  exact Safe.pure ⟨rfl, by rw [if_pos htype]; exact ⟨Option.not_isSome_iff_eq_none.mp hfirst, rfl⟩⟩

private theorem scanSegment_safe (hmetadata : reader.metadataLimit ≤ kMaxUint64) {programs : List ProgramHeader}
    {scan : SegmentScan} (hscan : ScanOf reader limits programs scan) (program : ProgramHeader)
    (hbudget : n ≤ reader.metadataLimit) :
    Safe quiet reader n (scanSegment reader limits scan program)
      (fun scan m => m ≤ reader.metadataLimit ∧ ScanOf reader limits (programs ++ [program]) scan) True := by
  unfold scanSegment
  refine Safe.bind checkOperation_safe ?_
  rintro _ m rfl
  refine Safe.bind (readInterpreter_safe hmetadata program scan.interpreter hbudget) ?_
  rintro interpreter m ⟨hm, hinterpreter⟩
  refine Safe.bind (findDynamic_safe program scan.dynamicSegment) ?_
  rintro dynamicSegment m' ⟨rfl, hdynamic⟩
  have hlength : scan.segments.length = min limits.maxSegmentSummaries programs.length := by
    rw [hscan.segments, List.length_map, List.length_take]
  refine Safe.pure ⟨hm, ?_⟩
  constructor
  · dsimp only
    rw [hlength, hscan.segments]
    by_cases hmore : programs.length < limits.maxSegmentSummaries
    · have hshort : (programs ++ [program]).length ≤ limits.maxSegmentSummaries := by
        rw [List.length_append, List.length_singleton]
        omega
      rw [if_pos (by omega), List.take_of_length_le (by omega), List.take_of_length_le hshort, List.map_append,
        List.map_singleton]
    · rw [if_neg (by omega), List.take_append_of_le_length (by omega)]
  · dsimp only
    rw [hlength, hscan.truncated, List.length_append, List.length_singleton, Bool.eq_iff_iff]
    simp only [Bool.or_eq_true, Bool.not_eq_true', decide_eq_true_eq, decide_eq_false_iff_not]
    omega
  · dsimp only
    rw [hscan.writableExecutable, List.any_append, List.any_cons, List.any_nil, Bool.or_false]
    rfl
  · dsimp only
    rw [List.find?_append, List.find?_singleton]
    by_cases htype : program.type = ptInterp
    · rw [if_pos htype] at hinterpreter
      obtain ⟨hnone, hsome, -⟩ := hinterpreter
      rw [hscan.interpreter, Option.map_eq_none_iff] at hnone
      rw [hsome, hnone, if_pos (by simpa using htype)]
      rfl
    · rw [if_neg htype] at hinterpreter
      rw [hinterpreter, hscan.interpreter, if_neg (by simpa using htype), Option.or_none]
  · intro p hp htype
    rcases List.mem_append.mp hp with hp | hp
    · exact hscan.interpreter_lt p hp htype
    · rw [List.mem_singleton.mp hp] at htype ⊢
      rw [if_pos htype] at hinterpreter
      exact hinterpreter.2.2
  · dsimp only
    rw [List.find?_append, List.find?_singleton]
    by_cases htype : program.type = ptDynamic
    · rw [if_pos htype] at hdynamic
      rw [hdynamic.2, ← hscan.dynamicSegment, hdynamic.1, if_pos (by simpa using htype), Option.none_or]
    · rw [if_neg htype] at hdynamic
      rw [hdynamic, hscan.dynamicSegment, if_neg (by simpa using htype), Option.or_none]
  · dsimp only
    rw [hscan.noteSegments, List.filter_append]
    by_cases htype : program.type = ptNote
    · rw [if_pos htype, List.filter_cons_of_pos (by simpa using htype), List.filter_nil]
    · rw [if_neg htype, List.filter_cons_of_neg (by simpa using htype), List.filter_nil, List.append_nil]
  · dsimp only
    rw [hscan.haveStack, stackFlags_concat]
    by_cases htype : program.type = ptGnuStack
    · rw [if_pos htype, beq_iff_eq.mpr htype, Bool.or_true]
      rfl
    · rw [if_neg htype, beq_eq_false_iff_ne.mpr htype, Bool.or_false]
  · dsimp only
    rw [hscan.executableStack, stackFlags_concat]
    by_cases htype : program.type = ptGnuStack
    · rw [if_pos htype, if_pos htype]
      rfl
    · rw [if_neg htype, if_neg htype]
  · dsimp only
    rw [hscan.haveRelro, List.any_append, List.any_cons, List.any_nil, Bool.or_false]

theorem scanSegments_safe (hmetadata : reader.metadataLimit ≤ kMaxUint64) (rest programs : List ProgramHeader)
    (scan : SegmentScan) (hscan : ScanOf reader limits programs scan) (hbudget : n ≤ reader.metadataLimit) :
    Safe quiet reader n (scanSegments reader limits rest scan)
      (fun scan m => m ≤ reader.metadataLimit ∧ ScanOf reader limits (programs ++ rest) scan) True := by
  induction rest generalizing n programs scan with
  | nil =>
    rw [List.append_nil]
    exact Safe.pure ⟨hbudget, hscan⟩
  | cons program rest ih =>
    unfold scanSegments
    refine Safe.bind (scanSegment_safe hmetadata hscan program hbudget) ?_
    rintro scan' m ⟨hm, hscan'⟩
    have := ih (n := m) (programs ++ [program]) scan' hscan' hm
    rwa [List.append_assoc, List.singleton_append] at this

end

end ElfAnalyzer

end NativeMcp
