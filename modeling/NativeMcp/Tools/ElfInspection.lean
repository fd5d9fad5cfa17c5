import NativeMcp.Tools.ElfDynamic
import NativeMcp.Tools.ElfNotes

/-!
# What an ELF inspection returns

The result of `ElfAnalyzer::inspect` in terms of the bytes of the file, and what holds of every run: the inspection ends,
reads nothing outside its range and its budget, and returns a result within the limits.
-/

namespace NativeMcp

namespace ElfAnalyzer

open Program ByteOrder Layout

/-! ### The result -/

def Reader.header (reader : Reader) : Header := fileHeader reader.file.contents

def Reader.programs (reader : Reader) : List ProgramHeader := filePrograms reader.file.contents reader.header

/-- The entries before the first `DT_NULL` of the segment for dynamic linking. -/
def Reader.entries (reader : Reader) : List (Nat × Nat) :=
  dynamicEntries reader.file.contents reader.header.is64 reader.header.little
    (reader.programs.find? (·.type == ptDynamic))

/-- A result of the inspection, field by field. -/
structure Inspected (reader : Reader) (limits : ElfInspectionLimits) (r : ElfInspectionResult) : Prop where
  elfClass : r.elfClass = bytes (if reader.header.is64 then "ELF64" else "ELF32")
  endianness : r.endianness = bytes (if reader.header.little then "little" else "big")
  fileType : r.fileType = fileTypeName reader.header.type
  fileTypeNumber : r.fileTypeNumber = reader.header.type
  machine : r.machine = machineName reader.header.machine
  machineNumber : r.machineNumber = reader.header.machine
  osAbi : r.osAbi = osAbiName reader.header.osAbi
  osAbiNumber : r.osAbiNumber = reader.header.osAbi.toNat
  entryPoint : r.entryPoint = hexValue reader.header.entry
  programHeaderCount : r.programHeaderCount = reader.header.programCount
  programHeaderCount_le : r.programHeaderCount ≤ limits.maxProgramHeaders
  programEntrySize : 0 < reader.header.programCount → reader.header.programEntrySize = programHeaderSize reader.header.is64
  dynamic_inside : ∀ segment ∈ reader.programs.find? (·.type == ptDynamic),
    Fits reader.file.contents.length (segment.offset, segment.fileSize)
  interpreter : r.interpreter = (reader.programs.find? (·.type == ptInterp)).map fun program =>
    escapeBytes (interpreterText reader.file.contents program)
  interpreter_lt : ∀ program ∈ reader.programs, program.type = ptInterp →
    (interpreterText reader.file.contents program).length < limits.maxInterpreterBytes
  needed : NeededOf reader.file.contents limits reader.programs reader.entries r.neededLibraries
    r.neededLibrariesTruncated
  buildId : ∃ n notes, Accepted reader limits reader.header.little (noteSegments reader.programs) 0 n none r.buildId notes
  stackPolicy : r.stackPolicy =
    stackPolicyName (stackFlags reader.programs).isSome ((stackFlags reader.programs).any isExecutable)
  relro : r.relro = relroName (reader.programs.any (·.type == ptGnuRelro))
    (reader.entries.any fun entry => bindsNow entry.1 entry.2)
  positionIndependent : r.positionIndependent = (reader.header.type == etDyn)
  pieExecutable : r.pieExecutable = (reader.header.type == etDyn && reader.programs.any (·.type == ptInterp))
  writableExecutable : r.writableExecutableLoadSegment = reader.programs.any isWritableExecutableLoad
  metadataBytesRead_le : r.metadataBytesRead ≤ reader.metadataLimit
  segments : r.segments = (reader.programs.take limits.maxSegmentSummaries).map summary
  segmentSummariesTruncated : r.segmentSummariesTruncated =
    decide (limits.maxSegmentSummaries < reader.programs.length)

theorem noteSegments_filter (programs : List ProgramHeader) :
    noteSegments (programs.filter (·.type == ptNote)) = noteSegments programs := by
  unfold noteSegments
  rw [List.filter_filter]
  apply List.filter_congr
  intro program _
  rw [Bool.and_right_comm, Bool.and_self]

private theorem find?_isSome {α : Type} (p : α → Bool) (list : List α) : (list.find? p).isSome = list.any p := by
  induction list with
  | nil => rfl
  | cons a list ih =>
    rw [List.find?_cons, List.any_cons]
    cases p a
    · exact ih
    · rfl

/-- The limits as the code holds them. -/
structure Representable (limits : ElfInspectionLimits) : Prop where
  maxMetadataBytes : limits.maxMetadataBytes ≤ kMaxUint64
  maxNoteBytes : limits.maxNoteBytes ≤ kMaxUint64

theorem inspect_inspected {limits : ElfInspectionLimits} (hlimits : Representable limits) (file : ReadOnlyFile) :
    Safe False ⟨file, limits.maxMetadataBytes⟩ 0 (inspect limits file)
      (fun r _ => Inspected ⟨file, limits.maxMetadataBytes⟩ limits r) True := by
  have hmetadata := hlimits.maxMetadataBytes
  unfold inspect
  refine Safe.bind checkOperation_safe ?_
  rintro _ n rfl
  refine Safe.bind_get fun start _ => ?_
  cases start.before with
  | none => exact Safe.fail fun _ => trivial
  | some before =>
    refine Safe.ite (fun _ => Safe.fail fun _ => trivial) fun _ => ?_
    refine Safe.bind (readHeader_safe hmetadata) ?_
    rintro header n₁ ⟨hn₁, hheader, htable⟩
    refine Safe.bind (readProgramHeaders_safe hmetadata htable header.programCount 0 (Nat.zero_add _) hn₁) ?_
    rintro programs n₂ ⟨hn₂, hprograms, hinside⟩
    rw [← List.range_eq_range'] at hprograms
    refine Safe.bind (scanSegments_safe hmetadata programs [] {} (ScanOf.start ..) hn₂) ?_
    rintro scan n₃ ⟨hn₃, hscan⟩
    rw [List.nil_append] at hscan
    refine Safe.bind (readDynamic_safe hmetadata header scan.dynamicSegment hn₃) ?_
    rintro table n₄ ⟨hn₄, hentries, hsegment⟩
    rw [hscan.dynamicSegment] at hentries hsegment
    refine Safe.bind (readNeeded_safe hmetadata programs hinside hentries hn₄) ?_
    rintro ⟨names, truncated⟩ n₅ ⟨hn₅, hneeded⟩
    refine Safe.bind (Safe.mono (parseNotes_safe hmetadata hlimits.maxNoteBytes False.elim scan.noteSegments 0 n₅ none
      (Nat.zero_le _) hn₅) (fun _ _ => id) fun _ _ => trivial) ?_
    rintro buildId n₆ ⟨notes, haccepted⟩
    rw [hscan.noteSegments, noteSegments_filter] at haccepted
    refine Safe.bind_get fun s hs => Safe.pure ?_
    have hheader' : header = Reader.header ⟨file, limits.maxMetadataBytes⟩ := hheader
    have hprograms' : programs = Reader.programs ⟨file, limits.maxMetadataBytes⟩ := by rw [hprograms, hheader]; rfl
    have hstack := congrArg₂ stackPolicyName hscan.haveStack hscan.executableStack
    have hrelro := congrArg₂ relroName hscan.haveRelro hentries.bindNow
    have hpie : (header.type == etDyn && scan.interpreter.isSome) =
        (header.type == etDyn && programs.any (·.type == ptInterp)) := by
      rw [hscan.interpreter, Option.isSome_map, find?_isSome]
    clear hprograms hheader
    subst hheader' hprograms'
    exact {
      elfClass := rfl
      endianness := rfl
      fileType := rfl
      fileTypeNumber := rfl
      machine := rfl
      machineNumber := rfl
      osAbi := rfl
      osAbiNumber := rfl
      entryPoint := rfl
      programHeaderCount := rfl
      programHeaderCount_le := htable.count_le
      programEntrySize := htable.entrySize
      dynamic_inside := hsegment
      interpreter := hscan.interpreter
      interpreter_lt := hscan.interpreter_lt
      needed := hneeded
      buildId := ⟨n₅, notes, haccepted⟩
      stackPolicy := hstack
      relro := hrelro
      positionIndependent := rfl
      pieExecutable := hpie
      writableExecutable := hscan.writableExecutable
      metadataBytesRead_le := hs.bytesRead_le
      segments := hscan.segments
      segmentSummariesTruncated := hscan.truncated }

/-! ### Safety -/

/-- The result respects the limits: strings are compared before they are escaped, and the build ID before it is written
in hexadecimal. -/
structure WithinLimits (limits : ElfInspectionLimits) (r : ElfInspectionResult) : Prop where
  programHeaderCount : r.programHeaderCount ≤ limits.maxProgramHeaders
  segments : r.segments.length ≤ limits.maxSegmentSummaries
  interpreter : ∀ text ∈ r.interpreter, ∃ raw, text = escapeBytes raw ∧ raw.length < limits.maxInterpreterBytes
  neededLibraries : r.neededLibraries.length ≤ limits.maxNeededLibraries
  libraryName : ∀ name ∈ r.neededLibraries, ∃ raw, name = escapeBytes raw ∧ raw.length ≤ limits.maxLibraryNameBytes
  buildId : ∀ id ∈ r.buildId, ∃ raw, id = bytesToHex raw ∧ raw.length ≤ limits.maxBuildIdBytes
  metadataBytesRead : r.metadataBytesRead ≤ limits.maxMetadataBytes

theorem Takes.buildId_le {limits : ElfInspectionLimits} {notes : List Note} {result : Option Bytes}
    (h : Takes limits none notes result) :
    ∀ id ∈ result, ∃ raw, id = bytesToHex raw ∧ raw.length ≤ limits.maxBuildIdBytes := by
  intro id hid
  rw [h.2, Option.none_or] at hid
  obtain ⟨note, hnote, rfl⟩ := Option.mem_map.mp hid
  exact ⟨note.description, rfl, h.1 rfl note hnote⟩

theorem NeededOf.name_le {contents : Bytes} {limits : ElfInspectionLimits} {programs : List ProgramHeader}
    {entries : List (Nat × Nat)} {names : List Bytes} {truncated : Bool}
    (h : NeededOf contents limits programs entries names truncated) :
    ∀ name ∈ names, ∃ raw, name = escapeBytes raw ∧ raw.length ≤ limits.maxLibraryNameBytes := by
  intro name hname
  have hsome : neededValues entries ≠ [] := by
    intro hnone
    have hlength := h.length_eq
    rw [hnone, List.length_nil, Nat.zero_min, List.length_eq_zero_iff] at hlength
    rw [hlength] at hname
    exact List.not_mem_nil hname
  obtain ⟨strings, -, hnames, hfits⟩ := h.names_eq hsome
  rw [hnames] at hname
  obtain ⟨offset, hoffset, rfl⟩ := List.mem_map.mp hname
  exact ⟨nameAt strings offset, rfl, (hfits offset hoffset).length_le⟩

theorem Inspected.withinLimits {reader : Reader} {limits : ElfInspectionLimits} {r : ElfInspectionResult}
    (h : Inspected reader limits r) (hreader : reader.metadataLimit = limits.maxMetadataBytes) : WithinLimits limits r where
  programHeaderCount := h.programHeaderCount_le
  segments := by
    rw [h.segments, List.length_map, List.length_take]
    exact Nat.min_le_left ..
  interpreter := by
    intro text htext
    rw [h.interpreter] at htext
    obtain ⟨program, hprogram, rfl⟩ := Option.mem_map.mp htext
    have htype : program.type = ptInterp := by simpa using List.find?_some hprogram
    exact ⟨_, rfl, h.interpreter_lt program (List.mem_of_find?_eq_some hprogram) htype⟩
  neededLibraries := by
    rw [h.needed.length_eq]
    exact Nat.min_le_right ..
  libraryName := h.needed.name_le
  buildId := by
    obtain ⟨n, notes, haccepted⟩ := h.buildId
    exact haccepted.takes.buildId_le
  metadataBytesRead := hreader ▸ h.metadataBytesRead_le

/-- The state in which an inspection begins. -/
structure Fresh (s : Inspecting) : Prop where
  bytesRead : s.bytesRead = 0
  log : s.log = []

theorem Fresh.reading {s : Inspecting} (h : Fresh s) (reader : Reader) : Reading False reader 0 s where
  bounded := ⟨by rw [h.log]; exact fun p hp => absurd hp List.not_mem_nil, by rw [h.log]; exact Nat.zero_le _⟩
  total := by rw [h.log]; rfl
  bytesRead_eq := h.bytesRead
  quiet := False.elim

/-- For every file, every limit and every behaviour of the system, the inspection ends with a result within the limits or
with an error; no index is behind its buffer and no operation wraps; and each `pread` stays inside the approved range,
all of them together within the budget. -/
theorem inspect_safe (limits : ElfInspectionLimits) (hlimits : Representable limits) (file : ReadOnlyFile)
    (s : Inspecting) (hs : Fresh s) :
    ((∃ r, (inspect limits file s).1 = .returned r ∧ WithinLimits limits r) ∨
      ∃ error, (inspect limits file s).1 = .raised (.error error)) ∧
    (∀ p ∈ (inspect limits file s).2.log,
      p.offset + p.requested ≤ min file.observedSize file.maxReadBytes ∧ p.count ≤ p.requested) ∧
    ((inspect limits file s).2.log.map Pread.count).sum ≤ limits.maxMetadataBytes := by
  have h := inspect_inspected hlimits file s (hs.reading _)
  generalize inspect limits file s = run at h
  obtain ⟨(r | e | _), t⟩ := run
  · obtain ⟨n, ht, hr⟩ := h
    exact ⟨.inl ⟨r, rfl, hr.withinLimits rfl⟩, ht.bounded.inside, ht.bounded.total⟩
  · obtain ⟨ht, ⟨error, rfl⟩, -⟩ := h
    exact ⟨.inr ⟨error, rfl⟩, ht.inside, ht.total⟩
  · exact h.elim

/-- A 32-bit file with a segment to load, one for dynamic linking and one that becomes read-only. -/
def smallElf : Bytes :=
  let half := encode true 2
  let word := encode true 4
  [0x7F, 0x45, 0x4C, 0x46, 1, 1, 1, 0, 0, 0, 0, 0, 0, 0, 0, 0] ++ half 3 ++ half 3 ++ word 1 ++ word 0 ++ word 52 ++
    word 0 ++ word 0 ++ half 52 ++ half 32 ++ half 3 ++ half 0 ++ half 0 ++ half 0 ++
    [1, 0, 0, 0, 193, 193, 4, 4].flatMap word ++ [2, 148, 148, 148, 40, 40, 4, 4].flatMap word ++
    [0x6474E552, 0, 0, 0, 0, 0, 4, 4].flatMap word ++ [1, 1, 5, 188, 10, 5, 30, 8, 0, 0].flatMap word ++
    [0, 0x6C, 0x69, 0x62, 0]

def smallElfFile : ReadOnlyFile where
  contents := smallElf
  observedSize := 193
  maxReadBytes := 4096
  sizeAfter := some 193

def smallElfRun : Inspecting where
  stopReason := fun _ => .none
  turns := [.returned 3, .interrupted, .returned 100]
  before := some ⟨1, 2, 0x81A4, 193, 0, 0, 0, 0⟩
  after := some ⟨1, 2, 0x81A4, 193, 0, 0, 0, 0⟩

theorem inspect_safe_small :
    (inspect {} smallElfFile smallElfRun).1.isReturned = true ∧
      ((inspect {} smallElfFile smallElfRun).2.log.map Pread.count).sum ≤ 1024 * 1024 :=
  ⟨by decide +kernel, (inspect_safe {} ⟨by decide, by decide⟩ smallElfFile smallElfRun ⟨rfl, rfl⟩).2.2⟩

/-! ### The needed libraries -/

private theorem relroName_full (haveRelro bindNow : Bool) :
    relroName haveRelro bindNow = bytes "full" ↔ haveRelro = true ∧ bindNow = true := by
  cases haveRelro <;> cases bindNow <;> decide +kernel

/-- The libraries that a file needs, as its table and its string table name them, and when its RELRO is full. -/
theorem needed_correct (limits : ElfInspectionLimits) (hlimits : Representable limits) (file : ReadOnlyFile)
    (s : Inspecting) (hs : Fresh s) (r : ElfInspectionResult) (hr : (inspect limits file s).1 = .returned r) :
    let header := fileHeader file.contents
    let programs := filePrograms file.contents header
    let entries := dynamicEntries file.contents header.is64 header.little (programs.find? (·.type == ptDynamic))
    let needed := neededValues entries
    r.neededLibraries.length = min needed.length limits.maxNeededLibraries ∧
      (r.neededLibrariesTruncated = true ↔ limits.maxNeededLibraries < needed.length) ∧
      (needed ≠ [] → ∃ strings, StringTable file.contents programs entries strings ∧
        r.neededLibraries = (needed.take limits.maxNeededLibraries).map (fun offset => escapeBytes (nameAt strings offset)) ∧
        ∀ offset ∈ needed.take limits.maxNeededLibraries, NameFits limits strings offset) ∧
      (r.relro = bytes "full" ↔ (∃ program ∈ programs, program.type = ptGnuRelro) ∧
        ∃ entry ∈ entries, bindsNow entry.1 entry.2 = true) := by
  intro header programs entries needed
  have h := inspect_inspected hlimits file s (hs.reading _)
  generalize inspect limits file s = run at h hr
  obtain ⟨ending, t⟩ := run
  subst hr
  obtain ⟨n, -, hr⟩ := h
  refine ⟨hr.needed.length_eq, ?_, hr.needed.names_eq, ?_⟩
  · rw [hr.needed.truncated_eq, decide_eq_true_eq]
    rfl
  · rw [hr.relro, relroName_full, List.any_eq_true, List.any_eq_true]
    simp only [beq_iff_eq]
    rfl

theorem needed_correct_small : ∃ r, (inspect {} smallElfFile smallElfRun).1 = .returned r ∧
    r.neededLibraries.length = 1 ∧ r.relro = bytes "full" := by
  obtain ⟨r, t, hrun⟩ := exists_returned (x := inspect {} smallElfFile) (s := smallElfRun) (by decide +kernel)
  have hr : (inspect {} smallElfFile smallElfRun).1 = .returned r := by rw [hrun]
  have h := needed_correct {} ⟨by decide, by decide⟩ smallElfFile smallElfRun ⟨rfl, rfl⟩ r hr
  refine ⟨r, hr, ?_, h.2.2.2.mpr ?_⟩
  · rw [h.1]
    decide +kernel
  · decide +kernel

end ElfAnalyzer

end NativeMcp
