import NativeMcp.Lib.Agreement
import NativeMcp.Tools.ElfImage
import NativeMcp.Tools.ElfInspection

/-!
# The byte order of an ELF file

The inspection of an image in one byte order agrees with that of the same image in the other, call by call, up to the byte
order that the result states; and the result says of the image what the image is.
-/

namespace NativeMcp

namespace ElfAnalyzer

open Program ByteOrder Layout

/-! ### Reading two files of one size -/

def Reader.withContents (reader : Reader) (contents : Bytes) : Reader :=
  { reader with file := { reader.file with contents := contents } }

/-- The results of a `pread` at one place of two files. -/
inductive SamePread (L B : Bytes) (offset requested : Nat) : PreadResult → PreadResult → Prop where
  | interrupted : SamePread L B offset requested .interrupted .interrupted
  | failed : SamePread L B offset requested .failed .failed
  | returned (size : Nat) (hsize : size ≤ requested) (hL : (slice L offset size).length = size)
      (hB : (slice B offset size).length = size) :
    SamePread L B offset requested (.returned (slice L offset size)) (.returned (slice B offset size))

section

variable {reader : Reader} {limits : ElfInspectionLimits} {L B : Bytes}

theorem pread_agree (hlength : L.length = B.length) (offset requested : Nat) :
    Agree (pread (reader.withContents L).file offset requested) (pread (reader.withContents B).file offset requested)
      (SamePread L B offset requested) := by
  intro s
  unfold pread
  cases s.turns.headD (.returned requested) with
  | interrupted => exact .returned .interrupted
  | failed => exact .returned .failed
  | returned short =>
    have hsameL : LogAnalyzer.pread (reader.withContents L).file requested offset short =
        slice L offset (min requested (short + 1)) := rfl
    have hsameB : LogAnalyzer.pread (reader.withContents B).file requested offset short =
        slice B offset (min requested (short + 1)) := rfl
    dsimp only
    rw [hsameL, hsameB, ← slice_min L, ← slice_min B, hlength]
    generalize hsize : min (min requested (short + 1)) (B.length - offset) = size
    have hL : (slice L offset size).length = size := by
      rw [length_slice_eq_min]
      omega
    have hB : (slice B offset size).length = size := by
      rw [length_slice_eq_min]
      omega
    rw [hL, hB]
    exact .returned (.returned size (by omega) hL hB)

theorem fitting_agree (value : Nat) : Agree (fitting value) (fitting value) fun a b => a = value ∧ b = value := by
  unfold fitting
  exact Agree.ite (fun _ => Agree.pure ⟨rfl, rfl⟩) fun _ => Agree.raise _

theorem fail_agree {α β : Type} {R : α → β → Prop} (code : ElfAnalysisErrorCode) (message : String) :
    Agree (fail code message : Elf α) (fail code message : Elf β) R := Agree.raise _

/-- By induction on the rounds: both outputs are what is read of the range so far. -/
theorem readLoop_agree (hlength : L.length = B.length) (offset size fuel total : Nat) (htotal : total ≤ size)
    (hL : (slice L offset total).length = total) (hB : (slice B offset total).length = total) :
    Agree (readLoop (reader.withContents L).file offset size fuel (slice L offset total))
      (readLoop (reader.withContents B).file offset size fuel (slice B offset total))
      fun a b => a = slice L offset size ∧ b = slice B offset size ∧ a.length = size ∧ b.length = size := by
  induction fuel generalizing total with
  | zero => exact Agree.suspend
  | succ fuel ih =>
    unfold readLoop
    rw [hL, hB]
    refine Agree.ite (fun hmore => ?_) fun hdone => Agree.pure ?_
    · refine (Agree.refl checkOperation).bind ?_
      rintro _ _ rfl
      refine (fitting_agree (offset + total)).bind ?_
      rintro _ _ ⟨rfl, rfl⟩
      refine (pread_agree hlength (offset + total) (size - total)).bind ?_
      intro result result' hresult
      cases hresult with
      | interrupted => exact ih total htotal hL hB
      | failed => exact fail_agree _ _
      | returned count hcount hsliceL hsliceB =>
        have hempty : slice L (offset + total) count = [] ↔ slice B (offset + total) count = [] := by
          rw [← List.length_eq_zero_iff, ← List.length_eq_zero_iff, hsliceL, hsliceB]
        dsimp only
        by_cases hnone : slice L (offset + total) count = []
        · rw [if_pos hnone, if_pos (hempty.mp hnone)]
          exact fail_agree _ _
        · rw [if_neg hnone, if_neg fun h => hnone (hempty.mpr h), ← slice_append, ← slice_append]
          refine ih (total + count) (by omega) ?_ ?_
          · rw [slice_append, List.length_append, hL, hsliceL]
          · rw [slice_append, List.length_append, hB, hsliceB]
    · have heq : total = size := by omega
      subst heq
      exact ⟨rfl, rfl, hL, hB⟩

theorem read_agree (hlength : L.length = B.length) (offset size : Nat) :
    Agree ((reader.withContents L).read offset size) ((reader.withContents B).read offset size)
      fun a b => a = slice L offset size ∧ b = slice B offset size ∧ a.length = size ∧ b.length = size := by
  have hall : Agree (readAll (reader.withContents L).file offset size) (readAll (reader.withContents B).file offset size)
      fun a b => a = slice L offset size ∧ b = slice B offset size ∧ a.length = size ∧ b.length = size := by
    intro s
    exact readLoop_agree hlength offset size (s.turns.length + size + 1) 0 (Nat.zero_le _) rfl rfl s
  unfold Reader.read
  refine (Agree.refl checkOperation).bind ?_
  rintro _ _ -
  refine Agree.ite (fun _ => fail_agree _ _) fun _ => ?_
  refine Agree.bind_get fun s => ?_
  refine Agree.ite (fun _ => fail_agree _ _) (fun _ => ?_) s
  refine hall.bind ?_
  rintro a b hab
  refine (fitting_agree (s.bytesRead + size)).bind ?_
  rintro _ _ ⟨rfl, rfl⟩
  refine (Agree.refl (Program.modify _)).bind ?_
  rintro _ _ -
  exact Agree.pure hab

end

/-! ### The notes of a segment in both orders -/

/-- The payload that the rest states is not there. -/
private theorem noteEnd_overlong {data payload : Bytes} {position nameSize descriptionSize type : Nat} {little : Bool}
    (hname : nameSize < 256 ^ 4) (hdescription : descriptionSize < 256 ^ 4)
    (hdrop : data.drop position = encode little 4 nameSize ++ (encode little 4 descriptionSize ++
      (encode little 4 type ++ payload)))
    (h : payload.length < aligned nameSize + aligned descriptionSize) :
    ¬data.length - position < 12 ∧ data.length < noteEnd data position little := by
  have hlength := congrArg List.length hdrop
  simp only [List.length_drop, List.length_append, length_encode] at hlength
  have hnameValue : valueAt data position 4 little = nameSize := by
    have hslice : slice data position 4 = encode little 4 nameSize := by
      unfold slice
      rw [hdrop]
      exact List.take_left' (length_encode ..)
    unfold valueAt
    rw [hslice, decode_encode little hname]
  have hdescriptionValue : valueAt data (position + 4) 4 little = descriptionSize := by
    have hslice : slice data (position + 4) 4 = encode little 4 descriptionSize := by
      unfold slice
      rw [← List.drop_drop, hdrop, List.drop_left' (length_encode ..)]
      exact List.take_left' (length_encode ..)
    unfold valueAt
    rw [hslice, decode_encode little hdescription]
  unfold noteEnd
  rw [hnameValue, hdescriptionValue]
  omega

/-- By induction on the notes: each is taken in both orders, and what is behind them is refused in both. -/
theorem parseSegmentNotes_agree {dataL dataB : Bytes} (limits : ElfInspectionLimits)
    (hlength : dataL.length = dataB.length) (hfits : dataL.length ≤ kMaxUint64) (rest : NoteRest) (notes : List Note)
    (fuel position : Nat) (buildId : Option Bytes)
    (hL : dataL.drop position = encodeNotes true notes ++ rest.encode true)
    (hB : dataB.drop position = encodeNotes false notes ++ rest.encode false) :
    Agree (parseSegmentNotes limits true dataL fuel position buildId)
      (parseSegmentNotes limits false dataB fuel position buildId) Eq := by
  have hfitsB : dataB.length ≤ kMaxUint64 := hlength ▸ hfits
  induction notes generalizing fuel position buildId with
  | nil =>
    cases fuel with
    | zero => exact Agree.suspend
    | succ fuel =>
      unfold parseSegmentNotes
      rw [hlength]
      refine Agree.ite (fun hmore => ?_) fun _ => Agree.pure rfl
      change dataL.drop position = rest.encode true at hL
      change dataB.drop position = rest.encode false at hB
      cases rest with
      | short data hshort =>
        have hleft := congrArg List.length hL
        rw [List.length_drop] at hleft
        change _ = data.length at hleft
        rw [parseNote_short limits true buildId (by omega), parseNote_short limits false buildId (by omega)]
        exact (fail_agree (R := fun _ _ => False) _ _).bind fun _ _ h => h.elim
      | overlong nameSize descriptionSize type payload hname hdescription hover =>
        obtain ⟨hheaderL, hlongL⟩ := noteEnd_overlong hname hdescription hL hover
        obtain ⟨hheaderB, hlongB⟩ := noteEnd_overlong hname hdescription hB hover
        rw [parseNote_overlong limits true buildId hfits hheaderL hlongL,
          parseNote_overlong limits false buildId hfitsB hheaderB hlongB]
        exact (fail_agree (R := fun _ _ => False) _ _).bind fun _ _ h => h.elim
  | cons note notes ih =>
    cases fuel with
    | zero => exact Agree.suspend
    | succ fuel =>
      rw [encodeNotes_cons, List.append_assoc] at hL hB
      have hnextL := noteEnd_eq hL
      have hnextB := noteEnd_eq hB
      rw [hnextL.2.1] at hnextL
      rw [hnextB.2.1] at hnextB
      unfold parseSegmentNotes
      rw [hlength, parseNote_eq limits buildId hfits hL, parseNote_eq limits buildId hfitsB hB]
      refine Agree.ite (fun _ => ?_) fun _ => Agree.pure rfl
      refine Agree.bind (R := fun r r' => r = r' ∧ r.1 = position + note.size) ?_ ?_
      · refine (Agree.refl (takeOne limits note buildId)).bind ?_
        rintro buildId' _ rfl
        exact Agree.pure ⟨rfl, rfl⟩
      · rintro ⟨next, buildId'⟩ _ ⟨rfl, rfl⟩
        exact ih fuel (position + note.size) buildId' hnextL.2.2.2 hnextB.2.2.2

/-! ### The inspection of an image -/

section

variable {image : ElfImage} {reader : Reader} {limits : ElfInspectionLimits} {L B : Bytes}
  (hL : Encodes image true L) (hB : Encodes image false B)

theorem Encodes.length_eq (hL : Encodes image true L) (hB : Encodes image false B) : L.length = B.length :=
  hL.length.trans hB.length.symm

private theorem checkIdentification_image (image : ElfImage) (little : Bool) :
    checkIdentification (image.identification little) =
      if image.identVersion ≠ 1 then fail .invalidFormat "ELF identification version is invalid"
      else pure (image.is64, little, image.osAbi) := by
  unfold ElfImage.identification
  cases image.is64 <;> cases little <;> rfl

theorem Encodes.headerIn_eq {little : Bool} {contents : Bytes} (h : Encodes image little contents) :
    headerIn contents image.is64 little image.osAbi = image.header little := by
  unfold headerIn ElfImage.header
  rw [h.type, h.machine, h.entry, h.programOffset, h.programEntrySize, h.programCount]

private theorem checkFields_agree (fileLimit version size : Nat) :
    Agree (checkFields limits fileLimit version size (image.header true))
      (checkFields limits fileLimit version size (image.header false))
      fun header header' => header = image.header true ∧ header' = image.header false ∧
        (0 < image.segments.length → image.programEntrySize = programHeaderSize image.is64) := by
  unfold checkFields
  refine Agree.ite (fun _ => fail_agree _ _) fun _ => ?_
  refine Agree.ite (fun _ => fail_agree _ _) fun _ => ?_
  refine Agree.ite (fun _ => fail_agree _ _) fun _ => ?_
  refine Agree.ite (fun _ => fail_agree _ _) fun _ => ?_
  refine Agree.ite (fun _ => fail_agree _ _) fun hentries => ?_
  refine Agree.ite (fun _ => fail_agree _ _) fun _ => ?_
  refine Agree.pure ⟨rfl, rfl, fun hpos => ?_⟩
  by_contra hother
  exact hentries ⟨hpos, .inl hother⟩

private theorem findDynamic_agree (program : ProgramHeader) {dynamicSegment : Option ProgramHeader}
    {done : List ProgramHeader} (hfound : dynamicSegment = done.find? (·.type == ptDynamic)) :
    Agree (findDynamic program dynamicSegment) (findDynamic program dynamicSegment)
      fun r r' => r = r' ∧ r = (done ++ [program]).find? (·.type == ptDynamic) := by
  unfold findDynamic
  rw [List.find?_append, List.find?_singleton, ← hfound]
  refine Agree.ite (fun htype => ?_) fun htype => Agree.pure ⟨rfl, ?_⟩
  · refine Agree.ite (fun _ => fail_agree _ _) fun hfirst => Agree.pure ⟨rfl, ?_⟩
    rw [Option.not_isSome_iff_eq_none.mp hfirst, if_pos (by simpa using htype), Option.none_or]
  · rw [if_neg (by simpa using htype), Option.or_none]

include hL hB

private theorem readHeader_agree :
    Agree (readHeader (reader.withContents L) limits) (readHeader (reader.withContents B) limits)
      fun header header' => header = image.header true ∧ header' = image.header false ∧
        (0 < image.segments.length → image.programEntrySize = programHeaderSize image.is64) := by
  have hlength := hL.length_eq hB
  unfold readHeader
  refine (read_agree hlength 0 16).bind ?_
  rintro a b ⟨rfl, rfl, -, -⟩
  rw [hL.identification, hB.identification, checkIdentification_image, checkIdentification_image]
  refine Agree.bind (R := fun r r' => r = (image.is64, true, image.osAbi) ∧ r' = (image.is64, false, image.osAbi))
    (Agree.ite (fun _ => fail_agree _ _) fun _ => Agree.pure ⟨rfl, rfl⟩) ?_
  rintro _ _ ⟨rfl, rfl⟩
  refine (read_agree hlength 0 (headerSize image.is64)).bind ?_
  rintro a b ⟨ha, hb, halength, hblength⟩
  have hsame : (reader.withContents L).fileLimit = (reader.withContents B).fileLimit := rfl
  rw [checkHeader_eq limits _ image.is64 true image.osAbi ha halength,
    checkHeader_eq limits _ image.is64 false image.osAbi hb hblength, hL.version, hB.version, hL.headerSize, hB.headerSize,
    hL.headerIn_eq, hB.headerIn_eq, hsame]
  exact checkFields_agree _ _ _

private theorem readProgramHeader_agree (hentrySize : image.programEntrySize = programHeaderSize image.is64) {index : Nat}
    (hindex : index < image.segments.length) :
    Agree (readProgramHeader (reader.withContents L) (image.header true) index)
      (readProgramHeader (reader.withContents B) (image.header false) index)
      fun program program' => program = image.segments[index].header ∧ program' = image.segments[index].header := by
  unfold readProgramHeader
  refine (fitting_agree _).bind ?_
  rintro _ _ ⟨rfl, rfl⟩
  refine (fitting_agree _).bind ?_
  rintro _ _ ⟨rfl, rfl⟩
  refine (read_agree (hL.length_eq hB) _ _).bind ?_
  rintro a b ⟨ha, hb, halength, hblength⟩
  have hparse : ∀ {little : Bool} {contents data : Bytes}, Encodes image little contents →
      data = slice contents (image.programOffset + index * image.programEntrySize) image.programEntrySize →
      data.length = image.programEntrySize →
      parseProgramHeader image.is64 little data = pure image.segments[index].header := by
    intro little contents data h hdata hlength
    rw [hentrySize] at hdata hlength
    rw [parseProgramHeader_eq _ _ (Nat.le_of_eq hlength.symm), hdata, programAt_slice _ _ (Nat.le_refl _),
      h.program index hindex]
  have hparseL : parseProgramHeader (image.header true).is64 (image.header true).little a = _ := hparse hL ha halength
  have hparseB : parseProgramHeader (image.header false).is64 (image.header false).little b = _ := hparse hB hb hblength
  rw [hparseL, hparseB, pure_bind_elf, pure_bind_elf]
  refine Agree.ite (fun _ => fail_agree _ _) fun _ => ?_
  exact Agree.ite (fun _ => fail_agree _ _) fun _ => Agree.pure ⟨rfl, rfl⟩

private theorem readProgramHeaders_agree
    (hentrySize : 0 < image.segments.length → image.programEntrySize = programHeaderSize image.is64) (count index : Nat)
    (hcount : index + count = image.segments.length) :
    Agree (readProgramHeaders (reader.withContents L) (image.header true) index count)
      (readProgramHeaders (reader.withContents B) (image.header false) index count)
      fun programs programs' => programs = (image.segments.drop index).map ImageSegment.header ∧ programs' = programs := by
  induction count generalizing index with
  | zero =>
    refine Agree.pure ⟨?_, rfl⟩
    rw [List.drop_eq_nil_of_le (by omega), List.map_nil]
  | succ count ih =>
    unfold readProgramHeaders
    refine (readProgramHeader_agree hL hB (hentrySize (by omega)) (by omega)).bind ?_
    rintro _ _ ⟨rfl, rfl⟩
    refine (ih (index + 1) (by omega)).bind ?_
    rintro _ _ ⟨rfl, rfl⟩
    have hdrop : image.segments.drop index = image.segments[index] :: image.segments.drop (index + 1) :=
      List.drop_eq_getElem_cons (by omega)
    refine Agree.pure ⟨?_, rfl⟩
    rw [hdrop, List.map_cons]

private theorem readInterpreter_agree {program : ProgramHeader} (hprogram : program ∈ image.programs)
    (interpreter : Option Bytes) :
    Agree (readInterpreter (reader.withContents L) limits program interpreter)
      (readInterpreter (reader.withContents B) limits program interpreter) Eq := by
  unfold readInterpreter
  refine Agree.ite (fun htype => ?_) fun _ => Agree.refl _
  refine Agree.ite (fun _ => fail_agree _ _) fun _ => ?_
  refine Agree.ite (fun _ => fail_agree _ _) fun _ => ?_
  refine (read_agree (hL.length_eq hB) _ _).bind ?_
  rintro a b ⟨rfl, rfl, -, -⟩
  obtain ⟨segment, hsegment, rfl⟩ := List.mem_map.mp hprogram
  rw [hL.interpreter segment hsegment htype, hB.interpreter segment hsegment htype]
  exact Agree.refl _

/-- What the scan has found among the programs that it has seen. -/
def Found (programs : List ProgramHeader) (scan : SegmentScan) : Prop :=
  scan.dynamicSegment = programs.find? (·.type == ptDynamic) ∧
    ∀ program ∈ scan.noteSegments, program ∈ programs ∧ program.type = ptNote

private theorem scanSegments_agree (rest done : List ProgramHeader) (hrest : ∀ program ∈ rest, program ∈ image.programs)
    (scan : SegmentScan) (hscan : Found done scan) :
    Agree (scanSegments (reader.withContents L) limits rest scan) (scanSegments (reader.withContents B) limits rest scan)
      fun result result' => result = result' ∧ Found (done ++ rest) result := by
  induction rest generalizing done scan with
  | nil =>
    rw [List.append_nil]
    exact Agree.pure ⟨rfl, hscan⟩
  | cons program rest ih =>
    have hstep : Agree (scanSegment (reader.withContents L) limits scan program)
        (scanSegment (reader.withContents B) limits scan program)
        fun result result' => result = result' ∧ Found (done ++ [program]) result := by
      unfold scanSegment
      refine (Agree.refl checkOperation).bind ?_
      rintro _ _ -
      refine (readInterpreter_agree hL hB (hrest program List.mem_cons_self) scan.interpreter).bind ?_
      rintro interpreter _ rfl
      refine (findDynamic_agree program hscan.1).bind ?_
      rintro dynamicSegment _ ⟨rfl, hdynamic⟩
      refine Agree.pure ⟨rfl, hdynamic, ?_⟩
      have hold : ∀ p ∈ scan.noteSegments, p ∈ done ++ [program] ∧ p.type = ptNote := by
        intro p hp
        exact ⟨List.mem_append_left _ (hscan.2 p hp).1, (hscan.2 p hp).2⟩
      dsimp only
      by_cases htype : program.type = ptNote
      · rw [if_pos htype]
        intro p hp
        rcases List.mem_append.mp hp with hp | hp
        · exact hold p hp
        · rw [List.mem_singleton.mp hp]
          exact ⟨List.mem_append_right _ List.mem_cons_self, htype⟩
      · rw [if_neg htype]
        exact hold
    unfold scanSegments
    refine hstep.bind ?_
    rintro scan' _ ⟨rfl, hscan'⟩
    have hnext := ih (done ++ [program]) (fun p hp => hrest p (List.mem_cons_of_mem _ hp)) scan' hscan'
    rwa [List.append_assoc, List.singleton_append] at hnext

private theorem readDynamic_agree :
    Agree (readDynamic (reader.withContents L) limits (image.header true) (image.programs.find? (·.type == ptDynamic)))
      (readDynamic (reader.withContents B) limits (image.header false) (image.programs.find? (·.type == ptDynamic)))
      fun table table' => table = table' ∧ TableOf image.entries table := by
  have hfind : image.programs.find? (·.type == ptDynamic) =
      (image.segments.find? (·.header.type == ptDynamic)).map ImageSegment.header := List.find?_map
  have hentries : image.entries = entriesOf (image.segments.find? (·.header.type == ptDynamic)) := rfl
  rw [hfind, hentries]
  cases hsegment : image.segments.find? (·.header.type == ptDynamic) with
  | none => exact Agree.pure ⟨rfl, TableOf.start⟩
  | some segment =>
    have hmem := List.mem_of_find?_eq_some hsegment
    have htype : segment.header.type = ptDynamic := by simpa using List.find?_some hsegment
    unfold readDynamic
    dsimp only [Option.map_some]
    refine Agree.ite (fun hempty => Agree.pure ⟨rfl, ?_⟩) fun hsome => ?_
    · have hnone := hL.dynamic segment hmem htype (.inl hempty)
      rw [hempty, Nat.zero_div] at hnone
      show TableOf (liveEntries segment.content.entries) {}
      rw [← hnone]
      exact TableOf.start
    refine Agree.ite (fun _ => fail_agree _ _) fun _ => ?_
    refine (read_agree (hL.length_eq hB) _ _).bind ?_
    rintro a b ⟨ha, hb, halength, hblength⟩
    have hinside : Fits image.payload.length (segment.header.offset, segment.header.fileSize) := by
      rw [ha, length_slice_eq_min, hL.length] at halength
      right
      dsimp only
      omega
    have hscanL := scanDynamic_slice (image.header true).is64 (image.header true).little ha halength {}
    have hscanB := scanDynamic_slice (image.header false).is64 (image.header false).little hb hblength {}
    have hL' : entriesAt L segment.header.offset (segment.header.fileSize / dynamicEntrySize (image.header true).is64)
        (image.header true).is64 (image.header true).little = segment.content.entries := hL.dynamic segment hmem htype hinside
    have hB' : entriesAt B segment.header.offset (segment.header.fileSize / dynamicEntrySize (image.header false).is64)
        (image.header false).is64 (image.header false).little = segment.content.entries :=
      hB.dynamic segment hmem htype hinside
    rw [hscanL, hscanB, hL', hB']
    have hcheck : Ends (fun _ => True) checkOperation (fun _ _ => True) (fun _ _ => True) fun _ => True :=
      checkOperation_ends (fun _ _ _ => trivial) fun _ _ _ _ => trivial
    have hscan := scanEntries_ends hcheck segment.content.entries 0 TableOf.start
    refine (Agree.self (hscan.mono (fun _ => id) (fun _ _ hs => hs.2) (fun _ _ => id) fun _ => id)).bind ?_
    rintro table _ ⟨rfl, htable⟩
    exact Agree.ite (fun _ => Agree.pure ⟨rfl, htable⟩) fun _ => fail_agree _ _

private theorem readNeeded_agree {table : DynamicScan} (htable : TableOf image.entries table) :
    Agree (readNeeded (reader.withContents L) limits image.programs table)
      (readNeeded (reader.withContents B) limits image.programs table) Eq := by
  unfold readNeeded
  refine Agree.ite (fun _ => Agree.refl _) fun _ => ?_
  rw [htable.address, htable.size]
  cases haddress : lastValue dtStrtab image.entries with
  | none => exact fail_agree _ _
  | some address =>
    cases hsize : lastValue dtStrsz image.entries with
    | none => exact fail_agree _ _
    | some size =>
      refine Agree.ite (fun _ => fail_agree _ _) fun _ => ?_
      cases hoffset : virtualToFile image.programs address size with
      | none => exact fail_agree _ _
      | some offset =>
        refine (read_agree (hL.length_eq hB) _ _).bind ?_
        rintro a b ⟨rfl, rfl, -, -⟩
        rw [hL.strings address size offset haddress hsize hoffset, hB.strings address size offset haddress hsize hoffset]
        exact Agree.refl _

private theorem parseNotes_agree (headers : List ProgramHeader)
    (hheaders : ∀ header ∈ headers, header ∈ image.programs ∧ header.type = ptNote) (noteBytes : Nat)
    (buildId : Option Bytes) :
    Agree (parseNotes (reader.withContents L) limits true headers noteBytes buildId)
      (parseNotes (reader.withContents B) limits false headers noteBytes buildId) Eq := by
  induction headers generalizing noteBytes buildId with
  | nil => exact Agree.pure rfl
  | cons header headers ih =>
    have hrest := ih fun p hp => hheaders p (List.mem_cons_of_mem _ hp)
    unfold parseNotes
    refine Agree.ite (fun _ => hrest noteBytes buildId) fun hnote => ?_
    refine Agree.ite (fun _ => fail_agree _ _) fun _ => ?_
    refine (fitting_agree _).bind ?_
    rintro _ _ ⟨rfl, rfl⟩
    refine (read_agree (hL.length_eq hB) _ _).bind ?_
    rintro a b ⟨ha, hb, halength, hblength⟩
    obtain ⟨segment, hsegment, rfl⟩ := List.mem_map.mp (hheaders header List.mem_cons_self).1
    have htype := (hheaders segment.header List.mem_cons_self).2
    have hinside : Fits image.payload.length (segment.header.offset, segment.header.fileSize) := by
      rw [ha, length_slice_eq_min, hL.length] at halength
      rw [not_or] at hnote
      right
      dsimp only
      omega
    obtain ⟨notes, rest, hcontent, hnotesL⟩ := hL.notes segment hsegment htype hinside
    obtain ⟨notes', rest', hcontent', hnotesB⟩ := hB.notes segment hsegment htype hinside
    rw [hcontent] at hcontent'
    obtain ⟨rfl, rfl⟩ := SegmentContent.noteList.inj hcontent'
    rw [hblength.trans halength.symm]
    refine (parseSegmentNotes_agree limits (halength.trans hblength.symm) ?_ rest notes (a.length + 1) 0 buildId
      (by rw [List.drop_zero, ha, hnotesL]) (by rw [List.drop_zero, hb, hnotesB])).bind ?_
    · obtain ⟨index, hindex, hget⟩ := List.getElem_of_mem hsegment
      have hle := (programAt_le L (image.programOffset + index * programHeaderSize image.is64) image.is64 true).2
      rw [hL.program index hindex, hget] at hle
      rwa [halength]
    · rintro buildId' _ rfl
      exact hrest _ buildId'

private theorem inspect_agree (file : ReadOnlyFile) :
    Agree (inspect limits { file with contents := L }) (inspect limits { file with contents := B })
      fun r r' => r' = { r with endianness := bytes "big" } := by
  unfold inspect
  refine (Agree.refl checkOperation).bind ?_
  rintro _ _ -
  refine Agree.bind_get fun start => ?_
  cases start.before with
  | none => exact fail_agree _ _ start
  | some before =>
    refine Agree.ite (fun _ => fail_agree _ _) (fun _ => ?_) start
    have hreader : ∀ contents, Reader.mk { file with contents := contents } limits.maxMetadataBytes =
        (Reader.mk file limits.maxMetadataBytes).withContents contents := fun _ => rfl
    rw [hreader, hreader]
    refine (readHeader_agree hL hB).bind ?_
    rintro _ _ ⟨rfl, rfl, hentrySize⟩
    refine (readProgramHeaders_agree hL hB hentrySize image.segments.length 0 (Nat.zero_add _)).bind ?_
    rintro _ programs ⟨hprograms, rfl⟩
    rw [List.drop_zero] at hprograms
    change programs = image.programs at hprograms
    subst hprograms
    refine (scanSegments_agree hL hB image.programs [] (fun _ => id) {} ⟨rfl, fun p hp => absurd hp List.not_mem_nil⟩).bind ?_
    rintro scan _ ⟨rfl, hdynamic, hnotes⟩
    rw [List.nil_append] at hdynamic hnotes
    rw [hdynamic]
    refine (readDynamic_agree hL hB).bind ?_
    rintro table _ ⟨rfl, htable⟩
    refine (readNeeded_agree hL hB htable).bind ?_
    rintro needed _ rfl
    refine (parseNotes_agree hL hB scan.noteSegments hnotes 0 none).bind ?_
    rintro buildId _ rfl
    exact Agree.bind_get fun s => .returned rfl

end

/-! ### The image that a result describes -/

section

variable {image : ElfImage} {little : Bool} {reader : Reader} (h : Encodes image little reader.file.contents)

include h

theorem Encodes.header_eq : reader.header = image.header little := by
  have hbyte : ∀ index, index < 16 → reader.file.contents.getD index 0 = (image.identification little).getD index 0 := by
    intro index hindex
    rw [← h.identification, List.getD_eq_getElem?_getD, List.getD_eq_getElem?_getD, getElem?_slice, if_pos hindex,
      Nat.zero_add]
  have hclass : ((image.identification little).getD 4 0 == 2) = image.is64 := by
    unfold ElfImage.identification
    cases image.is64 <;> rfl
  have horder : ((image.identification little).getD 5 0 == 1) = little := by
    unfold ElfImage.identification
    cases little <;> rfl
  show headerIn _ _ _ _ = _
  rw [hbyte 4 (by omega), hbyte 5 (by omega), hbyte 7 (by omega), hclass, horder]
  exact h.headerIn_eq

theorem Encodes.programs_eq
    (hentrySize : 0 < reader.header.programCount → reader.header.programEntrySize = programHeaderSize reader.header.is64) :
    reader.programs = image.programs := by
  unfold Reader.programs filePrograms ElfImage.programs
  rw [h.header_eq] at hentrySize ⊢
  apply List.ext_getElem
  · rw [List.length_map, List.length_map, List.length_range]
    rfl
  · intro index _ hindex
    rw [List.length_map] at hindex
    have hsize : image.programEntrySize = programHeaderSize image.is64 :=
      hentrySize (Nat.lt_of_le_of_lt (Nat.zero_le _) hindex)
    rw [List.getElem_map, List.getElem_range, List.getElem_map]
    show programAt _ (image.programOffset + index * image.programEntrySize) image.is64 little = _
    rw [hsize]
    exact h.program index hindex

theorem Encodes.entries_eq (hprograms : reader.programs = image.programs)
    (hinside : ∀ segment ∈ reader.programs.find? (·.type == ptDynamic),
      Fits reader.file.contents.length (segment.offset, segment.fileSize)) : reader.entries = image.entries := by
  have hfind : image.programs.find? (·.type == ptDynamic) =
      (image.segments.find? (·.header.type == ptDynamic)).map ImageSegment.header := List.find?_map
  have hentries : image.entries = entriesOf (image.segments.find? (·.header.type == ptDynamic)) := rfl
  unfold Reader.entries
  rw [hprograms, hfind] at hinside ⊢
  rw [hentries, h.header_eq]
  cases hsegment : image.segments.find? (·.header.type == ptDynamic) with
  | none => rfl
  | some segment =>
    rw [hsegment] at hinside
    have htype : segment.header.type = ptDynamic := by simpa using List.find?_some hsegment
    have hfits := hinside segment.header rfl
    rw [h.length] at hfits
    exact congrArg liveEntries (h.dynamic segment (List.mem_of_find?_eq_some hsegment) htype hfits)

end

/-- The result says of an image what the image is; the flags are those of all its segments. -/
structure Describes (image : ElfImage) (little : Bool) (limits : ElfInspectionLimits) (r : ElfInspectionResult) : Prop where
  elfClass : r.elfClass = bytes (if image.is64 then "ELF64" else "ELF32")
  endianness : r.endianness = bytes (if little then "little" else "big")
  fileType : r.fileType = fileTypeName image.type ∧ r.fileTypeNumber = image.type
  machine : r.machine = machineName image.machine ∧ r.machineNumber = image.machine
  entryPoint : r.entryPoint = hexValue image.entry
  programHeaderCount : r.programHeaderCount = image.segments.length
  segments : r.segments = (image.programs.take limits.maxSegmentSummaries).map summary
  segmentSummariesTruncated : r.segmentSummariesTruncated = decide (limits.maxSegmentSummaries < image.segments.length)
  stackPolicy : r.stackPolicy =
    stackPolicyName (stackFlags image.programs).isSome ((stackFlags image.programs).any isExecutable)
  relro : r.relro = relroName (image.programs.any (·.type == ptGnuRelro))
    (image.entries.any fun entry => bindsNow entry.1 entry.2)
  positionIndependent : r.positionIndependent = (image.type == etDyn)
  pieExecutable : r.pieExecutable = (image.type == etDyn && image.programs.any (·.type == ptInterp))
  writableExecutable : r.writableExecutableLoadSegment = image.programs.any isWritableExecutableLoad

theorem Encodes.describes {image : ElfImage} {little : Bool} {reader : Reader} {limits : ElfInspectionLimits}
    {r : ElfInspectionResult} (h : Encodes image little reader.file.contents) (hr : Inspected reader limits r) :
    Describes image little limits r := by
  have hheader := h.header_eq
  have hprograms := h.programs_eq hr.programEntrySize
  have hentries := h.entries_eq hprograms hr.dynamic_inside
  have hlength : image.programs.length = image.segments.length := List.length_map _
  obtain ⟨hclass, horder, htype, htypeNumber, hmachine, hmachineNumber, -, -, hentry, hcount, -, -, -, -, -, -, -, hstack,
    hrelro, hpic, hpie, hwx, -, hsegments, htruncated⟩ := hr
  rw [hheader] at hclass horder htype htypeNumber hmachine hmachineNumber hentry hcount hpic hpie
  rw [hprograms] at hstack hrelro hpie hwx hsegments htruncated
  rw [hentries] at hrelro
  rw [hlength] at htruncated
  exact ⟨hclass, horder, ⟨htype, htypeNumber⟩, ⟨hmachine, hmachineNumber⟩, hentry, hcount, hsegments, htruncated, hstack,
    hrelro, hpic, hpie, hwx⟩

/-- Both byte orders of an image give the same outcome, from every state and step by step, but for the byte order that a
result states; and a result describes the image. -/
theorem byteOrder_irrelevant (image : ElfImage) (himage : image.WellLaid) (limits : ElfInspectionLimits)
    (file : ReadOnlyFile) :
    inspect limits (image.inFile false file) =
        (inspect limits (image.inFile true file) >>= fun r => pure { r with endianness := bytes "big" }) ∧
      ∀ little s r, Representable limits → Fresh s → (inspect limits (image.inFile little file) s).1 = .returned r →
        Describes image little limits r := by
  constructor
  · exact (inspect_agree (himage.encodes true) (himage.encodes false) file).eq_bind
  · intro little s r hlimits hs hr
    have h := inspect_inspected hlimits (image.inFile little file) s (hs.reading _)
    generalize inspect limits (image.inFile little file) s = run at h hr
    obtain ⟨ending, t⟩ := run
    subst hr
    obtain ⟨n, -, hinspected⟩ := h
    exact (himage.encodes little).describes hinspected

/-- A 32-bit image with one segment for dynamic linking. -/
def smallImage : ElfImage where
  is64 := false
  identVersion := 1
  osAbi := 3
  padding := List.replicate 8 0
  type := 3
  machine := 8
  version := 1
  entry := 0x1000
  programOffset := 52
  sectionOffset := 0
  flags := 0
  headerSize := 52
  programEntrySize := 32
  sectionEntrySize := 0
  sectionCount := 0
  sectionNames := 0
  segments := [⟨⟨ptDynamic, 4, 84, 84, 16, 16⟩, 84, 4, .dynamic [(dtFlags, 8), (dtNull, 0)]⟩]
  payload := List.replicate 100 0

private theorem smallImage_wellLaid : smallImage.WellLaid where
  padding := by decide
  fieldFits := by decide
  segmentFits := by decide
  entryFits := by decide
  inside := by decide
  apart := by decide
  dynamic := by
    intro segment hsegment _ _
    rw [List.mem_singleton.mp hsegment]
    exact ⟨_, rfl, rfl⟩
  notes := by
    intro segment hsegment htype
    rw [List.mem_singleton.mp hsegment] at htype
    cases htype
  interpreter := by
    intro segment hsegment htype
    rw [List.mem_singleton.mp hsegment] at htype
    cases htype
  strings := by
    intro address size offset haddress
    cases haddress

def smallImageFile : ReadOnlyFile where
  contents := []
  observedSize := 100
  maxReadBytes := 4096
  sizeAfter := some 100

theorem byteOrder_irrelevant_small :
    (inspect {} (smallImage.inFile true smallImageFile) smallElfRun).1.isReturned = true ∧
      inspect {} (smallImage.inFile false smallImageFile) =
        (inspect {} (smallImage.inFile true smallImageFile) >>= fun r => pure { r with endianness := bytes "big" }) :=
  ⟨by decide +kernel, (byteOrder_irrelevant smallImage smallImage_wellLaid {} smallImageFile).1⟩

end ElfAnalyzer

end NativeMcp
