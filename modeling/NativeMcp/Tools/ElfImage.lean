import NativeMcp.Tools.ElfDynamic
import NativeMcp.Tools.ElfNotes

/-!
# ELF images

What an ELF file says without a byte order: its header, its segments with what they hold, and its other bytes.  An image is
laid out in regions that do not overlap; its bytes in either order are the encodings of the regions over the payload.
-/

namespace NativeMcp

namespace ElfAnalyzer

open Program ByteOrder Layout

/-- What is behind the last note of a segment: too few bytes for a header, or a header that states a payload which is not
there. -/
inductive NoteRest where
  | short (data : Bytes) (h : data.length < 12)
  | overlong (nameSize descriptionSize type : Nat) (payload : Bytes) (hname : nameSize < 256 ^ 4)
      (hdescription : descriptionSize < 256 ^ 4) (h : payload.length < aligned nameSize + aligned descriptionSize)

def NoteRest.encode (little : Bool) : NoteRest → Bytes
  | .short data _ => data
  | .overlong nameSize descriptionSize type payload .. =>
    ByteOrder.encode little 4 nameSize ++ (ByteOrder.encode little 4 descriptionSize ++
      (ByteOrder.encode little 4 type ++ payload))

/-- What a segment holds beside bytes without an order. -/
inductive SegmentContent where
  | raw
  | dynamic (entries : List (Nat × Nat))
  | noteList (notes : List Note) (rest : NoteRest)

def encodeEntry (is64 little : Bool) (entry : Nat × Nat) : Bytes :=
  encode little (wordSize is64) entry.1 ++ encode little (wordSize is64) entry.2

def SegmentContent.encode (is64 little : Bool) : SegmentContent → Bytes
  | .raw => []
  | .dynamic entries => entries.flatMap (encodeEntry is64 little)
  | .noteList notes rest => encodeNotes little notes ++ rest.encode little

/-- The physical address and the alignment are not read. -/
structure ImageSegment where
  header : ProgramHeader
  physicalAddress : Nat
  alignment : Nat
  content : SegmentContent

/-- The fields for the section headers and the flags are not read. -/
structure ElfImage where
  is64 : Bool
  identVersion : UInt8
  osAbi : UInt8
  padding : Bytes
  type : Nat
  machine : Nat
  version : Nat
  entry : Nat
  programOffset : Nat
  sectionOffset : Nat
  flags : Nat
  headerSize : Nat
  programEntrySize : Nat
  sectionEntrySize : Nat
  sectionCount : Nat
  sectionNames : Nat
  segments : List ImageSegment
  payload : Bytes

/-- The width and the value of a field, one after another. -/
def encodeFields (little : Bool) (fields : List (Nat × Nat)) : Bytes :=
  fields.flatMap fun field => encode little field.1 field.2

def fieldsSize (fields : List (Nat × Nat)) : Nat := (fields.map Prod.fst).sum

namespace ElfImage

def identification (image : ElfImage) (little : Bool) : Bytes :=
  [0x7F, 0x45, 0x4C, 0x46, if image.is64 then 2 else 1, if little then 1 else 2, image.identVersion, image.osAbi] ++
    image.padding

def headerFields (image : ElfImage) : List (Nat × Nat) :=
  [(2, image.type), (2, image.machine), (4, image.version), (wordSize image.is64, image.entry),
    (wordSize image.is64, image.programOffset), (wordSize image.is64, image.sectionOffset), (4, image.flags),
    (2, image.headerSize), (2, image.programEntrySize), (2, image.segments.length), (2, image.sectionEntrySize),
    (2, image.sectionCount), (2, image.sectionNames)]

def segmentFields (is64 : Bool) (segment : ImageSegment) : List (Nat × Nat) :=
  if is64 then
    [(4, segment.header.type), (4, segment.header.flags), (8, segment.header.offset), (8, segment.header.virtualAddress),
      (8, segment.physicalAddress), (8, segment.header.fileSize), (8, segment.header.memorySize), (8, segment.alignment)]
  else
    [(4, segment.header.type), (4, segment.header.offset), (4, segment.header.virtualAddress),
      (4, segment.physicalAddress), (4, segment.header.fileSize), (4, segment.header.memorySize),
      (4, segment.header.flags), (4, segment.alignment)]

def programTable (image : ElfImage) (little : Bool) : Bytes :=
  image.segments.flatMap fun segment => encodeFields little (segmentFields image.is64 segment)

def programs (image : ElfImage) : List ProgramHeader := image.segments.map ImageSegment.header

/-- The header of the image, as the inspection decodes it. -/
def header (image : ElfImage) (little : Bool) : Header where
  is64 := image.is64
  little := little
  osAbi := image.osAbi
  type := image.type
  machine := image.machine
  entry := image.entry
  programOffset := image.programOffset
  programEntrySize := image.programEntrySize
  programCount := image.segments.length

/-- The regions of the image with their bytes. -/
def regions (image : ElfImage) (little : Bool) : List (Nat × Bytes) :=
  (0, image.identification little ++ encodeFields little image.headerFields) ::
    (image.programOffset, image.programTable little) ::
    image.segments.map fun segment => (segment.header.offset, segment.content.encode image.is64 little)

/-- The bytes of the image in a byte order. -/
def contents (image : ElfImage) (little : Bool) : Bytes := layOut image.payload (image.regions little)

/-- The file that holds the image. -/
def inFile (image : ElfImage) (little : Bool) (file : ReadOnlyFile) : ReadOnlyFile :=
  { file with contents := image.contents little }

end ElfImage

def SegmentContent.entries : SegmentContent → List (Nat × Nat)
  | .dynamic entries => entries
  | _ => []

def entriesOf : Option ImageSegment → List (Nat × Nat)
  | some segment => liveEntries segment.content.entries
  | none => []

/-- The entries before the first `DT_NULL` of the first segment for dynamic linking. -/
def ElfImage.entries (image : ElfImage) : List (Nat × Nat) :=
  entriesOf (image.segments.find? (·.header.type == ptDynamic))

/-- Each value fits its field, and the regions lie in the file and do not overlap: neither one another nor the bytes of the
interpreter and of the string table.  A segment for dynamic linking holds entries and one for notes holds notes, if its
range is in the file. -/
structure ElfImage.WellLaid (image : ElfImage) : Prop where
  padding : image.padding.length = 8
  fieldFits : ∀ field ∈ image.headerFields, field.2 < 256 ^ field.1
  segmentFits : ∀ segment ∈ image.segments, ∀ field ∈ ElfImage.segmentFields image.is64 segment, field.2 < 256 ^ field.1
  entryFits : ∀ segment ∈ image.segments, ∀ entry ∈ segment.content.entries,
    entry.1 < 256 ^ wordSize image.is64 ∧ entry.2 < 256 ^ wordSize image.is64
  inside : ∀ region ∈ image.regions true, Fits image.payload.length (rangeOf region)
  apart : (image.regions true).Pairwise fun region region' => Apart (rangeOf region) (rangeOf region')
  dynamic : ∀ segment ∈ image.segments, segment.header.type = ptDynamic →
    Fits image.payload.length (segment.header.offset, segment.header.fileSize) →
    ∃ entries, segment.content = .dynamic entries ∧
      entries.length = segment.header.fileSize / dynamicEntrySize image.is64
  notes : ∀ segment ∈ image.segments, segment.header.type = ptNote →
    Fits image.payload.length (segment.header.offset, segment.header.fileSize) →
    ∃ notes rest, segment.content = .noteList notes rest ∧
      (segment.content.encode image.is64 true).length = segment.header.fileSize
  interpreter : ∀ segment ∈ image.segments, segment.header.type = ptInterp →
    ∀ region ∈ image.regions true, Apart (segment.header.offset, segment.header.fileSize) (rangeOf region)
  strings : ∀ address size offset, lastValue dtStrtab image.entries = some address →
    lastValue dtStrsz image.entries = some size → virtualToFile image.programs address size = some offset →
    ∀ region ∈ image.regions true, Apart (offset, size) (rangeOf region)

/-! ### Decoding the fields -/

theorem length_encodeFields (little : Bool) (fields : List (Nat × Nat)) :
    (encodeFields little fields).length = fieldsSize fields := by
  unfold encodeFields fieldsSize
  rw [List.length_flatMap]
  congr 1
  apply List.map_congr_left
  intro field _
  exact length_encode ..

theorem fieldsSize_append (before after : List (Nat × Nat)) (width value : Nat) :
    fieldsSize (before ++ (width, value) :: after) = fieldsSize before + (width + fieldsSize after) := by
  unfold fieldsSize
  rw [List.map_append, List.map_cons, List.sum_append, List.sum_cons]

/-- The field behind others. -/
theorem valueAt_encodeFields (little : Bool) (prefixBytes : Bytes) (before : List (Nat × Nat)) (width value : Nat)
    (after : List (Nat × Nat)) (h : value < 256 ^ width) :
    valueAt (prefixBytes ++ encodeFields little (before ++ (width, value) :: after))
      (prefixBytes.length + fieldsSize before) width little = value := by
  have hslice : slice (prefixBytes ++ encodeFields little (before ++ (width, value) :: after))
      (prefixBytes.length + fieldsSize before) width = encode little width value := by
    have hsplit : prefixBytes ++ encodeFields little (before ++ (width, value) :: after) =
        (prefixBytes ++ encodeFields little before) ++ (encode little width value ++ encodeFields little after) := by
      unfold encodeFields
      rw [List.flatMap_append, List.flatMap_cons, List.append_assoc]
    have hlength : (prefixBytes ++ encodeFields little before).length = prefixBytes.length + fieldsSize before := by
      rw [List.length_append, length_encodeFields]
    have hmiddle := slice_of_append (prefixBytes ++ encodeFields little before) (encode little width value)
      (encodeFields little after)
    rw [hlength, length_encode] at hmiddle
    rw [hsplit, hmiddle]
  unfold valueAt
  rw [hslice, decode_encode little h]

theorem programAt_encodeFields (is64 little : Bool) (segment : ImageSegment)
    (hfits : ∀ field ∈ ElfImage.segmentFields is64 segment, field.2 < 256 ^ field.1) :
    programAt (encodeFields little (ElfImage.segmentFields is64 segment)) 0 is64 little = segment.header := by
  have hfield : ∀ before width value after, ElfImage.segmentFields is64 segment = before ++ (width, value) :: after →
      valueAt (encodeFields little (ElfImage.segmentFields is64 segment)) (fieldsSize before) width little = value := by
    intro before width value after hfields
    have hfit : value < 256 ^ width := hfits (width, value) (by
      rw [hfields]
      exact List.mem_append_right _ List.mem_cons_self)
    have hvalue := valueAt_encodeFields little [] before width value after hfit
    rw [← hfields, List.nil_append, List.length_nil, Nat.zero_add] at hvalue
    exact hvalue
  obtain ⟨⟨type, flags, offset, virtualAddress, fileSize, memorySize⟩, physicalAddress, alignment, content⟩ := segment
  cases is64
  · have htype := hfield [] 4 type _ rfl
    have hoffset := hfield [(4, type)] 4 offset _ rfl
    have haddress := hfield [(4, type), (4, offset)] 4 virtualAddress _ rfl
    have hfile := hfield [(4, type), (4, offset), (4, virtualAddress), (4, physicalAddress)] 4 fileSize _ rfl
    have hmemory := hfield [(4, type), (4, offset), (4, virtualAddress), (4, physicalAddress), (4, fileSize)] 4 memorySize
      _ rfl
    have hflags := hfield [(4, type), (4, offset), (4, virtualAddress), (4, physicalAddress), (4, fileSize),
      (4, memorySize)] 4 flags _ rfl
    unfold programAt
    rw [if_neg Bool.false_ne_true, ProgramHeader.mk.injEq]
    exact ⟨htype, hflags, hoffset, haddress, hfile, hmemory⟩
  · have htype := hfield [] 4 type _ rfl
    have hflags := hfield [(4, type)] 4 flags _ rfl
    have hoffset := hfield [(4, type), (4, flags)] 8 offset _ rfl
    have haddress := hfield [(4, type), (4, flags), (8, offset)] 8 virtualAddress _ rfl
    have hfile := hfield [(4, type), (4, flags), (8, offset), (8, virtualAddress), (8, physicalAddress)] 8 fileSize _ rfl
    have hmemory := hfield [(4, type), (4, flags), (8, offset), (8, virtualAddress), (8, physicalAddress), (8, fileSize)] 8
      memorySize _ rfl
    unfold programAt
    rw [if_pos rfl, ProgramHeader.mk.injEq]
    exact ⟨htype, hflags, hoffset, haddress, hfile, hmemory⟩

/-! ### The bytes of an image -/

theorem NoteRest.length_encode (little : Bool) (rest : NoteRest) :
    (rest.encode little).length = (rest.encode true).length := by
  cases rest with
  | short data h => rfl
  | overlong nameSize descriptionSize type payload hname hdescription h =>
    unfold NoteRest.encode
    simp only [List.length_append, ByteOrder.length_encode]

theorem length_encodeNotes (little : Bool) (notes : List Note) :
    (encodeNotes little notes).length = (notes.map Note.size).sum := by
  unfold encodeNotes
  rw [List.length_flatMap]
  congr 1
  apply List.map_congr_left
  intro note _
  exact Note.length_encode ..

theorem length_encodeEntry (is64 little : Bool) (entry : Nat × Nat) :
    (encodeEntry is64 little entry).length = dynamicEntrySize is64 := by
  unfold encodeEntry
  rw [List.length_append, length_encode, length_encode, dynamicEntrySize_eq]
  omega

theorem SegmentContent.length_encode (is64 little : Bool) (content : SegmentContent) :
    (content.encode is64 little).length = (content.encode is64 true).length := by
  cases content with
  | raw => rfl
  | dynamic entries =>
    unfold SegmentContent.encode
    rw [List.length_flatMap, List.length_flatMap]
    congr 1
    apply List.map_congr_left
    intro entry _
    rw [length_encodeEntry, length_encodeEntry]
  | noteList notes rest =>
    unfold SegmentContent.encode
    rw [List.length_append, List.length_append, length_encodeNotes, length_encodeNotes, rest.length_encode]

theorem entryAt_encodeEntry {data : Bytes} {offset : Nat} (is64 little : Bool) {entry : Nat × Nat}
    (h : slice data offset (dynamicEntrySize is64) = encodeEntry is64 little entry)
    (hfits : entry.1 < 256 ^ wordSize is64 ∧ entry.2 < 256 ^ wordSize is64) :
    entryAt data offset is64 little = entry := by
  have hsize := dynamicEntrySize_eq is64
  have htag : slice data offset (wordSize is64) = encode little (wordSize is64) entry.1 := by
    have hpart : slice (slice data offset (dynamicEntrySize is64)) 0 (wordSize is64) =
        slice data (offset + 0) (wordSize is64) := slice_slice (by omega)
    rw [Nat.add_zero] at hpart
    rw [← hpart, h]
    unfold encodeEntry slice
    exact List.take_left' (length_encode ..)
  have hvalue : slice data (offset + wordSize is64) (wordSize is64) = encode little (wordSize is64) entry.2 := by
    have hpart : slice (slice data offset (dynamicEntrySize is64)) (wordSize is64) (wordSize is64) =
        slice data (offset + wordSize is64) (wordSize is64) := slice_slice (by omega)
    rw [← hpart, h]
    unfold encodeEntry slice
    rw [List.drop_left' (length_encode ..)]
    exact List.take_of_length_le (Nat.le_of_eq (length_encode ..))
  unfold entryAt valueAt
  rw [htag, hvalue, decode_encode little hfits.1, decode_encode little hfits.2]

/-- The bytes of every segment are notes with such a rest, in either order. -/
theorem exists_noteList (little : Bool) (data : Bytes) :
    ∃ notes rest, data = encodeNotes little notes ++ NoteRest.encode little rest := by
  induction hlength : data.length using Nat.strongRecOn generalizing data with
  | _ length ih =>
    by_cases hshort : data.length < 12
    · exact ⟨[], .short data hshort, rfl⟩
    by_cases hlong : data.length < noteEnd data 0 little
    · -- a header whose payload is not there
      have hpayload : (data.drop 12).length <
          aligned (valueAt data 0 4 little) + aligned (valueAt data 4 4 little) := by
        unfold noteEnd at hlong
        rw [List.length_drop]
        simp only [Nat.zero_add] at hlong
        omega
      refine ⟨[], .overlong (valueAt data 0 4 little) (valueAt data 4 4 little) (valueAt data 8 4 little) (data.drop 12)
        (valueAt_lt ..) (valueAt_lt ..) hpayload, ?_⟩
      show data = ByteOrder.encode little 4 (valueAt data 0 4 little) ++ (ByteOrder.encode little 4
        (valueAt data 4 4 little) ++ (ByteOrder.encode little 4 (valueAt data 8 4 little) ++ data.drop 12))
      rw [encode_valueAt little (by omega), encode_valueAt little (by omega), encode_valueAt little (by omega),
        ← drop_eq_slice_append data 8 4 12 rfl, ← drop_eq_slice_append data 4 4 8 rfl,
        ← drop_eq_slice_append data 0 4 4 rfl, List.drop_zero]
    · obtain ⟨note, hnote, -⟩ := exists_note (Nat.le_of_not_lt hlong)
      rw [List.drop_zero] at hnote
      have hsize := congrArg List.length hnote
      rw [List.length_append, Note.length_encode] at hsize
      have hpositive : 12 ≤ note.size := by
        unfold Note.size
        omega
      obtain ⟨notes, rest, hrest⟩ := ih _ (by omega) (data.drop (noteEnd data 0 little)) rfl
      refine ⟨note :: notes, rest, ?_⟩
      rw [encodeNotes_cons, List.append_assoc, ← hrest]
      exact hnote

/-- What the bytes of an image say in a byte order, region by region. -/
structure Encodes (image : ElfImage) (little : Bool) (contents : Bytes) : Prop where
  length : contents.length = image.payload.length
  identification : slice contents 0 16 = image.identification little
  type : valueAt contents 16 2 little = image.type
  machine : valueAt contents 18 2 little = image.machine
  version : valueAt contents 20 4 little = image.version
  entry : valueAt contents 24 (wordSize image.is64) little = image.entry
  programOffset : valueAt contents (if image.is64 then 32 else 28) (wordSize image.is64) little = image.programOffset
  headerSize : valueAt contents (if image.is64 then 52 else 40) 2 little = image.headerSize
  programEntrySize : valueAt contents (if image.is64 then 54 else 42) 2 little = image.programEntrySize
  programCount : valueAt contents (if image.is64 then 56 else 44) 2 little = image.segments.length
  program : ∀ index, ∀ h : index < image.segments.length,
    programAt contents (image.programOffset + index * programHeaderSize image.is64) image.is64 little =
      image.segments[index].header
  interpreter : ∀ segment ∈ image.segments, segment.header.type = ptInterp →
    slice contents segment.header.offset segment.header.fileSize =
      slice image.payload segment.header.offset segment.header.fileSize
  dynamic : ∀ segment ∈ image.segments, segment.header.type = ptDynamic →
    Fits image.payload.length (segment.header.offset, segment.header.fileSize) →
    entriesAt contents segment.header.offset (segment.header.fileSize / dynamicEntrySize image.is64) image.is64 little =
      segment.content.entries
  notes : ∀ segment ∈ image.segments, segment.header.type = ptNote →
    Fits image.payload.length (segment.header.offset, segment.header.fileSize) →
    ∃ notes rest, segment.content = .noteList notes rest ∧
      slice contents segment.header.offset segment.header.fileSize = encodeNotes little notes ++ rest.encode little
  strings : ∀ address size offset, lastValue dtStrtab image.entries = some address →
    lastValue dtStrsz image.entries = some size → virtualToFile image.programs address size = some offset →
    slice contents offset size = slice image.payload offset size

theorem ElfImage.ranges (image : ElfImage) (little : Bool) :
    (image.regions little).map rangeOf = (image.regions true).map rangeOf := by
  unfold ElfImage.regions
  simp only [List.map_cons, List.map_map]
  have hident : (image.identification little).length = (image.identification true).length := rfl
  congr 1
  · unfold rangeOf
    rw [List.length_append, List.length_append, length_encodeFields, length_encodeFields, hident]
  congr 1
  · unfold rangeOf
    unfold ElfImage.programTable
    rw [List.length_flatMap, List.length_flatMap]
    simp only [length_encodeFields]
  · apply List.map_congr_left
    intro segment _
    unfold rangeOf
    dsimp only [Function.comp]
    rw [segment.content.length_encode]

theorem ElfImage.forall_range (image : ElfImage) (little : Bool) {P : Range → Prop}
    (hP : ∀ region ∈ image.regions true, P (rangeOf region)) : ∀ region ∈ image.regions little, P (rangeOf region) := by
  intro region hregion
  have hmem : rangeOf region ∈ (image.regions true).map rangeOf := by
    rw [← image.ranges little]
    exact List.mem_map_of_mem hregion
  obtain ⟨region', hregion', heq⟩ := List.mem_map.mp hmem
  rw [← heq]
  exact hP region' hregion'

section

variable {image : ElfImage} (h : image.WellLaid) (little : Bool)

include h

theorem ElfImage.WellLaid.apart_regions :
    (image.regions little).Pairwise fun region region' => Apart (rangeOf region) (rangeOf region') := by
  have hapart := h.apart
  rw [← List.pairwise_map, ← image.ranges little, List.pairwise_map] at hapart
  exact hapart

theorem ElfImage.WellLaid.length_contents : (image.contents little).length = image.payload.length :=
  length_layOut _ _ (image.forall_range little h.inside)

/-- Each region holds its bytes. -/
theorem ElfImage.WellLaid.slice_region {region : Nat × Bytes} (hregion : region ∈ image.regions little) :
    slice (image.contents little) region.1 region.2.length = region.2 :=
  slice_layOut_part _ _ (image.forall_range little h.inside) (h.apart_regions little) hregion

/-- What is apart from the regions is payload. -/
theorem ElfImage.WellLaid.slice_payload {r : Range} (hr : ∀ region ∈ image.regions true, Apart r (rangeOf region)) :
    slice (image.contents little) r.1 r.2 = slice image.payload r.1 r.2 :=
  slice_layOut_apart _ _ (image.forall_range little h.inside) (image.forall_range little hr)

theorem ElfImage.WellLaid.identification_length : (image.identification little).length = 16 := by
  unfold ElfImage.identification
  rw [List.length_append, h.padding]
  rfl

/-- A field of the header. -/
theorem ElfImage.WellLaid.header_field (before : List (Nat × Nat)) {after : List (Nat × Nat)} {width value : Nat}
    (hfields : image.headerFields = before ++ (width, value) :: after) :
    valueAt (image.contents little) (16 + fieldsSize before) width little = value := by
  have hregion : slice (image.contents little) 0
      (image.identification little ++ encodeFields little image.headerFields).length =
        image.identification little ++ encodeFields little image.headerFields :=
    h.slice_region little List.mem_cons_self
  have hfits : value < 256 ^ width := h.fieldFits (width, value) (by
    rw [hfields]
    exact List.mem_append_right _ List.mem_cons_self)
  have hvalue := valueAt_encodeFields little (image.identification little) before width value after hfits
  rw [← hfields, h.identification_length, ← hregion, valueAt_slice, Nat.zero_add] at hvalue
  · exact hvalue
  · rw [List.length_append, h.identification_length, length_encodeFields, hfields, fieldsSize_append]
    omega

/-- A program header. -/
theorem ElfImage.WellLaid.program {index : Nat} (hindex : index < image.segments.length) :
    programAt (image.contents little) (image.programOffset + index * programHeaderSize image.is64) image.is64 little =
      image.segments[index].header := by
  have hsize : ∀ segment ∈ image.segments,
      (encodeFields little (ElfImage.segmentFields image.is64 segment)).length = programHeaderSize image.is64 := by
    intro segment _
    rw [length_encodeFields]
    unfold ElfImage.segmentFields programHeaderSize
    cases image.is64 <;> rfl
  have hblock : slice (image.programTable little) (index * programHeaderSize image.is64) (programHeaderSize image.is64) =
      _ := slice_flatMap hsize hindex
  have hregion : slice (image.contents little) image.programOffset (image.programTable little).length =
      image.programTable little := h.slice_region little (List.mem_cons_of_mem _ List.mem_cons_self)
  have hlength : (image.programTable little).length = image.segments.length * programHeaderSize image.is64 :=
    length_flatMap_blocks hsize
  have hinside : (index + 1) * programHeaderSize image.is64 ≤ image.segments.length * programHeaderSize image.is64 :=
    Nat.mul_le_mul_right _ hindex
  rw [Nat.add_mul, Nat.one_mul] at hinside
  rw [← hregion, slice_slice (by rw [hlength]; exact hinside)] at hblock
  rw [← programAt_slice image.is64 little (Nat.le_refl _), hblock]
  exact programAt_encodeFields image.is64 little _ (h.segmentFits _ (List.getElem_mem hindex))

theorem ElfImage.WellLaid.slice_content {segment : ImageSegment} (hsegment : segment ∈ image.segments) :
    slice (image.contents little) segment.header.offset (segment.content.encode image.is64 little).length =
      segment.content.encode image.is64 little :=
  h.slice_region little (List.mem_cons_of_mem _ (List.mem_cons_of_mem _
    (List.mem_map.mpr ⟨segment, hsegment, rfl⟩)))

/-- A table of entries is read back. -/
theorem ElfImage.WellLaid.entriesAt_eq {segment : ImageSegment} (hsegment : segment ∈ image.segments)
    {entries : List (Nat × Nat)} (hcontent : segment.content = .dynamic entries) :
    entriesAt (image.contents little) segment.header.offset entries.length image.is64 little = entries := by
  have hregion := h.slice_content little hsegment
  have hfits := h.entryFits segment hsegment
  rw [hcontent] at hregion hfits
  have hsize : ∀ entry ∈ entries, (encodeEntry image.is64 little entry).length = dynamicEntrySize image.is64 :=
    fun entry _ => length_encodeEntry ..
  have hlength : (SegmentContent.encode image.is64 little (.dynamic entries)).length =
      entries.length * dynamicEntrySize image.is64 := length_flatMap_blocks hsize
  unfold entriesAt
  apply List.ext_getElem
  · rw [List.length_map, List.length_range]
  · intro index _ hindex
    have hblock : slice (SegmentContent.encode image.is64 little (.dynamic entries)) (index * dynamicEntrySize image.is64)
        (dynamicEntrySize image.is64) = encodeEntry image.is64 little entries[index] := slice_flatMap hsize hindex
    have hinside : (index + 1) * dynamicEntrySize image.is64 ≤ entries.length * dynamicEntrySize image.is64 :=
      Nat.mul_le_mul_right _ hindex
    rw [Nat.add_mul, Nat.one_mul, ← hlength] at hinside
    rw [← hregion, slice_slice hinside] at hblock
    rw [List.getElem_map, List.getElem_range]
    exact entryAt_encodeEntry _ _ hblock (hfits _ (List.getElem_mem hindex))

theorem ElfImage.WellLaid.encodes : Encodes image little (image.contents little) where
  length := h.length_contents little
  identification := by
    have hregion : slice (image.contents little) 0
        (image.identification little ++ encodeFields little image.headerFields).length =
          image.identification little ++ encodeFields little image.headerFields :=
      h.slice_region little List.mem_cons_self
    have hpart := congrArg (slice · 0 16) hregion
    rw [slice_slice (by rw [List.length_append, h.identification_length]; omega), Nat.zero_add] at hpart
    rw [hpart]
    exact List.take_left' (h.identification_length little)
  type := h.header_field little [] rfl
  machine := h.header_field little [(2, image.type)] rfl
  version := h.header_field little [(2, image.type), (2, image.machine)] rfl
  entry := h.header_field little [(2, image.type), (2, image.machine), (4, image.version)] rfl
  programOffset := by
    have hoffset := h.header_field little [(2, image.type), (2, image.machine), (4, image.version),
      (wordSize image.is64, image.entry)] rfl
    rwa [show 16 + fieldsSize _ = if image.is64 then 32 else 28 by cases image.is64 <;> rfl] at hoffset
  headerSize := by
    have hsize := h.header_field little [(2, image.type), (2, image.machine), (4, image.version),
      (wordSize image.is64, image.entry), (wordSize image.is64, image.programOffset),
      (wordSize image.is64, image.sectionOffset), (4, image.flags)] rfl
    rwa [show 16 + fieldsSize _ = if image.is64 then 52 else 40 by cases image.is64 <;> rfl] at hsize
  programEntrySize := by
    have hsize := h.header_field little [(2, image.type), (2, image.machine), (4, image.version),
      (wordSize image.is64, image.entry), (wordSize image.is64, image.programOffset),
      (wordSize image.is64, image.sectionOffset), (4, image.flags), (2, image.headerSize)] rfl
    rwa [show 16 + fieldsSize _ = if image.is64 then 54 else 42 by cases image.is64 <;> rfl] at hsize
  programCount := by
    have hcount := h.header_field little [(2, image.type), (2, image.machine), (4, image.version),
      (wordSize image.is64, image.entry), (wordSize image.is64, image.programOffset),
      (wordSize image.is64, image.sectionOffset), (4, image.flags), (2, image.headerSize),
      (2, image.programEntrySize)] rfl
    rwa [show 16 + fieldsSize _ = if image.is64 then 56 else 44 by cases image.is64 <;> rfl] at hcount
  program _ hindex := h.program little hindex
  interpreter segment hsegment htype := h.slice_payload little (h.interpreter segment hsegment htype)
  dynamic segment hsegment htype hinside := by
    obtain ⟨entries, hcontent, hlength⟩ := h.dynamic segment hsegment htype hinside
    rw [← hlength, h.entriesAt_eq little hsegment hcontent, hcontent]
    rfl
  notes segment hsegment htype hinside := by
    obtain ⟨notes, rest, hcontent, hlength⟩ := h.notes segment hsegment htype hinside
    have hregion := h.slice_content little hsegment
    rw [segment.content.length_encode, hlength] at hregion
    refine ⟨notes, rest, hcontent, ?_⟩
    rw [hregion, hcontent]
    rfl
  strings address size offset haddress hsize hoffset :=
    h.slice_payload little (h.strings address size offset haddress hsize hoffset)

end

end ElfAnalyzer

end NativeMcp
