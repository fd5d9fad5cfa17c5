import NativeMcp.Tools.ElfReading

/-!
# The notes of an ELF file

A note as its type, its name and its description, its bytes in a segment, and what `parse_notes` accepts: segments whose
bytes are notes one after another.
-/

namespace NativeMcp

namespace ElfAnalyzer

open Program ByteOrder Layout

/-- The size of a name or a description with what pads it to a multiple of four. -/
def aligned (size : Nat) : Nat := (size + 3) / 4 * 4

theorem le_aligned (size : Nat) : size ≤ aligned size := by
  unfold aligned
  omega

/-- The bytes that pad are arbitrary. -/
structure Note where
  type : Nat
  name : Bytes
  namePadding : Bytes
  description : Bytes
  descriptionPadding : Bytes
  type_lt : type < 256 ^ 4
  name_lt : name.length < 256 ^ 4
  description_lt : description.length < 256 ^ 4
  name_aligned : name.length + namePadding.length = aligned name.length
  description_aligned : description.length + descriptionPadding.length = aligned description.length

namespace Note

def encode (little : Bool) (note : Note) : Bytes :=
  ByteOrder.encode little 4 note.name.length ++ (ByteOrder.encode little 4 note.description.length ++
    (ByteOrder.encode little 4 note.type ++ (note.name ++ (note.namePadding ++
      (note.description ++ note.descriptionPadding)))))

def size (note : Note) : Nat := 12 + aligned note.name.length + aligned note.description.length

@[simp] theorem length_encode (little : Bool) (note : Note) : (note.encode little).length = note.size := by
  have hname := note.name_aligned
  have hdescription := note.description_aligned
  unfold encode size
  simp only [List.length_append, ByteOrder.length_encode]
  omega

/-- `NT_GNU_BUILD_ID` with the name `GNU`. -/
def isBuildId (note : Note) : Bool := note.type == ntGnuBuildId && note.name == [0x47, 0x4E, 0x55, 0]

/-- No note begins in the same way as another. -/
theorem encode_append_inj {little : Bool} {note note' : Note} {rest rest' : Bytes}
    (h : note.encode little ++ rest = note'.encode little ++ rest') : note = note' ∧ rest = rest' := by
  have split4 : ∀ {v v' : Nat} {xs xs' : Bytes}, v < 256 ^ 4 → v' < 256 ^ 4 →
      ByteOrder.encode little 4 v ++ xs = ByteOrder.encode little 4 v' ++ xs' → v = v' ∧ xs = xs' := by
    intro v v' xs xs' hv hv' heq
    have ⟨hcode, hxs⟩ := List.append_inj heq (by simp)
    have hvalue := congrArg (decode little) hcode
    rw [decode_encode little hv, decode_encode little hv'] at hvalue
    exact ⟨hvalue, hxs⟩
  unfold encode at h
  simp only [List.append_assoc] at h
  obtain ⟨hname, h⟩ := split4 note.name_lt note'.name_lt h
  obtain ⟨hdescription, h⟩ := split4 note.description_lt note'.description_lt h
  obtain ⟨htype, h⟩ := split4 note.type_lt note'.type_lt h
  have halign := note.name_aligned
  have halign' := note'.name_aligned
  have hdalign := note.description_aligned
  have hdalign' := note'.description_aligned
  rw [hname] at halign
  rw [hdescription] at hdalign
  obtain ⟨hn, h⟩ := List.append_inj h hname
  obtain ⟨hnp, h⟩ := List.append_inj h (by omega)
  obtain ⟨hd, h⟩ := List.append_inj h hdescription
  obtain ⟨hdp, h⟩ := List.append_inj h (by omega)
  refine ⟨?_, h⟩
  cases note
  cases note'
  subst htype hn hnp hd hdp
  rfl

end Note

/-! ### One note of a segment -/

theorem align4_eq {size : Nat} (h : size < 256 ^ 4) : align4 size = pure (aligned size) := by
  unfold align4
  rw [fitting_eq (by unfold kMaxUint64; omega)]
  rfl

theorem encode_valueAt {data : Bytes} {offset width : Nat} (little : Bool) (h : offset + width ≤ data.length) :
    encode little width (valueAt data offset width little) = slice data offset width := by
  have := encode_decode little (slice data offset width)
  rwa [length_slice h] at this

/-- Where the note at a position ends, from the sizes it states. -/
def noteEnd (data : Bytes) (position : Nat) (little : Bool) : Nat :=
  position + 12 + aligned (valueAt data position 4 little) + aligned (valueAt data (position + 4) 4 little)

/-- The note at a position: there is one if its bytes are there. -/
theorem exists_note {data : Bytes} {position : Nat} {little : Bool} (h : noteEnd data position little ≤ data.length) :
    ∃ note : Note, data.drop position = note.encode little ++ data.drop (noteEnd data position little) ∧
      note.type = valueAt data (position + 8) 4 little ∧
      note.name = slice data (position + 12) (valueAt data position 4 little) ∧
      note.description = slice data (position + 12 + aligned (valueAt data position 4 little))
        (valueAt data (position + 4) 4 little) := by
  unfold noteEnd at h
  have hlt := fun offset => valueAt_lt data offset 4 little
  have hn := le_aligned (valueAt data position 4 little)
  have hd := le_aligned (valueAt data (position + 4) 4 little)
  generalize hnameSize : valueAt data position 4 little = nameSize at *
  generalize hdescriptionSize : valueAt data (position + 4) 4 little = descriptionSize at *
  have hname : (slice data (position + 12) nameSize).length = nameSize := length_slice (by omega)
  have hdescription : (slice data (position + 12 + aligned nameSize) descriptionSize).length = descriptionSize :=
    length_slice (by omega)
  let note : Note := {
    type := valueAt data (position + 8) 4 little
    name := slice data (position + 12) nameSize
    namePadding := slice data (position + 12 + nameSize) (aligned nameSize - nameSize)
    description := slice data (position + 12 + aligned nameSize) descriptionSize
    descriptionPadding := slice data (position + 12 + aligned nameSize + descriptionSize)
      (aligned descriptionSize - descriptionSize)
    type_lt := hlt _
    name_lt := by rw [hname, ← hnameSize]; exact hlt _
    description_lt := by rw [hdescription, ← hdescriptionSize]; exact hlt _
    name_aligned := by rw [hname, length_slice (by omega)]; omega
    description_aligned := by rw [hdescription, length_slice (by omega)]; omega }
  refine ⟨note, ?_, rfl, rfl, rfl⟩
  show data.drop position = (ByteOrder.encode little 4 (slice data (position + 12) nameSize).length ++
    (ByteOrder.encode little 4 (slice data (position + 12 + aligned nameSize) descriptionSize).length ++
    (ByteOrder.encode little 4 (valueAt data (position + 8) 4 little) ++ (slice data (position + 12) nameSize ++
    (slice data (position + 12 + nameSize) (aligned nameSize - nameSize) ++
    (slice data (position + 12 + aligned nameSize) descriptionSize ++
    slice data (position + 12 + aligned nameSize + descriptionSize) (aligned descriptionSize - descriptionSize))))))) ++ _
  rw [hname, hdescription, ← hnameSize, ← hdescriptionSize, encode_valueAt little (by omega),
    encode_valueAt little (by omega), encode_valueAt little (by omega), hnameSize, hdescriptionSize]
  simp only [List.append_assoc]
  rw [drop_eq_slice_append data position 4 (position + 4) rfl,
    drop_eq_slice_append data (position + 4) 4 (position + 8) rfl,
    drop_eq_slice_append data (position + 8) 4 (position + 12) rfl,
    drop_eq_slice_append data (position + 12) nameSize (position + 12 + nameSize) rfl,
    drop_eq_slice_append data (position + 12 + nameSize) (aligned nameSize - nameSize)
      (position + 12 + aligned nameSize) (by omega),
    drop_eq_slice_append data (position + 12 + aligned nameSize) descriptionSize
      (position + 12 + aligned nameSize + descriptionSize) rfl,
    drop_eq_slice_append data (position + 12 + aligned nameSize + descriptionSize)
      (aligned descriptionSize - descriptionSize) (noteEnd data position little)
      (by unfold noteEnd; rw [hnameSize, hdescriptionSize]; omega)]

/-- The other direction: the sizes that a note states. -/
theorem noteEnd_eq {data rest : Bytes} {position : Nat} {little : Bool} {note : Note}
    (h : data.drop position = note.encode little ++ rest) :
    position + 12 ≤ data.length ∧ noteEnd data position little = position + note.size ∧
      noteEnd data position little ≤ data.length ∧ data.drop (noteEnd data position little) = rest := by
  have hlength := congrArg List.length h
  rw [List.length_drop, List.length_append, Note.length_encode] at hlength
  have hsize : 12 ≤ note.size := by
    unfold Note.size
    omega
  have hname : valueAt data position 4 little = note.name.length := by
    have hslice : slice data position 4 = encode little 4 note.name.length := by
      unfold slice
      rw [h, Note.encode, List.append_assoc]
      exact List.take_left' (by simp)
    unfold valueAt
    rw [hslice, decode_encode little note.name_lt]
  have hdescription : valueAt data (position + 4) 4 little = note.description.length := by
    have hslice : slice data (position + 4) 4 = encode little 4 note.description.length := by
      unfold slice
      rw [← List.drop_drop, h, Note.encode, List.append_assoc, List.drop_left' (by simp), List.append_assoc]
      exact List.take_left' (by simp)
    unfold valueAt
    rw [hslice, decode_encode little note.description_lt]
  have hend : noteEnd data position little = position + note.size := by
    unfold noteEnd Note.size
    rw [hname, hdescription]
    omega
  refine ⟨by omega, hend, by omega, ?_⟩
  rw [hend, ← List.drop_drop, h]
  exact List.drop_left' (by simp)

/-- The build ID after a note. -/
def takeNote (buildId : Option Bytes) (note : Note) : Option Bytes :=
  if buildId.isNone ∧ note.isBuildId then some (bytesToHex note.description) else buildId

/-- A note that may be the first with a build ID has one that is not too long. -/
def Allowed (limits : ElfInspectionLimits) (buildId : Option Bytes) (note : Note) : Prop :=
  buildId = none → note.isBuildId = true → note.description.length ≤ limits.maxBuildIdBytes

private theorem isGnu_eq {data : Bytes} {position : Nat} (h : position + 4 ≤ data.length) :
    isGnu data position = pure (slice data position 4 == [0x47, 0x4E, 0x55, 0]) := by
  have hslice : slice data position 4 = [data[position], data[position + 1], data[position + 2], data[position + 3]] := by
    rw [slice_succ position 3 (by omega), slice_succ position 2 (by omega), slice_succ position 1 (by omega),
      slice_succ position 0 (by omega), slice_zero]
    rfl
  unfold isGnu
  rw [hslice, byteAt_eq (by omega), byteAt_eq (by omega), byteAt_eq (by omega), byteAt_eq (by omega)]
  simp only [pure_bind_elf]
  split
  · rename_i h0
    exact congrArg pure (by simp [h0])
  · rename_i h0
    split
    · rename_i h1
      exact congrArg pure (by simp [h1])
    · rename_i h1
      split
      · rename_i h2
        exact congrArg pure (by simp [h2])
      · rename_i h2
        rw [not_not] at h0 h1 h2
        exact congrArg pure (by simp [h0, h1, h2])

/-- What the loop does with a note. -/
def takeOne (limits : ElfInspectionLimits) (note : Note) (buildId : Option Bytes) : Elf (Option Bytes) :=
  if buildId.isNone ∧ note.isBuildId ∧ limits.maxBuildIdBytes < note.description.length then
    fail .metadataTooLarge "GNU build ID exceeds the inspection limit"
  else pure (takeNote buildId note)

private theorem takeBuildId_eq (limits : ElfInspectionLimits) {data : Bytes} (note : Note) {position nameSize : Nat}
    (buildId : Option Bytes) (hname : note.name = slice data position nameSize)
    (hinside : position + nameSize ≤ data.length)
    (hdescription : note.description = slice data (position + aligned nameSize) note.description.length)
    (hlast : position + aligned nameSize + note.description.length ≤ data.length) :
    takeBuildId limits data position (aligned nameSize) nameSize note.description.length note.type buildId =
      takeOne limits note buildId := by
  have hlength : note.name.length = nameSize := by rw [hname, length_slice hinside]
  have hother : ¬(buildId.isNone = true ∧ note.isBuildId = true) →
      (pure buildId : Elf (Option Bytes)) = takeOne limits note buildId := by
    intro hnot
    unfold takeOne takeNote
    rw [if_neg fun h => hnot ⟨h.1, h.2.1⟩, if_neg hnot]
  unfold takeBuildId
  by_cases hfirst : buildId.isNone = true ∧ note.type = ntGnuBuildId ∧ nameSize = 4
  · obtain ⟨hnone, htype, hfour⟩ := hfirst
    subst hfour
    have hgnu : note.isBuildId = (slice data position 4 == [0x47, 0x4E, 0x55, 0]) := by
      unfold Note.isBuildId
      rw [htype, ← hname, beq_self_eq_true, Bool.true_and]
    rw [if_pos ⟨hnone, htype, rfl⟩, isGnu_eq hinside, pure_bind_elf, ← hgnu]
    by_cases hnote : note.isBuildId = true
    · rw [if_pos hnote]
      unfold takeOne takeNote
      by_cases hlong : limits.maxBuildIdBytes < note.description.length
      · rw [if_pos hlong, if_pos ⟨hnone, hnote, hlong⟩]
      · rw [if_neg hlong, if_neg fun h => hlong h.2.2, if_pos ⟨hnone, hnote⟩, bytesAt_eq hlast, pure_bind_elf,
          ← hdescription]
    · rw [if_neg hnote]
      exact hother fun h => hnote h.2
  · rw [if_neg hfirst]
    refine hother fun h => hfirst ⟨h.1, ?_⟩
    have hnote := h.2
    unfold Note.isBuildId at hnote
    rw [Bool.and_eq_true, beq_iff_eq, beq_iff_eq] at hnote
    refine ⟨hnote.1, ?_⟩
    rw [← hlength, hnote.2]
    rfl

private theorem checkedAdd_bind {a b c : Nat} (h : a ≤ kMaxUint64) :
    (checkedAdd a b).bind (checkedAdd · c) = if kMaxUint64 < a + b + c then none else some (a + b + c) := by
  unfold checkedAdd
  by_cases hab : kMaxUint64 - a < b
  · rw [if_pos hab, if_pos (by omega)]
    rfl
  · rw [if_neg hab, Option.bind_some]
    by_cases habc : kMaxUint64 - (a + b) < c
    · rw [if_pos habc, if_pos (by omega)]
    · rw [if_neg habc, if_neg (by omega)]

/-- A header that is not there. -/
theorem parseNote_short (limits : ElfInspectionLimits) (little : Bool) {data : Bytes} {position : Nat}
    (buildId : Option Bytes) (h : data.length - position < 12) :
    parseNote limits little data position buildId = fail .invalidFormat "ELF note header is truncated" := if_pos h

/-- A payload that is not there. -/
theorem parseNote_overlong (limits : ElfInspectionLimits) (little : Bool) {data : Bytes} {position : Nat}
    (buildId : Option Bytes) (hfits : data.length ≤ kMaxUint64) (hheader : ¬data.length - position < 12)
    (h : data.length < noteEnd data position little) :
    parseNote limits little data position buildId = fail .invalidFormat "ELF note payload is out of range" := by
  have hend : position + 12 + aligned (valueAt data position 4 little) +
      aligned (valueAt data (position + 4) 4 little) = noteEnd data position little := rfl
  unfold parseNote
  rw [if_neg hheader, readU32_eq little (by omega), readU32_eq little (by omega), readU32_eq little (by omega)]
  simp only [pure_bind_elf]
  rw [align4_eq (valueAt_lt ..), align4_eq (valueAt_lt ..)]
  simp only [pure_bind_elf]
  rw [checkedAdd_bind (by omega), hend]
  by_cases hwrap : kMaxUint64 < noteEnd data position little
  · rw [if_pos hwrap]
  · rw [if_neg hwrap]
    exact if_pos h

/-- A note that is there is taken, and the next one begins behind it. -/
theorem parseNote_eq (limits : ElfInspectionLimits) {little : Bool} {data rest : Bytes} {position : Nat} {note : Note}
    (buildId : Option Bytes) (hfits : data.length ≤ kMaxUint64) (h : data.drop position = note.encode little ++ rest) :
    parseNote limits little data position buildId =
      takeOne limits note buildId >>= fun buildId => pure (position + note.size, buildId) := by
  obtain ⟨hheader, hend, hinside, -⟩ := noteEnd_eq h
  obtain ⟨note', hdrop, htype, hname, hdescription⟩ := exists_note hinside
  obtain ⟨rfl, -⟩ := Note.encode_append_inj (h.symm.trans hdrop)
  have hn := le_aligned (valueAt data position 4 little)
  have hd := le_aligned (valueAt data (position + 4) 4 little)
  have hsum : position + 12 + aligned (valueAt data position 4 little) +
      aligned (valueAt data (position + 4) 4 little) = position + note.size := hend
  have hdlength : note.description.length = valueAt data (position + 4) 4 little := by
    rw [hdescription, length_slice (by omega)]
  unfold parseNote
  rw [if_neg (by omega), readU32_eq little (by omega), readU32_eq little (by omega), readU32_eq little (by omega)]
  simp only [pure_bind_elf]
  rw [align4_eq (valueAt_lt ..), align4_eq (valueAt_lt ..)]
  simp only [pure_bind_elf]
  rw [checkedAdd_bind (by omega), hsum, if_neg (by omega)]
  dsimp only
  rw [if_neg (by omega), ← hdlength, ← htype]
  rw [← hdlength] at hdescription hd hsum
  rw [takeBuildId_eq limits note buildId hname (by omega) hdescription (by omega)]

section

variable {quiet : Prop} {reader : Reader} {n : Nat} {limits : ElfInspectionLimits} {little : Bool} {data : Bytes}

theorem takeOne_safe (note : Note) (buildId : Option Bytes) :
    Safe quiet reader n (takeOne limits note buildId)
      (fun buildId' m => m = n ∧ buildId' = takeNote buildId note ∧ Allowed limits buildId note)
      (¬Allowed limits buildId note) := by
  unfold takeOne
  refine Safe.ite (fun hlong => Safe.fail fun _ hallowed => ?_) fun hshort => Safe.pure ⟨rfl, rfl, ?_⟩
  · have := hallowed (Option.isNone_iff_eq_none.mp hlong.1) hlong.2.1
    omega
  · intro hnone hnote
    rw [not_and, not_and] at hshort
    exact Nat.le_of_not_lt (hshort (Option.isNone_iff_eq_none.mpr hnone) hnote)

/-- One note is taken from the bytes, if they begin with one. -/
theorem parseNote_safe (hfits : data.length ≤ kMaxUint64) (position : Nat) (buildId : Option Bytes) :
    Safe quiet reader n (parseNote limits little data position buildId)
      (fun r m => m = n ∧ ∃ note : Note, data.drop position = note.encode little ++ data.drop r.1 ∧
        r.1 = position + note.size ∧ r.1 ≤ data.length ∧ r.2 = takeNote buildId note ∧ Allowed limits buildId note)
      (¬∃ (note : Note) (rest : Bytes), data.drop position = note.encode little ++ rest ∧
        Allowed limits buildId note) := by
  by_cases hheader : data.length - position < 12
  · rw [parseNote_short limits little buildId hheader]
    refine Safe.fail fun _ => ?_
    rintro ⟨note, rest, h, -⟩
    have := (noteEnd_eq h).1
    omega
  by_cases hlong : data.length < noteEnd data position little
  · rw [parseNote_overlong limits little buildId hfits hheader hlong]
    refine Safe.fail fun _ => ?_
    rintro ⟨note, rest, h, -⟩
    have := (noteEnd_eq h).2.2.1
    omega
  obtain ⟨note, hdrop, -⟩ := exists_note (Nat.le_of_not_lt hlong)
  have hend := (noteEnd_eq hdrop).2.1
  rw [parseNote_eq limits buildId hfits hdrop]
  refine Safe.bind (Safe.mono (takeOne_safe note buildId) (fun _ _ => id) ?_) ?_
  · rintro _ hnot ⟨note', rest, h, hallowed⟩
    rw [hdrop] at h
    rw [(Note.encode_append_inj h).1] at hnot
    exact hnot hallowed
  · rintro buildId' m ⟨rfl, hbuildId, hallowed⟩
    rw [hend] at hdrop hlong
    exact Safe.pure ⟨rfl, note, hdrop, rfl, Nat.le_of_not_lt hlong, hbuildId, hallowed⟩

end

/-! ### The notes of a segment -/

/-- What notes mean for the build ID: the first with a build ID decides, and one that is too long is refused. -/
def Takes (limits : ElfInspectionLimits) (buildId : Option Bytes) (notes : List Note) (result : Option Bytes) : Prop :=
  (buildId = none → ∀ note ∈ notes.find? Note.isBuildId, note.description.length ≤ limits.maxBuildIdBytes) ∧
    result = buildId.or ((notes.find? Note.isBuildId).map fun note => bytesToHex note.description)

theorem takes_nil {limits : ElfInspectionLimits} {buildId result : Option Bytes} :
    Takes limits buildId [] result ↔ result = buildId := by
  unfold Takes
  simp

theorem takes_cons {limits : ElfInspectionLimits} {buildId result : Option Bytes} {note : Note} {notes : List Note} :
    Takes limits buildId (note :: notes) result ↔
      Allowed limits buildId note ∧ Takes limits (takeNote buildId note) notes result := by
  unfold Takes Allowed takeNote
  cases buildId with
  | some id => simp
  | none =>
    by_cases hnote : note.isBuildId = true
    · simp [hnote]
    · simp [hnote]

theorem takes_append {limits : ElfInspectionLimits} {buildId result : Option Bytes} {notes notes' : List Note} :
    Takes limits buildId (notes ++ notes') result ↔
      ∃ between, Takes limits buildId notes between ∧ Takes limits between notes' result := by
  induction notes generalizing buildId with
  | nil => simp [takes_nil]
  | cons note notes ih =>
    rw [List.cons_append, takes_cons, ih]
    constructor
    · rintro ⟨hallowed, between, h, h'⟩
      exact ⟨between, takes_cons.mpr ⟨hallowed, h⟩, h'⟩
    · rintro ⟨between, h, h'⟩
      have ⟨hallowed, h⟩ := takes_cons.mp h
      exact ⟨hallowed, between, h, h'⟩

/-- The bytes of notes, one after another. -/
def encodeNotes (little : Bool) (notes : List Note) : Bytes := notes.flatMap (Note.encode little)

theorem encodeNotes_cons (little : Bool) (note : Note) (notes : List Note) :
    encodeNotes little (note :: notes) = note.encode little ++ encodeNotes little notes := rfl

theorem encodeNotes_cons_ne_nil (little : Bool) (note : Note) (notes : List Note) :
    encodeNotes little (note :: notes) ≠ [] := by
  intro h
  have hlength := congrArg List.length h
  rw [encodeNotes_cons, List.length_append, Note.length_encode, List.length_nil] at hlength
  unfold Note.size at hlength
  omega

theorem encodeNotes_inj {little : Bool} {notes notes' : List Note}
    (h : encodeNotes little notes = encodeNotes little notes') : notes = notes' := by
  induction notes generalizing notes' with
  | nil =>
    cases notes' with
    | nil => rfl
    | cons note' notes' => exact absurd h.symm (encodeNotes_cons_ne_nil _ _ _)
  | cons note notes ih =>
    cases notes' with
    | nil => exact absurd h (encodeNotes_cons_ne_nil _ _ _)
    | cons note' notes' =>
      have ⟨hnote, hrest⟩ := Note.encode_append_inj h
      rw [hnote, ih hrest]

section

variable {quiet : Prop} {reader : Reader} {n : Nat} {limits : ElfInspectionLimits} {little : Bool} {data : Bytes}

/-- By induction on the rounds: each takes a note, so that the next one begins later. -/
theorem parseSegmentNotes_safe (hfits : data.length ≤ kMaxUint64) (fuel position : Nat) (buildId : Option Bytes)
    (hposition : position ≤ data.length) (hfuel : data.length < fuel + position) :
    Safe quiet reader n (parseSegmentNotes limits little data fuel position buildId)
      (fun result m => m = n ∧ ∃ notes, data.drop position = encodeNotes little notes ∧ Takes limits buildId notes result)
      (¬∃ notes result, data.drop position = encodeNotes little notes ∧ Takes limits buildId notes result) := by
  induction fuel generalizing position buildId with
  | zero => omega
  | succ fuel ih =>
    unfold parseSegmentNotes
    by_cases hmore : position < data.length
    · rw [if_pos hmore]
      -- what is left begins with a note whenever it consists of notes
      have hfirst : ∀ notes result, data.drop position = encodeNotes little notes → Takes limits buildId notes result →
          ∃ note notes', data.drop position = note.encode little ++ encodeNotes little notes' ∧
            Allowed limits buildId note ∧ Takes limits (takeNote buildId note) notes' result := by
        intro notes result h htakes
        cases notes with
        | nil =>
          have hempty : data.drop position = [] := h
          rw [List.drop_eq_nil_iff] at hempty
          omega
        | cons note notes =>
          have ⟨hallowed, hrest⟩ := takes_cons.mp htakes
          exact ⟨note, notes, h, hallowed, hrest⟩
      refine Safe.bind (Safe.mono (parseNote_safe hfits position buildId) (fun _ _ => id) ?_) ?_
      · rintro _ hnot ⟨notes, result, h, htakes⟩
        obtain ⟨note, notes', hnote, hallowed, -⟩ := hfirst notes result h htakes
        exact hnot ⟨note, _, hnote, hallowed⟩
      · rintro ⟨next, buildId'⟩ m ⟨hm, note, hnote, hnext, hlast, hbuildId, hallowed⟩
        dsimp only at hnote hnext hlast hbuildId ⊢
        subst hm hbuildId
        have hsize : 12 ≤ note.size := by
          unfold Note.size
          omega
        refine Safe.mono (ih next (takeNote buildId note) hlast (by omega)) ?_ ?_
        · rintro result m ⟨hm, notes, h, htakes⟩
          refine ⟨hm, note :: notes, ?_, takes_cons.mpr ⟨hallowed, htakes⟩⟩
          rw [hnote, h]
          rfl
        · rintro _ hnot ⟨notes, result, h, htakes⟩
          obtain ⟨note', notes', hnote', -, htakes'⟩ := hfirst notes result h htakes
          rw [hnote] at hnote'
          obtain ⟨rfl, hrest⟩ := Note.encode_append_inj hnote'
          exact hnot ⟨notes', result, hrest, htakes'⟩
    · rw [if_neg hmore]
      refine Safe.pure ⟨rfl, [], ?_, takes_nil.mpr rfl⟩
      exact List.drop_eq_nil_of_le (Nat.le_of_not_lt hmore)

end

/-! ### The segments -/

/-- The segments that `parse_notes` does not pass over. -/
def noteSegments (headers : List ProgramHeader) : List ProgramHeader :=
  headers.filter fun header => header.type == ptNote && 0 < header.fileSize

/-- The bytes of a segment lie in the file and are notes. -/
def Holds (reader : Reader) (little : Bool) (segment : ProgramHeader) (notes : List Note) : Prop :=
  segment.offset + segment.fileSize ≤ reader.fileLimit ∧
    segment.offset + segment.fileSize ≤ reader.file.contents.length ∧
    slice reader.file.contents segment.offset segment.fileSize = encodeNotes little notes

def totalSize (segments : List ProgramHeader) : Nat := (segments.map ProgramHeader.fileSize).sum

/-- What `parse_notes` accepts after `noteBytes` bytes of notes and `bytesRead` bytes in all. -/
structure Accepted (reader : Reader) (limits : ElfInspectionLimits) (little : Bool) (segments : List ProgramHeader)
    (noteBytes bytesRead : Nat) (buildId result : Option Bytes) (notes : List (List Note)) : Prop where
  holds : List.Forall₂ (Holds reader little) segments notes
  noteBytes_le : noteBytes + totalSize segments ≤ limits.maxNoteBytes
  bytesRead_le : bytesRead + totalSize segments ≤ reader.metadataLimit
  takes : Takes limits buildId notes.flatten result

theorem noteSegments_cons_of_skipped {header : ProgramHeader} {headers : List ProgramHeader}
    (h : header.type ≠ ptNote ∨ header.fileSize = 0) : noteSegments (header :: headers) = noteSegments headers := by
  unfold noteSegments
  rw [List.filter_cons_of_neg]
  rcases h with h | h <;> simp [h]

theorem noteSegments_cons_of_note {header : ProgramHeader} {headers : List ProgramHeader}
    (h : ¬(header.type ≠ ptNote ∨ header.fileSize = 0)) :
    noteSegments (header :: headers) = header :: noteSegments headers := by
  unfold noteSegments
  rw [List.filter_cons_of_pos]
  rw [not_or, not_not] at h
  simp [h.1, Nat.pos_of_ne_zero h.2]

theorem totalSize_cons (segment : ProgramHeader) (segments : List ProgramHeader) :
    totalSize (segment :: segments) = segment.fileSize + totalSize segments := rfl

theorem Takes.unique {limits : ElfInspectionLimits} {buildId result result' : Option Bytes} {notes : List Note}
    (h : Takes limits buildId notes result) (h' : Takes limits buildId notes result') : result = result' := by
  rw [h.2, h'.2]

section

variable {quiet : Prop} {reader : Reader} {limits : ElfInspectionLimits} {little : Bool}

theorem parseNotes_safe (hmetadata : reader.metadataLimit ≤ kMaxUint64) (hnotes : limits.maxNoteBytes ≤ kMaxUint64)
    (hfile : quiet → reader.fileLimit ≤ kMaxUint64) (headers : List ProgramHeader) (noteBytes n : Nat) (buildId : Option Bytes)
    (hnoteBytes : noteBytes ≤ limits.maxNoteBytes) (hn : n ≤ reader.metadataLimit) :
    Safe quiet reader n (parseNotes reader limits little headers noteBytes buildId)
      (fun result _ => ∃ notes,
        Accepted reader limits little (noteSegments headers) noteBytes n buildId result notes)
      (¬∃ result notes, Accepted reader limits little (noteSegments headers) noteBytes n buildId result notes) := by
  induction headers generalizing noteBytes n buildId with
  | nil => exact Safe.pure ⟨[], .nil, hnoteBytes, hn, takes_nil.mpr rfl⟩
  | cons header headers ih =>
    unfold parseNotes
    by_cases hskip : header.type ≠ ptNote ∨ header.fileSize = 0
    · rw [if_pos hskip, noteSegments_cons_of_skipped hskip]
      exact ih noteBytes n buildId hnoteBytes hn
    · rw [if_neg hskip, noteSegments_cons_of_note hskip]
      by_cases hlarge : limits.maxNoteBytes - min noteBytes limits.maxNoteBytes < header.fileSize
      · rw [if_pos hlarge]
        refine Safe.fail fun _ => ?_
        rintro ⟨result, notes, h⟩
        have hle := h.noteBytes_le
        rw [totalSize_cons] at hle
        omega
      · rw [if_neg hlarge, fitting_eq (by omega), pure_bind_elf]
        -- what the whole acceptance says of this segment
        have hfirst : ∀ result notes, Accepted reader limits little (header :: noteSegments headers) noteBytes n buildId
            result notes → n + header.fileSize ≤ reader.metadataLimit ∧ ∃ notes₀ rest between, Holds reader little header notes₀ ∧
              Takes limits buildId notes₀ between ∧ Accepted reader limits little (noteSegments headers)
                (noteBytes + header.fileSize) (n + header.fileSize) between result rest := by
          rintro result notes ⟨hholds, hnoteBytes, hbytesRead, htakes⟩
          rw [totalSize_cons] at hnoteBytes hbytesRead
          cases hholds with
          | cons hsegment hrest =>
            rw [List.flatten_cons] at htakes
            have ⟨between, h₀, h⟩ := takes_append.mp htakes
            exact ⟨by omega, _, _, between, hsegment, h₀, hrest, by omega, by omega, h⟩
        refine Safe.bind (Safe.mono (read_safe hmetadata header.offset header.fileSize) (fun _ _ => id) ?_) ?_
        · rintro hq hnot ⟨result, notes, h⟩
          obtain ⟨hbudget, notes₀, rest, between, ⟨hlimit, hcontents, -⟩, -⟩ := hfirst result notes h
          exact hnot ⟨hlimit, Nat.le_trans hlimit (hfile hq), hbudget, hcontents⟩
        · rintro data m ⟨rfl, hbudget, hlimit, hdata, hlength⟩
          have hcontents : header.offset + header.fileSize ≤ reader.file.contents.length := by
            have := congrArg List.length hdata
            unfold slice at this
            rw [List.length_take, List.length_drop] at this
            rw [not_or] at hskip
            omega
          refine Safe.bind (Safe.mono (parseSegmentNotes_safe (by omega) (data.length + 1) 0 buildId (Nat.zero_le _)
            (by omega)) (fun _ _ => id) ?_) ?_
          · rintro _ hnot ⟨result, notes, h⟩
            obtain ⟨-, notes₀, rest, between, ⟨-, -, hsegment⟩, h₀, -⟩ := hfirst result notes h
            exact hnot ⟨notes₀, between, by rw [List.drop_zero, hdata, hsegment], h₀⟩
          · rintro buildId' m ⟨rfl, notes₀, hsegment, h₀⟩
            rw [List.drop_zero] at hsegment
            refine Safe.mono (ih (noteBytes + header.fileSize) (n + header.fileSize) buildId' (by omega) hbudget) ?_ ?_
            · rintro result _ ⟨notes, h⟩
              refine ⟨notes₀ :: notes, .cons ⟨hlimit, hcontents, by rw [← hdata, hsegment]⟩ h.holds, ?_, ?_, ?_⟩
              · have := h.noteBytes_le
                rw [totalSize_cons]
                omega
              · have := h.bytesRead_le
                rw [totalSize_cons]
                omega
              · rw [List.flatten_cons]
                exact takes_append.mpr ⟨buildId', h₀, h.takes⟩
            · rintro _ hnot ⟨result, notes, h⟩
              obtain ⟨-, notes₁, rest, between, ⟨-, -, hsegment'⟩, h₁, hrest⟩ := hfirst result notes h
              rw [← hdata, hsegment] at hsegment'
              rw [← encodeNotes_inj hsegment'] at h₁
              rw [h₁.unique h₀] at hrest
              exact hnot ⟨result, rest, hrest⟩

end

/-- `parse_notes` ends; what it accepts are segments whose bytes are notes, within both budgets, and the first note with
a build ID gives the result; a quiet run accepts whatever is so. -/
theorem parseNotes_correct (reader : Reader) (limits : ElfInspectionLimits) (little : Bool)
    (headers : List ProgramHeader) (s : Inspecting) (hs : Reading (Quiet s) reader s.bytesRead s)
    (hmetadata : reader.metadataLimit ≤ kMaxUint64) (hnotes : limits.maxNoteBytes ≤ kMaxUint64)
    (hfile : reader.fileLimit ≤ kMaxUint64) :
    ((∃ buildId, (parseNotes reader limits little headers 0 none s).1 = .returned buildId) ∨
      ∃ error, (parseNotes reader limits little headers 0 none s).1 = .raised (.error error)) ∧
    (∀ buildId, (parseNotes reader limits little headers 0 none s).1 = .returned buildId →
      ∃ notes, Accepted reader limits little (noteSegments headers) 0 s.bytesRead none buildId notes) ∧
    (Quiet s → ((∃ buildId, (parseNotes reader limits little headers 0 none s).1 = .returned buildId) ↔
      ∃ buildId notes, Accepted reader limits little (noteSegments headers) 0 s.bytesRead none buildId notes)) := by
  have hsafe : Safe (Quiet s) reader s.bytesRead (parseNotes reader limits little headers 0 none) _ _ :=
    parseNotes_safe hmetadata hnotes (fun _ => hfile) headers 0 s.bytesRead none (Nat.zero_le _) hs.bytesRead_le
  have h := hsafe s hs
  generalize parseNotes reader limits little headers 0 none s = run at h
  obtain ⟨(buildId | e | _), t⟩ := run
  · obtain ⟨_, -, haccepted⟩ := h
    refine ⟨.inl ⟨buildId, rfl⟩, ?_, fun _ => ⟨fun _ => ⟨buildId, haccepted⟩, fun _ => ⟨buildId, rfl⟩⟩⟩
    intro result hresult
    cases hresult
    exact haccepted
  · obtain ⟨-, ⟨error, rfl⟩, hrefused⟩ := h
    refine ⟨.inr ⟨error, rfl⟩, fun _ hresult => (by cases hresult), fun hq => ⟨?_, fun haccepted => ?_⟩⟩
    · rintro ⟨_, hresult⟩
      cases hresult
    · exact absurd haccepted (hrefused hq)
  · exact h.elim

/-- One note with a build ID of two bytes. -/
def buildIdFile : ReadOnlyFile where
  contents := [4, 0, 0, 0, 2, 0, 0, 0, 3, 0, 0, 0, 0x47, 0x4E, 0x55, 0, 0xAB, 0xCD, 0, 0]
  observedSize := 20
  maxReadBytes := 64
  sizeAfter := some 20

def buildIdRun : Inspecting where
  stopReason := fun _ => .none
  turns := [.returned 6, .interrupted]
  before := none
  after := none

private theorem buildIdRun_quiet : Quiet buildIdRun where
  stopReason _ := rfl
  turns turn hturn := by
    unfold buildIdRun at hturn
    rcases List.mem_pair.mp hturn with rfl | rfl <;> simp

theorem parseNotes_correct_buildId :
    (parseNotes ⟨buildIdFile, 64⟩ {} true [⟨ptNote, 4, 0, 0, 20, 20⟩] 0 none buildIdRun).1 =
        .returned (some (bytes "ABCD")) ∧
      ((∃ buildId, (parseNotes ⟨buildIdFile, 64⟩ {} true [⟨ptNote, 4, 0, 0, 20, 20⟩] 0 none buildIdRun).1 =
          .returned buildId) ↔
        ∃ buildId notes, Accepted ⟨buildIdFile, 64⟩ {} true (noteSegments [⟨ptNote, 4, 0, 0, 20, 20⟩]) 0 0 none buildId
          notes) := by
  refine ⟨by decide +kernel, ?_⟩
  refine (parseNotes_correct ⟨buildIdFile, 64⟩ {} true [⟨ptNote, 4, 0, 0, 20, 20⟩] buildIdRun ?_ (by decide) (by decide)
    (by decide)).2.2 buildIdRun_quiet
  exact ⟨⟨by simp [buildIdRun], by decide⟩, rfl, rfl, fun _ => buildIdRun_quiet⟩

end ElfAnalyzer

end NativeMcp
