import NativeMcp.Tools.ElfHeaders

/-!
# The dynamic table of an ELF file

The entries before the first `DT_NULL`, the string table that they name, and the libraries that they need.
-/

namespace NativeMcp

namespace ElfAnalyzer

open Program ByteOrder Layout

/-! ### The entries -/

/-- The tag and the value of the entry that begins at an offset. -/
def entryAt (data : Bytes) (offset : Nat) (is64 little : Bool) : Nat × Nat :=
  (valueAt data offset (wordSize is64) little, valueAt data (offset + wordSize is64) (wordSize is64) little)

/-- The table of `count` entries that begins at an offset. -/
def entriesAt (data : Bytes) (offset count : Nat) (is64 little : Bool) : List (Nat × Nat) :=
  (List.range count).map fun index => entryAt data (offset + index * dynamicEntrySize is64) is64 little

/-- The entries before the first `DT_NULL`. -/
def liveEntries (entries : List (Nat × Nat)) : List (Nat × Nat) := entries.takeWhile fun entry => entry.1 ≠ dtNull

def lastValue (tag : Nat) (entries : List (Nat × Nat)) : Option Nat :=
  ((entries.filter (·.1 == tag)).getLast?).map Prod.snd

def neededValues (entries : List (Nat × Nat)) : List Nat := (entries.filter (·.1 == dtNeeded)).map Prod.snd

/-- The scan of the table, as a summary of the entries scanned. -/
structure TableOf (entries : List (Nat × Nat)) (scan : DynamicScan) : Prop where
  address : scan.stringTableAddress = lastValue dtStrtab entries
  size : scan.stringTableSize = lastValue dtStrsz entries
  needed : scan.neededOffsets = neededValues entries
  bindNow : scan.bindNow = entries.any fun entry => bindsNow entry.1 entry.2

theorem TableOf.start : TableOf [] {} := ⟨rfl, rfl, rfl, rfl⟩

theorem lastValue_concat (wanted tag value : Nat) (entries : List (Nat × Nat)) :
    lastValue wanted (entries ++ [(tag, value)]) = if tag = wanted then some value else lastValue wanted entries := by
  unfold lastValue
  rw [List.filter_append]
  by_cases h : tag = wanted
  · rw [if_pos h, List.filter_cons_of_pos (by simpa using h), List.filter_nil, List.getLast?_concat, Option.map_some]
  · rw [if_neg h, List.filter_cons_of_neg (by simpa using h), List.filter_nil, List.append_nil]

theorem neededValues_concat (tag value : Nat) (entries : List (Nat × Nat)) :
    neededValues (entries ++ [(tag, value)]) =
      if tag = dtNeeded then neededValues entries ++ [value] else neededValues entries := by
  unfold neededValues
  rw [List.filter_append]
  by_cases h : tag = dtNeeded
  · rw [if_pos h, List.filter_cons_of_pos (by simpa using h), List.filter_nil, List.map_append, List.map_singleton]
  · rw [if_neg h, List.filter_cons_of_neg (by simpa using h), List.filter_nil, List.append_nil]

/-- The tags that the code compares one after another are different ones. -/
theorem TableOf.add {entries : List (Nat × Nat)} {scan : DynamicScan} (h : TableOf entries scan) (tag value : Nat) :
    TableOf (entries ++ [(tag, value)]) (scan.add tag value) := by
  have hbinds : tag = dtStrtab ∨ tag = dtStrsz ∨ tag = dtNeeded → bindsNow tag value = false := by
    rintro (rfl | rfl | rfl) <;> rfl
  have hany : ((entries ++ [(tag, value)]).any fun entry => bindsNow entry.1 entry.2) =
      (scan.bindNow || bindsNow tag value) := by
    rw [List.any_append, List.any_cons, List.any_nil, Bool.or_false, h.bindNow]
  unfold DynamicScan.add
  by_cases hstrtab : tag = dtStrtab
  · subst hstrtab
    rw [if_pos rfl]
    refine ⟨?_, ?_, ?_, ?_⟩
    · rw [lastValue_concat, if_pos rfl]
    · rw [lastValue_concat, if_neg (by decide)]
      exact h.size
    · rw [neededValues_concat, if_neg (by decide)]
      exact h.needed
    · rw [hany, hbinds (.inl rfl), Bool.or_false]
  · rw [if_neg hstrtab]
    by_cases hstrsz : tag = dtStrsz
    · subst hstrsz
      rw [if_pos rfl]
      refine ⟨?_, ?_, ?_, ?_⟩
      · rw [lastValue_concat, if_neg hstrtab]
        exact h.address
      · rw [lastValue_concat, if_pos rfl]
      · rw [neededValues_concat, if_neg (by decide)]
        exact h.needed
      · rw [hany, hbinds (.inr (.inl rfl)), Bool.or_false]
    · rw [if_neg hstrsz]
      by_cases hneeded : tag = dtNeeded
      · subst hneeded
        rw [if_pos rfl]
        refine ⟨?_, ?_, ?_, ?_⟩
        · rw [lastValue_concat, if_neg hstrtab]
          exact h.address
        · rw [lastValue_concat, if_neg hstrsz]
          exact h.size
        · rw [neededValues_concat, if_pos rfl]
          exact congrArg (· ++ [value]) h.needed
        · rw [hany, hbinds (.inr (.inr rfl)), Bool.or_false]
      · rw [if_neg hneeded]
        have haddress : lastValue dtStrtab (entries ++ [(tag, value)]) = lastValue dtStrtab entries := by
          rw [lastValue_concat, if_neg hstrtab]
        have hsize : lastValue dtStrsz (entries ++ [(tag, value)]) = lastValue dtStrsz entries := by
          rw [lastValue_concat, if_neg hstrsz]
        have hoffsets : neededValues (entries ++ [(tag, value)]) = neededValues entries := by
          rw [neededValues_concat, if_neg hneeded]
        by_cases hbind : bindsNow tag value = true
        · rw [if_pos hbind]
          exact ⟨h.address.trans haddress.symm, h.size.trans hsize.symm, h.needed.trans hoffsets.symm, by
            rw [hany, hbind, Bool.or_true]⟩
        · rw [if_neg hbind]
          rw [Bool.not_eq_true] at hbind
          exact ⟨h.address.trans haddress.symm, h.size.trans hsize.symm, h.needed.trans hoffsets.symm, by
            rw [hany, hbind, Bool.or_false]⟩

theorem dynamicEntrySize_eq (is64 : Bool) : dynamicEntrySize is64 = 2 * wordSize is64 := by cases is64 <;> rfl

theorem entryAt_slice {data : Bytes} {offset size start : Nat} (is64 little : Bool)
    (h : start + dynamicEntrySize is64 ≤ size) :
    entryAt (slice data offset size) start is64 little = entryAt data (offset + start) is64 little := by
  rw [dynamicEntrySize_eq] at h
  unfold entryAt
  rw [valueAt_slice little (by omega), valueAt_slice little (by omega), Nat.add_assoc]

section

variable {quiet : Prop} {reader : Reader} {n : Nat} {limits : ElfInspectionLimits}

/-- The loop over the dynamic table, over the entries that its bytes encode. -/
def scanEntries : Nat → List (Nat × Nat) → DynamicScan → Elf DynamicScan
  | _, [], scan => pure scan
  | index, (tag, value) :: rest, scan => do
    checkEntry index
    if tag = dtNull then pure { scan with terminated := true } else scanEntries (index + 1) rest (scan.add tag value)

theorem scanDynamic_eq (is64 little : Bool) {data : Bytes} (count index : Nat) (scan : DynamicScan)
    (hcount : (index + count) * dynamicEntrySize is64 ≤ data.length) :
    scanDynamic is64 little data index count scan = scanEntries index ((List.range' index count).map fun index =>
      entryAt data (index * dynamicEntrySize is64) is64 little) scan := by
  induction count generalizing index scan with
  | zero => rfl
  | succ count ih =>
    have hsize := dynamicEntrySize_eq is64
    have hinside : (index + 1) * dynamicEntrySize is64 ≤ (index + (count + 1)) * dynamicEntrySize is64 :=
      Nat.mul_le_mul_right _ (by omega)
    rw [Nat.add_mul, Nat.one_mul] at hinside
    have hsecond : (if is64 then 8 else 4) = wordSize is64 := rfl
    have hrest := fun scan => ih (index + 1) scan (by
      rw [Nat.add_assoc, Nat.add_comm 1 count]
      exact hcount)
    unfold scanDynamic
    rw [hsecond, readWord_eq is64 little (by omega), readWord_eq is64 little (by omega), List.range'_succ, List.map_cons]
    simp only [pure_bind_elf, hrest]
    rfl

/-- The scan of a table that was read from the file. -/
theorem scanDynamic_slice (is64 little : Bool) {data contents : Bytes} {offset size : Nat}
    (hdata : data = slice contents offset size) (hlength : data.length = size) (scan : DynamicScan) :
    scanDynamic is64 little data 0 (data.length / dynamicEntrySize is64) scan =
      scanEntries 0 (entriesAt contents offset (size / dynamicEntrySize is64) is64 little) scan := by
  have hcount : (0 + data.length / dynamicEntrySize is64) * dynamicEntrySize is64 ≤ data.length := by
    rw [Nat.zero_add]
    exact Nat.div_mul_le_self ..
  rw [scanDynamic_eq _ _ _ _ _ hcount, hlength, ← List.range_eq_range']
  unfold entriesAt
  congr 1
  apply List.map_congr_left
  intro index hindex
  have hinside : (index + 1) * dynamicEntrySize is64 ≤ size :=
    Nat.le_trans (Nat.mul_le_mul_right _ (List.mem_range.mp hindex)) (Nat.div_mul_le_self ..)
  rw [Nat.add_mul, Nat.one_mul] at hinside
  rw [hdata, entryAt_slice _ _ hinside]

/-- The entries are scanned up to the first `DT_NULL`. -/
theorem scanEntries_ends {P : Inspecting → Prop} {E : Fault → Inspecting → Prop} {S : Inspecting → Prop}
    (hcheck : Ends P checkOperation (fun _ => P) E S) (rest : List (Nat × Nat)) (index : Nat)
    {entries : List (Nat × Nat)} {scan : DynamicScan} (hscan : TableOf entries scan) :
    Ends P (scanEntries index rest scan) (fun result s => P s ∧ TableOf (entries ++ liveEntries rest) result) E S := by
  induction rest generalizing index entries scan with
  | nil =>
    refine Ends.pure fun s hs => ⟨hs, ?_⟩
    show TableOf (entries ++ []) scan
    rwa [List.append_nil]
  | cons entry rest ih =>
    obtain ⟨tag, value⟩ := entry
    have hentry : Ends P (checkEntry index) (fun _ => P) E S := by
      unfold checkEntry
      split
      · exact hcheck
      · exact Ends.pure fun _ => id
    unfold scanEntries
    refine Ends.bind hentry fun _ => ?_
    by_cases hnull : tag = dtNull
    · have hlive : liveEntries ((tag, value) :: rest) = [] :=
        List.takeWhile_cons_of_neg fun hlive => of_decide_eq_true hlive hnull
      rw [if_pos hnull, hlive, List.append_nil]
      exact Ends.pure fun s hs => ⟨hs, hscan.address, hscan.size, hscan.needed, hscan.bindNow⟩
    · have hlive : liveEntries ((tag, value) :: rest) = (tag, value) :: liveEntries rest :=
        List.takeWhile_cons_of_pos (decide_eq_true hnull)
      have hnext := ih (index + 1) (hscan.add tag value)
      rw [List.append_assoc] at hnext
      rw [if_neg hnull, hlive]
      exact hnext

private theorem scanEntries_safe (rest : List (Nat × Nat)) (index : Nat) :
    Safe quiet reader n (scanEntries index rest {}) (fun result m => m = n ∧ TableOf (liveEntries rest) result) True := by
  have hcheck : Ends (Reading quiet reader n) checkOperation (fun _ => Reading quiet reader n)
      (fun e s => Bounded reader s ∧ (∃ error, e = .error error) ∧ (quiet → True)) fun _ => False := by
    refine Ends.mono checkOperation_safe (fun _ => id) ?_ (fun _ _ => id) fun _ => id
    rintro _ s ⟨m, hs, rfl⟩
    exact hs
  exact (scanEntries_ends hcheck rest index TableOf.start).mono (fun _ => id) (fun _ s hs => ⟨n, hs.1, rfl, hs.2⟩)
    (fun _ _ => id) fun _ => id

/-- The entries of the segment for dynamic linking that count. -/
def dynamicEntries (contents : Bytes) (is64 little : Bool) : Option ProgramHeader → List (Nat × Nat)
  | none => []
  | some segment =>
    liveEntries (entriesAt contents segment.offset (segment.fileSize / dynamicEntrySize is64) is64 little)

theorem readDynamic_safe (hmetadata : reader.metadataLimit ≤ kMaxUint64) (header : Header)
    (dynamicSegment : Option ProgramHeader) (hbudget : n ≤ reader.metadataLimit) :
    Safe quiet reader n (readDynamic reader limits header dynamicSegment)
      (fun table m => m ≤ reader.metadataLimit ∧
        TableOf (dynamicEntries reader.file.contents header.is64 header.little dynamicSegment) table ∧
        ∀ segment ∈ dynamicSegment, Fits reader.file.contents.length (segment.offset, segment.fileSize)) True := by
  cases dynamicSegment with
  | none => exact Safe.pure ⟨hbudget, TableOf.start, fun segment h => by cases h⟩
  | some segment =>
    unfold readDynamic
    have hsegment : Fits reader.file.contents.length (segment.offset, segment.fileSize) →
        ∀ segment' ∈ some segment, Fits reader.file.contents.length (segment'.offset, segment'.fileSize) := by
      intro hfits segment' h
      rwa [← Option.some.inj h]
    refine Safe.ite (fun hempty => Safe.pure ⟨hbudget, ?_, hsegment (.inl hempty)⟩) fun hsome => ?_
    · have hnone : dynamicEntries reader.file.contents header.is64 header.little (some segment) = [] := by
        show liveEntries (entriesAt _ _ (segment.fileSize / dynamicEntrySize header.is64) _ _) = []
        rw [hempty, Nat.zero_div]
        rfl
      rw [hnone]
      exact TableOf.start
    refine Safe.ite (fun _ => Safe.fail fun _ => trivial) fun _ => ?_
    refine Safe.bind (Safe.mono (read_safe hmetadata _ segment.fileSize) (fun _ _ => id) fun _ _ => trivial) ?_
    rintro data m ⟨-, hm, -, hdata, hlength⟩
    rw [scanDynamic_slice header.is64 header.little hdata hlength]
    refine Safe.bind (scanEntries_safe _ 0) ?_
    rintro table m' ⟨rfl, htable⟩
    have hinside : Fits reader.file.contents.length (segment.offset, segment.fileSize) := by
      rw [hdata, length_slice_eq_min] at hlength
      right
      dsimp only
      omega
    exact Safe.ite (fun _ => Safe.pure ⟨hm, htable, hsegment hinside⟩) fun _ => Safe.fail fun _ => trivial

/-! ### The string table -/

/-- The segment holds a whole interval of the address space. -/
def holdsInterval (address size : Nat) (program : ProgramHeader) : Bool :=
  program.type == ptLoad && program.virtualAddress ≤ address &&
    address + size ≤ program.virtualAddress + program.fileSize

/-- The first load segment that holds the interval decides. -/
theorem virtualToFile_eq (address size : Nat) (programs : List ProgramHeader)
    (hfits : ∀ program ∈ programs, holdsInterval address size program = true →
      program.offset + program.fileSize ≤ kMaxUint64) :
    virtualToFile programs address size = (programs.find? (holdsInterval address size)).map fun program =>
      program.offset + (address - program.virtualAddress) := by
  induction programs with
  | nil => rfl
  | cons program programs ih =>
    have hrest := ih fun p hp => hfits p (List.mem_cons_of_mem _ hp)
    unfold virtualToFile
    by_cases hskip : program.type ≠ ptLoad ∨ address < program.virtualAddress
    · have hnot : ¬holdsInterval address size program = true := by
        unfold holdsInterval
        simp only [Bool.and_eq_true, beq_iff_eq, decide_eq_true_eq]
        rintro ⟨⟨htype, hle⟩, -⟩
        rcases hskip with h | h
        · exact h htype
        · omega
      rw [if_pos hskip, hrest, List.find?_cons_of_neg hnot]
    · rw [if_neg hskip]
      rw [not_or, not_not] at hskip
      by_cases hout : program.fileSize < address - program.virtualAddress ∨
          program.fileSize - (address - program.virtualAddress) < size
      · have hnot : ¬holdsInterval address size program = true := by
          unfold holdsInterval
          simp only [Bool.and_eq_true, beq_iff_eq, decide_eq_true_eq]
          rintro ⟨-, hle⟩
          omega
        rw [if_pos hout, hrest, List.find?_cons_of_neg hnot]
      · have hholds : holdsInterval address size program = true := by
          unfold holdsInterval
          simp only [Bool.and_eq_true, beq_iff_eq, decide_eq_true_eq]
          exact ⟨⟨hskip.1, by omega⟩, by omega⟩
        have hle := hfits program List.mem_cons_self hholds
        have hadd : checkedAdd program.offset (address - program.virtualAddress) =
            some (program.offset + (address - program.virtualAddress)) := by
          unfold checkedAdd
          rw [if_neg (by omega)]
        rw [if_neg hout, hadd, List.find?_cons_of_pos hholds]
        rfl

/-! ### The names -/

/-- The bytes from an offset of the string table up to the first NUL. -/
def nameAt (strings : Bytes) (offset : Nat) : Bytes := (strings.drop offset).takeWhile (· ≠ 0)

/-- A name that the inspection takes. -/
structure NameFits (limits : ElfInspectionLimits) (strings : Bytes) (offset : Nat) : Prop where
  inside : offset < strings.length
  terminated : strings[offset + (nameAt strings offset).length]? = some 0
  length_le : (nameAt strings offset).length ≤ limits.maxLibraryNameBytes

private theorem nameEnd_safe (limit : Nat) {strings : Bytes} {start : Nat} (fuel position : Nat)
    (hfuel : strings.length < fuel + position) (hposition : position ≤ strings.length) :
    Safe quiet reader n (nameEnd limit strings start fuel position)
      (fun last m => m = n ∧ position ≤ last ∧ ∀ j, position ≤ j → j < last → ∀ b ∈ strings[j]?, b ≠ 0) True := by
  induction fuel generalizing position with
  | zero => omega
  | succ fuel ih =>
    unfold nameEnd
    refine Safe.ite (fun hmore => ?_) fun _ => Safe.pure ⟨rfl, Nat.le_refl _, fun j h h' => by omega⟩
    rw [byteAt_eq hmore, pure_bind_elf]
    refine Safe.ite (fun hgo => ?_) fun _ => Safe.pure ⟨rfl, Nat.le_refl _, fun j h h' => by omega⟩
    refine Safe.mono (ih (position + 1) (by omega) hmore) ?_ fun _ => id
    rintro last m ⟨hm, hle, hbefore⟩
    refine ⟨hm, by omega, ?_⟩
    intro j hj hlast b hb
    by_cases heq : j = position
    · rw [heq, List.getElem?_eq_getElem hmore] at hb
      rw [← Option.some.inj hb]
      exact hgo.1
    · exact hbefore j (by omega) hlast b hb

private theorem readName_safe {strings : Bytes} {needed : Nat} :
    Safe quiet reader n (readName limits strings needed)
      (fun name m => m = n ∧ name = escapeBytes (nameAt strings needed) ∧ NameFits limits strings needed) True := by
  unfold readName
  refine Safe.ite (fun _ => Safe.fail fun _ => trivial) fun hinside => ?_
  refine Safe.bind (nameEnd_safe limits.maxLibraryNameBytes _ needed (by omega) (by omega)) ?_
  rintro last m ⟨rfl, hle, hbefore⟩
  refine Safe.ite (fun _ => Safe.fail fun _ => trivial) fun hlast => ?_
  rw [byteAt_eq (by omega), pure_bind_elf]
  refine Safe.ite (fun _ => Safe.fail fun _ => trivial) fun hterminated => ?_
  rw [not_or, not_not] at hterminated
  have hname : nameAt strings needed = (strings.drop needed).take (last - needed) := by
    apply takeWhile_eq_take
    · rw [List.getElem?_drop, Nat.add_sub_cancel' hle, List.getElem?_eq_getElem (by omega), hterminated.1]
    · intro b hb
      obtain ⟨j, hj, rfl⟩ := List.mem_take_iff_getElem.mp hb
      rw [List.length_drop] at hj
      refine hbefore (needed + j) (by omega) (by omega) _ ?_
      rw [List.getElem_drop, List.getElem?_eq_getElem (by omega)]
      rfl
  have hlength : (nameAt strings needed).length = last - needed := by
    rw [hname, List.length_take, List.length_drop]
    omega
  rw [bytesAt_eq (by omega), pure_bind_elf]
  refine Safe.pure ⟨rfl, by rw [hname]; rfl, by omega, ?_, by omega⟩
  rw [hlength, Nat.add_sub_cancel' hle, List.getElem?_eq_getElem (by omega), hterminated.1]

private theorem readNames_safe {strings : Bytes} (rest : List Nat) (names : List Bytes)
    (hnames : names.length ≤ limits.maxNeededLibraries) :
    Safe quiet reader n (readNames limits strings rest names)
      (fun result m => m = n ∧
        result.1 = names ++ (rest.take (limits.maxNeededLibraries - names.length)).map (escapeBytes ∘ nameAt strings) ∧
        result.2 = decide (limits.maxNeededLibraries < names.length + rest.length) ∧
        ∀ offset ∈ rest.take (limits.maxNeededLibraries - names.length), NameFits limits strings offset) True := by
  induction rest generalizing names n with
  | nil =>
    refine Safe.pure ⟨rfl, ?_, ?_, ?_⟩
    · rw [List.take_nil, List.map_nil, List.append_nil]
    · exact (decide_eq_false (by rw [List.length_nil]; omega)).symm
    · rw [List.take_nil]
      exact fun offset h => absurd h List.not_mem_nil
  | cons needed rest ih =>
    unfold readNames
    refine Safe.bind checkOperation_safe ?_
    rintro _ m rfl
    refine Safe.ite (fun hfull => ?_) fun hmore => ?_
    · have hzero : limits.maxNeededLibraries - names.length = 0 := by omega
      rw [hzero, List.take_zero]
      refine Safe.pure ⟨rfl, (List.append_nil names).symm, ?_, fun offset h => absurd h List.not_mem_nil⟩
      exact (decide_eq_true (by rw [List.length_cons]; omega)).symm
    · obtain ⟨room, hroom⟩ : ∃ room, limits.maxNeededLibraries - names.length = room + 1 :=
        ⟨limits.maxNeededLibraries - names.length - 1, by omega⟩
      refine Safe.bind readName_safe ?_
      rintro name m ⟨rfl, hname, hfits⟩
      have hlength : (names ++ [name]).length = names.length + 1 := by
        rw [List.length_append, List.length_singleton]
      refine Safe.mono (ih (names ++ [name]) (by omega)) ?_ fun _ => id
      rintro ⟨all, truncated⟩ m ⟨hm, hall, htruncated, hrest⟩
      have hroom' : limits.maxNeededLibraries - (names ++ [name]).length = room := by omega
      rw [hroom'] at hall hrest
      rw [hroom, List.take_succ_cons]
      refine ⟨hm, ?_, ?_, ?_⟩
      · rw [hall, hname, List.append_assoc]
        rfl
      · rw [htruncated, hlength, List.length_cons, Nat.add_assoc, Nat.add_comm 1]
      · intro offset hoffset
        rcases List.mem_cons.mp hoffset with rfl | hoffset
        · exact hfits
        · exact hrest offset hoffset

/-- The string table that the entries name: its bytes are those of a load segment that holds all its addresses. -/
def StringTable (contents : Bytes) (programs : List ProgramHeader) (entries : List (Nat × Nat)) (strings : Bytes) :
    Prop :=
  ∃ address size load, lastValue dtStrtab entries = some address ∧ lastValue dtStrsz entries = some size ∧
    programs.find? (holdsInterval address size) = some load ∧
    strings = slice contents (load.offset + (address - load.virtualAddress)) size ∧ strings.length = size

/-- The names of the needed libraries, from the entries and the string table. -/
structure NeededOf (contents : Bytes) (limits : ElfInspectionLimits) (programs : List ProgramHeader)
    (entries : List (Nat × Nat)) (names : List Bytes) (truncated : Bool) : Prop where
  truncated_eq : truncated = decide (limits.maxNeededLibraries < (neededValues entries).length)
  length_eq : names.length = min (neededValues entries).length limits.maxNeededLibraries
  names_eq : neededValues entries ≠ [] → ∃ strings, StringTable contents programs entries strings ∧
    names = ((neededValues entries).take limits.maxNeededLibraries).map (escapeBytes ∘ nameAt strings) ∧
    ∀ offset ∈ (neededValues entries).take limits.maxNeededLibraries, NameFits limits strings offset

theorem readNeeded_safe (hmetadata : reader.metadataLimit ≤ kMaxUint64) (programs : List ProgramHeader)
    (hinside : ∀ program ∈ programs, ProgramInside reader program) {entries : List (Nat × Nat)} {table : DynamicScan}
    (htable : TableOf entries table) (hbudget : n ≤ reader.metadataLimit) :
    Safe quiet reader n (readNeeded reader limits programs table)
      (fun result m => m ≤ reader.metadataLimit ∧
        NeededOf reader.file.contents limits programs entries result.1 result.2) True := by
  unfold readNeeded
  rw [htable.needed, htable.address, htable.size]
  refine Safe.ite (fun hnone => Safe.pure ⟨hbudget, ?_, ?_, ?_⟩) fun hsome => ?_
  · rw [hnone]
    exact (decide_eq_false (Nat.not_lt_zero _)).symm
  · rw [hnone]
    exact (Nat.zero_min _).symm
  · exact fun h => absurd hnone h
  cases haddress : lastValue dtStrtab entries with
  | none => exact Safe.fail fun _ => trivial
  | some address =>
    cases hsize : lastValue dtStrsz entries with
    | none => exact Safe.fail fun _ => trivial
    | some size =>
      dsimp only
      refine Safe.ite (fun _ => Safe.fail fun _ => trivial) fun _ => ?_
      rw [virtualToFile_eq address size programs fun program h _ => (hinside program h).fits]
      cases hload : programs.find? (holdsInterval address size) with
      | none => exact Safe.fail fun _ => trivial
      | some load =>
        refine Safe.bind (Safe.mono (read_safe hmetadata _ size) (fun _ _ => id) fun _ _ => trivial) ?_
        rintro strings m ⟨-, hm, -, hstrings, hlength⟩
        refine Safe.mono (readNames_safe (neededValues entries) [] (Nat.zero_le _)) ?_ fun _ => id
        rintro ⟨names, truncated⟩ m' ⟨rfl, hnames, htruncated, hfits⟩
        rw [List.length_nil, Nat.sub_zero] at hnames hfits
        rw [List.length_nil, Nat.zero_add] at htruncated
        rw [List.nil_append] at hnames
        refine ⟨hm, htruncated, ?_, fun _ => ⟨strings, ⟨address, size, load, haddress, hsize, hload, hstrings, hlength⟩,
          hnames, hfits⟩⟩
        rw [hnames, List.length_map, List.length_take, Nat.min_comm]

end

end ElfAnalyzer

end NativeMcp
