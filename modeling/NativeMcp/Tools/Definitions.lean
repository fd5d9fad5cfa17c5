import NativeMcp.Json

/-!
# The tools a service advertises

The definitions that `tools/list` returns.  Every object schema of an output is closed by
`closeOutputSchemaObjects`; the definitions are UTF-8 for every choice of limits, so listing them never throws
(`isUtf8_toolDefinitions`).
-/

namespace NativeMcp

open Json

def kSearchTool : String := "logs.search"
def kTailTool : String := "logs.tail"
def kElfInspectTool : String := "elf.inspect"
def kProcessMemoryTool : String := "proc.memory"

structure LogAnalysisLimits where
  maxScanBytes : Nat := 16 * 1024 * 1024
  maxQueryBytes : Nat := 256
  maxMatches : Nat := 50
  maxTailLines : Nat := 50
  maxPreviewBytes : Nat := 512
  readChunkBytes : Nat := 8 * 1024
  deriving DecidableEq, Repr

structure ElfInspectionLimits where
  maxProgramHeaders : Nat := 256
  maxProgramHeaderEntryBytes : Nat := 256
  maxSegmentSummaries : Nat := 64
  maxInterpreterBytes : Nat := 4096
  maxDynamicEntries : Nat := 4096
  maxDynamicStringBytes : Nat := 256 * 1024
  maxNeededLibraries : Nat := 64
  maxLibraryNameBytes : Nat := 256
  maxNoteBytes : Nat := 256 * 1024
  maxBuildIdBytes : Nat := 64
  maxMetadataBytes : Nat := 1024 * 1024
  deriving DecidableEq, Repr

/-! ### Closing the object schemas -/

/-- The schema's type is `object` or lists it. -/
def permitsObject (schema : Json) : Bool :=
  match schema.find? "type" with
  | some (.string s) => s == bytes "object"
  | some (.array items) => items.any fun | .string s => s == bytes "object" | _ => false
  | _ => false

/-- `schema[key] = value`. -/
def assign (k : Bytes) (v : Json) : List (Bytes × Json) → List (Bytes × Json)
  | [] => [(k, v)]
  | (k', v') :: l =>
    if k = k' then (k', v) :: l
    else if keyLess k k' then (k, v) :: (k', v') :: l
    else (k', v') :: assign k v l

mutual

def closeOutputSchemaObjects : Json → Json
  | .object m =>
    if permitsObject (.object m) then
      .object (assign (bytes "additionalProperties") (.boolean false) (closeMembers m))
    else .object (closeMembers m)
  | schema => schema

/-- The members under `properties` and `items` are closed, the others kept. -/
def closeMembers : List (Bytes × Json) → List (Bytes × Json)
  | [] => []
  | (k, v) :: l =>
    (k, if k = bytes "properties" then closeProperties v
      else if k = bytes "items" then closeOutputSchemaObjects v
      else v) :: closeMembers l

def closeProperties : Json → Json
  | .object properties => .object (closeEach properties)
  | v => v

def closeEach : List (Bytes × Json) → List (Bytes × Json)
  | [] => []
  | (k, v) :: l => (k, closeOutputSchemaObjects v) :: closeEach l

end

/-! ### The definitions -/

def commonAnnotations : Json :=
  .ofPairs [("readOnlyHint", .boolean true), ("destructiveHint", .boolean false), ("openWorldHint", .boolean false)]

/-- `{"type": t}`. -/
def typed (t : String) : Json := .ofPairs [("type", .text t)]

/-- `{"type": "integer", "minimum": n}`. -/
def integerFrom (n : Int) : Json := .ofPairs [("type", .text "integer"), ("minimum", .numberInteger n)]

/-- `{"type": ["string", "null"]}`. -/
def nullableString : Json := .ofPairs [("type", .texts ["string", "null"])]

def nullableIntegerSchema : Json :=
  .ofPairs [("type", .texts ["integer", "null"]), ("minimum", .numberInteger 0)]

/-- A string argument of one to `maxLength` bytes. -/
def stringArgument (maxLength : Json) (description : String) : Json :=
  .ofPairs [("type", .text "string"), ("minLength", .numberInteger 1), ("maxLength", maxLength),
    ("description", .text description)]

def rootArgument : Json := stringArgument (.numberInteger 64) "Operator-configured symbolic root name"

def pathArgument : Json := stringArgument (.numberInteger 4096) "Relative path beneath the selected root"

/-- `{"type": "object", "properties": …, "required": […]}`. -/
def objectOf (properties : List (String × Json)) (required : List String) : Json :=
  .ofPairs [("type", .text "object"), ("properties", .ofPairs properties), ("required", .texts required)]

/-- The same with `additionalProperties` false. -/
def closedObjectOf (properties : List (String × Json)) (required : List String) : Json :=
  .ofPairs [("type", .text "object"), ("additionalProperties", .boolean false),
    ("properties", .ofPairs properties), ("required", .texts required)]

/-- `{"type": "array", "maxItems": n, "items": …}`. -/
def arrayOf (maxItems : Nat) (items : Json) : Json :=
  .ofPairs [("type", .text "array"), ("maxItems", .numberUnsigned maxItems), ("items", items)]

/-- A definition of the service. -/
def toolDefinition (name title description : String) (inputSchema outputSchema : Json) : Json :=
  .ofPairs [("name", .text name), ("title", .text title), ("description", .text description),
    ("inputSchema", inputSchema), ("outputSchema", outputSchema), ("annotations", commonAnnotations),
    ("execution", .ofPairs [("taskSupport", .text "forbidden")])]

def searchInputSchema (limits : LogAnalysisLimits) : Json :=
  closedObjectOf
    [("root", rootArgument), ("path", pathArgument),
      ("query", stringArgument (.numberUnsigned limits.maxQueryBytes) "Literal text or UTF-8 byte sequence to find"),
      ("caseSensitive", .ofPairs [("type", .text "boolean"), ("default", .boolean true),
        ("description", .text "Use exact byte case; false folds ASCII letters only")]),
      ("maxMatches", .ofPairs [("type", .text "integer"), ("minimum", .numberInteger 1),
        ("maximum", .numberUnsigned limits.maxMatches), ("default", .numberInteger 20),
        ("description", .text "Maximum matching lines to return")])]
    ["root", "path", "query"]

def searchOutputSchema (limits : LogAnalysisLimits) : Json :=
  objectOf
    [("root", typed "string"), ("path", typed "string"), ("caseSensitive", typed "boolean"),
      ("bytesScanned", integerFrom 0), ("linesScanned", integerFrom 0), ("matchLimitReached", typed "boolean"),
      ("fileChangedDuringRead", typed "boolean"),
      ("matches", arrayOf limits.maxMatches (objectOf
        [("line", integerFrom 1), ("byteOffset", integerFrom 0), ("preview", typed "string"),
          ("previewTruncatedStart", typed "boolean"), ("previewTruncatedEnd", typed "boolean")]
        ["line", "byteOffset", "preview", "previewTruncatedStart", "previewTruncatedEnd"]))]
    ["root", "path", "caseSensitive", "bytesScanned", "linesScanned", "matchLimitReached", "fileChangedDuringRead",
      "matches"]

def searchDefinition (limits : LogAnalysisLimits) : Json :=
  toolDefinition kSearchTool "Search approved logs"
    ("Search matching lines in one approved regular log file for a bounded literal " ++
      "byte sequence. At most one result is returned per line, using the first " ++
      "occurrence. Paths are resolved only through an operator-configured root. " ++
      "The scan is " ++ "streaming, synchronous, read-only, and limited to 16 MiB.")
    (searchInputSchema limits) (searchOutputSchema limits)

def tailInputSchema (limits : LogAnalysisLimits) : Json :=
  closedObjectOf
    [("root", rootArgument), ("path", pathArgument),
      ("maxLines", .ofPairs [("type", .text "integer"), ("minimum", .numberInteger 1),
        ("maximum", .numberUnsigned limits.maxTailLines), ("default", .numberInteger 20)])]
    ["root", "path"]

def tailOutputSchema (limits : LogAnalysisLimits) : Json :=
  objectOf
    [("root", typed "string"), ("path", typed "string"), ("bytesScanned", integerFrom 0),
      ("linesScanned", integerFrom 0), ("fileChangedDuringRead", typed "boolean"),
      ("lines", arrayOf limits.maxTailLines (objectOf
        [("line", integerFrom 1), ("byteOffset", integerFrom 0), ("preview", typed "string"),
          ("previewTruncatedStart", typed "boolean")]
        ["line", "byteOffset", "preview", "previewTruncatedStart"]))]
    ["root", "path", "bytesScanned", "linesScanned", "fileChangedDuringRead", "lines"]

def tailDefinition (limits : LogAnalysisLimits) : Json :=
  toolDefinition kTailTool "Read the end of an approved log"
    ("Return a bounded preview of the final logical lines from one approved regular " ++
      "log file. The file is streamed from a pinned read-only descriptor; long lines " ++
      "retain only their final preview bytes.")
    (tailInputSchema limits) (tailOutputSchema limits)

def elfInputSchema : Json := closedObjectOf [("root", rootArgument), ("path", pathArgument)] ["root", "path"]

def elfOutputSchema (limits : ElfInspectionLimits) : Json :=
  objectOf
    [("root", typed "string"), ("path", typed "string"), ("class", typed "string"), ("endianness", typed "string"),
      ("fileType", typed "string"), ("fileTypeNumber", integerFrom 0), ("machine", typed "string"),
      ("machineNumber", integerFrom 0), ("osAbi", typed "string"), ("osAbiNumber", integerFrom 0),
      ("entryPoint", typed "string"),
      ("programHeaderCount", .ofPairs [("type", .text "integer"), ("minimum", .numberInteger 0),
        ("maximum", .numberUnsigned limits.maxProgramHeaders)]),
      ("interpreter", nullableString), ("neededLibraries", arrayOf limits.maxNeededLibraries (typed "string")),
      ("neededLibrariesTruncated", typed "boolean"), ("buildId", nullableString), ("stackPolicy", typed "string"),
      ("relro", typed "string"), ("positionIndependent", typed "boolean"), ("pieExecutable", typed "boolean"),
      ("writableExecutableLoadSegment", typed "boolean"), ("fileChangedDuringRead", typed "boolean"),
      ("metadataBytesRead", integerFrom 0),
      ("segments", arrayOf limits.maxSegmentSummaries (objectOf
        [("type", typed "string"), ("flags", typed "string"), ("fileOffset", integerFrom 0),
          ("fileSize", integerFrom 0), ("memorySize", integerFrom 0), ("virtualAddress", typed "string")]
        ["type", "flags", "fileOffset", "fileSize", "memorySize", "virtualAddress"])),
      ("segmentSummariesTruncated", typed "boolean")]
    ["root", "path", "class", "endianness", "fileType", "fileTypeNumber", "machine", "machineNumber", "osAbi",
      "osAbiNumber", "entryPoint", "programHeaderCount", "interpreter", "neededLibraries",
      "neededLibrariesTruncated", "buildId", "stackPolicy", "relro", "positionIndependent", "pieExecutable",
      "writableExecutableLoadSegment", "fileChangedDuringRead", "metadataBytesRead", "segments",
      "segmentSummariesTruncated"]

def elfDefinition (limits : ElfInspectionLimits) : Json :=
  toolDefinition kElfInspectTool "Inspect an approved Linux ELF file"
    ("Inspect bounded ELF metadata from one approved regular file without executing " ++
      "or memory-mapping it. Reports identity, interpreter, dependencies, build ID, " ++
      "segment summaries, and common hardening signals.")
    elfInputSchema (elfOutputSchema limits)

def processInputSchema : Json :=
  closedObjectOf [("process", stringArgument (.numberInteger 64) "Operator-configured symbolic process name")]
    ["process"]

/-- The counters of `status`. -/
def statusKeys : List String :=
  ["vmPeakBytes", "vmSizeBytes", "vmHwmBytes", "vmRssBytes", "rssAnonBytes", "rssFileBytes", "rssShmemBytes",
    "vmDataBytes", "vmStackBytes", "vmExecutableBytes", "vmLibraryBytes", "vmPageTableBytes", "vmSwapBytes",
    "hugetlbBytes"]

/-- The counters of `smaps_rollup`. -/
def rollupKeys : List String :=
  ["rssBytes", "pssBytes", "pssAnonBytes", "pssFileBytes", "pssShmemBytes", "sharedCleanBytes",
    "sharedDirtyBytes", "privateCleanBytes", "privateDirtyBytes", "referencedBytes", "anonymousBytes", "swapBytes",
    "swapPssBytes", "lockedBytes"]

def processOutputSchema : Json :=
  objectOf
    [("process", typed "string"), ("pid", integerFrom 1), ("uid", integerFrom 0), ("name", typed "string"),
      ("state", typed "string"), ("threads", integerFrom 0), ("pageSizeBytes", integerFrom 1),
      ("pidfdPinned", typed "boolean"),
      ("status", objectOf (statusKeys.map (·, nullableIntegerSchema)) statusKeys),
      ("statm", objectOf
        [("virtualBytes", integerFrom 0), ("residentBytes", integerFrom 0), ("sharedBytes", integerFrom 0),
          ("textBytes", integerFrom 0), ("dataAndStackBytes", integerFrom 0)]
        ["virtualBytes", "residentBytes", "sharedBytes", "textBytes", "dataAndStackBytes"]),
      ("smapsRollupAvailable", typed "boolean"), ("smapsRollupError", nullableString),
      ("smapsRollup", .ofPairs [("type", .texts ["object", "null"]),
        ("properties", .ofPairs (rollupKeys.map (·, nullableIntegerSchema)))])]
    ["process", "pid", "uid", "name", "state", "threads", "pageSizeBytes", "pidfdPinned", "status", "statm",
      "smapsRollupAvailable", "smapsRollupError", "smapsRollup"]

def processDefinition : Json :=
  toolDefinition kProcessMemoryTool "Observe bounded process memory totals"
    ("Return aggregate memory counters for one operator-configured same-UID Linux " ++
      "process. Reads bounded status, statm, and optional smaps_rollup data from a " ++
      "pinned /proc process directory. It never reads process memory, mappings, " ++
      "command-line arguments, environment variables, or file descriptors.")
    processInputSchema processOutputSchema

/-! ### The service -/

/-- What of a `ToolService` decides its tools: which policies it was given and the limits of its analyzers. -/
structure ToolService where
  hasFilesystemPolicy : Bool
  hasProcessPolicy : Bool
  logLimits : LogAnalysisLimits := {}
  elfLimits : ElfInspectionLimits := {}
  deriving DecidableEq, Repr

namespace ToolService

/-- `close_output_schema_objects(definition["outputSchema"])`. -/
def closeOutputSchema : Json → Json
  | .object m =>
    .object (m.map fun p => (p.1, if p.1 = bytes "outputSchema" then closeOutputSchemaObjects p.2 else p.2))
  | definition => definition

def toolDefinitions (tools : ToolService) : Json :=
  .array (((if tools.hasFilesystemPolicy then
      [searchDefinition tools.logLimits, tailDefinition tools.logLimits, elfDefinition tools.elfLimits] else []) ++
    (if tools.hasProcessPolicy then [processDefinition] else [])).map closeOutputSchema)

def knowsTool (tools : ToolService) (name : Bytes) : Bool :=
  (tools.hasFilesystemPolicy &&
    (name == bytes kSearchTool || name == bytes kTailTool || name == bytes kElfInspectTool)) ||
  (tools.hasProcessPolicy && name == bytes kProcessMemoryTool)

end ToolService

/-! ### The definitions are UTF-8 -/

private theorem isUtf8Members_assign {k : Bytes} {v : Json} {m : List (Bytes × Json)} (hk : Utf8.valid k = true)
    (hv : v.isUtf8 = true) (hm : isUtf8Members m = true) : isUtf8Members (assign k v m) = true := by
  induction m with
  | nil => simp [assign, isUtf8Members, hk, hv]
  | cons p m ih =>
    simp only [isUtf8Members, Bool.and_eq_true] at hm
    unfold assign
    split
    · simp [isUtf8Members, hm, hv]
    split
    · simp [isUtf8Members, hm, hk, hv]
    · simp [isUtf8Members, hm, ih hm.2]

mutual

theorem isUtf8_closeOutputSchemaObjects : ∀ {j : Json}, j.isUtf8 = true → (closeOutputSchemaObjects j).isUtf8 = true
  | .object m, h => by
    have hm := isUtf8_closeMembers (m := m) (by simpa [isUtf8] using h)
    unfold closeOutputSchemaObjects
    split
    · exact isUtf8Members_assign (valid_bytes _) rfl hm
    · exact hm
  | .null, _ | .boolean _, _ | .numberInteger _, _ | .numberUnsigned _, _ | .numberFloat _, _ => rfl
  | .string _, h => h
  | .array _, h => h

theorem isUtf8_closeMembers : ∀ {m : List (Bytes × Json)}, isUtf8Members m = true →
    isUtf8Members (closeMembers m) = true
  | [], _ => rfl
  | (k, v) :: l, h => by
    simp only [isUtf8Members, Bool.and_eq_true] at h
    have hl := isUtf8_closeMembers h.2
    have hp := isUtf8_closeProperties h.1.2
    have hv := isUtf8_closeOutputSchemaObjects h.1.2
    rw [closeMembers, isUtf8Members]
    split
    · simp [h, hl, hp]
    split
    · simp [h, hl, hv]
    · simp [h, hl]

theorem isUtf8_closeProperties : ∀ {j : Json}, j.isUtf8 = true → (closeProperties j).isUtf8 = true
  | .object m, h => isUtf8_closeEach (m := m) (by simpa [isUtf8] using h)
  | .null, _ | .boolean _, _ | .numberInteger _, _ | .numberUnsigned _, _ | .numberFloat _, _ => rfl
  | .string _, h => h
  | .array _, h => h

theorem isUtf8_closeEach : ∀ {m : List (Bytes × Json)}, isUtf8Members m = true → isUtf8Members (closeEach m) = true
  | [], _ => rfl
  | (k, v) :: l, h => by
    simp only [isUtf8Members, Bool.and_eq_true] at h
    simp [closeEach, isUtf8Members, h, isUtf8_closeEach h.2, isUtf8_closeOutputSchemaObjects h.1.2]

end

private theorem isUtf8_typed (t : String) : (typed t).isUtf8 = true := isUtf8_ofPairs (by simp)

private theorem isUtf8_integerFrom (n : Int) : (integerFrom n).isUtf8 = true := isUtf8_ofPairs (by simp)

private theorem isUtf8_nullableString : nullableString.isUtf8 = true := isUtf8_ofPairs (by simp)

private theorem isUtf8_nullableIntegerSchema : nullableIntegerSchema.isUtf8 = true :=
  isUtf8_ofPairs (by simp)

private theorem isUtf8_objectOf {l : List (String × Json)} (h : ∀ p ∈ l, p.2.isUtf8 = true) (r : List String) :
    (objectOf l r).isUtf8 = true :=
  isUtf8_ofPairs (by simpa using isUtf8_ofPairs h)

private theorem isUtf8_closedObjectOf {l : List (String × Json)} (h : ∀ p ∈ l, p.2.isUtf8 = true)
    (r : List String) : (closedObjectOf l r).isUtf8 = true :=
  isUtf8_ofPairs (by simpa using isUtf8_ofPairs h)

private theorem isUtf8_arrayOf {j : Json} (n : Nat) (h : j.isUtf8 = true) : (arrayOf n j).isUtf8 = true :=
  isUtf8_ofPairs (by simp [h])

private theorem isUtf8_toolDefinition {i o : Json} (n t d : String) (hi : i.isUtf8 = true) (ho : o.isUtf8 = true) :
    (toolDefinition n t d i o).isUtf8 = true :=
  isUtf8_ofPairs (by simp [hi, ho, commonAnnotations, isUtf8_ofPairs])

private theorem isUtf8_searchDefinition (limits : LogAnalysisLimits) : (searchDefinition limits).isUtf8 = true := by
  refine isUtf8_toolDefinition _ _ _ (isUtf8_closedObjectOf ?_ _) (isUtf8_objectOf ?_ _)
  · simp [rootArgument, pathArgument, stringArgument, isUtf8_ofPairs]
  · simp [isUtf8_typed, isUtf8_integerFrom, isUtf8_arrayOf, isUtf8_objectOf]

private theorem isUtf8_tailDefinition (limits : LogAnalysisLimits) : (tailDefinition limits).isUtf8 = true := by
  refine isUtf8_toolDefinition _ _ _ (isUtf8_closedObjectOf ?_ _) (isUtf8_objectOf ?_ _)
  · simp [rootArgument, pathArgument, stringArgument, isUtf8_ofPairs]
  · simp [isUtf8_typed, isUtf8_integerFrom, isUtf8_arrayOf, isUtf8_objectOf]

private theorem isUtf8_elfDefinition (limits : ElfInspectionLimits) : (elfDefinition limits).isUtf8 = true := by
  refine isUtf8_toolDefinition _ _ _ (isUtf8_closedObjectOf ?_ _) (isUtf8_objectOf ?_ _)
  · simp [rootArgument, pathArgument, stringArgument, isUtf8_ofPairs]
  · simp [isUtf8_typed, isUtf8_integerFrom, isUtf8_nullableString, isUtf8_arrayOf, isUtf8_objectOf, isUtf8_ofPairs]

private theorem isUtf8_processDefinition : processDefinition.isUtf8 = true := by
  refine isUtf8_toolDefinition _ _ _ (isUtf8_closedObjectOf ?_ _) (isUtf8_objectOf ?_ _)
  · simp [stringArgument, isUtf8_ofPairs]
  · simp [isUtf8_typed, isUtf8_integerFrom, isUtf8_nullableString, isUtf8_nullableIntegerSchema, isUtf8_objectOf,
      isUtf8_ofPairs]

private theorem isUtf8_closeOutputSchema {j : Json} (h : j.isUtf8 = true) :
    (ToolService.closeOutputSchema j).isUtf8 = true := by
  cases j with
  | object m =>
    rw [ToolService.closeOutputSchema, isUtf8]
    rw [isUtf8] at h
    induction m with
    | nil => rfl
    | cons p m ih =>
      simp only [isUtf8Members, Bool.and_eq_true] at h
      rw [List.map_cons, isUtf8Members, ih h.2]
      split <;> simp [h, isUtf8_closeOutputSchemaObjects]
  | _ => exact h

theorem isUtf8_toolDefinitions (tools : ToolService) : tools.toolDefinitions.isUtf8 = true := by
  have h1 := isUtf8_closeOutputSchema (isUtf8_searchDefinition tools.logLimits)
  have h2 := isUtf8_closeOutputSchema (isUtf8_tailDefinition tools.logLimits)
  have h3 := isUtf8_closeOutputSchema (isUtf8_elfDefinition tools.elfLimits)
  have h4 := isUtf8_closeOutputSchema isUtf8_processDefinition
  rw [ToolService.toolDefinitions, isUtf8]
  cases tools.hasFilesystemPolicy <;> cases tools.hasProcessPolicy <;> simp [isUtf8Items, h1, h2, h3, h4]

end NativeMcp
