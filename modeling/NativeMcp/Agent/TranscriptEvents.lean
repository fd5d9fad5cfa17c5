import NativeMcp.Agent.Identifiers
import NativeMcp.Agent.Redaction

/-!
# Transcript events

A `TranscriptEvent` is checked when it is built, again when it is written, and once more when `parse_transcript` reads
it back.  The writer redacts the metadata; the reader bounds the whole value as JSON.
-/

namespace NativeMcp.Agent

/-! ### What is checked of the fields -/

/-- `_safe_identity` accepts the text. -/
def isSafeIdentity (s : Str) : Bool :=
  isIdentifier 63 s && !containsAny suspicious (s.map lowerAscii) && !s.all isDigit

/-- `_SAFE_METADATA_KEYS` -/
def safeMetadataKeys : List String :=
  ["mode", "phase", "source", "reason", "status", "retry", "category", "provider", "operation"]

/-- `char.isspace()` -/
def isSpace (c : Nat) : Bool :=
  (0x09 ≤ c && c ≤ 0x0D) || (0x1C ≤ c && c ≤ 0x20) || c == 0x85 || c == 0xA0 || c == 0x1680 ||
    (0x2000 ≤ c && c ≤ 0x200A) || c == 0x2028 || c == 0x2029 || c == 0x202F || c == 0x205F || c == 0x3000

/-- An item that `_metadata` accepts. -/
def isSafeMetadata (item : Str × Str) : Bool :=
  safeMetadataKeys.any (chars · == item.1) && item.2 != [] &&
    (encodedSize item.2).any (· ≤ hardLimits.messageBytes) && item.2.all (fun c => 0x20 ≤ c && c != 0x7F) &&
    !containsAny suspicious (lowerText item.2) && item.2.head? != some 0x2F && !item.2.any isSpace

/-- `_metadata` accepts a mapping with these items. -/
def acceptsMetadata (limit : Nat) (items : List (Str × Str)) : Bool := items.length ≤ limit && items.all isSafeMetadata

/-- `_metadata` -/
def metadataOf (limit : Nat) (value : PyVal) : Except Raised (List (Str × Str)) := do
  let some items := (value.members?).bind fun members => members.mapM fun p => p.2.text?.map fun text => (p.1, text)
    | .error (.provider .localValidationFailure)
  require (acceptsMetadata limit items) .localValidationFailure
  return items

/-! ### `TranscriptEvent` -/

structure EventFields where
  event : Str
  adapter : Str
  model : ModelIdentifier
  correlationId : RequestCorrelationId
  provenance : EvidenceProvenance
  proposalIds : List ToolCallId
  failureClass : Option FailureClass
  retryEligible : Option Bool
  byteCount : Nat
  metadata : List (Str × Str)
  deriving DecidableEq

/-- `__post_init__` accepts the fields; the names in a mapping are distinct. -/
def EventFields.isValid (e : EventFields) : Bool :=
  isSafeIdentity e.event && isSafeIdentity e.adapter &&
    e.proposalIds.length ≤ hardLimits.proposedToolCallCount && decide e.proposalIds.Nodup &&
    e.byteCount ≤ 512 * 1024 &&
    acceptsMetadata hardLimits.objectArrayItems e.metadata && decide (e.metadata.map Prod.fst).Nodup

structure TranscriptEvent extends EventFields where
  valid : toEventFields.isValid = true

/-- `None` or a boolean. -/
def PyVal.flag? : PyVal → Option (Option Bool)
  | .none => some Option.none
  | .bool b => some (some b)
  | _ => Option.none

/-- An integer that is not negative. -/
def PyVal.natural? : PyVal → Option Nat
  | .int i => if 0 ≤ i then some i.toNat else Option.none
  | _ => Option.none

/-- `TranscriptEvent(…)` of identifiers that have their types. -/
def TranscriptEvent.create (event adapter model : PyVal) (correlationId : RequestCorrelationId)
    (provenance : EvidenceProvenance) (proposalIds : List ToolCallId) (failureClass : Option FailureClass)
    (retryEligible byteCount metadata : PyVal) : Except Raised TranscriptEvent := do
  let some event := event.text? | .error (.provider .localValidationFailure)
  let some adapter := adapter.text? | .error (.provider .localValidationFailure)
  let model ← ModelIdentifier.ofValue model
  let some retryEligible := retryEligible.flag? | .error (.provider .localValidationFailure)
  let some byteCount := byteCount.natural? | .error (.provider .localValidationFailure)
  let metadata ← metadataOf hardLimits.objectArrayItems metadata
  let fields : EventFields :=
    { event, adapter, model, correlationId, provenance, proposalIds, failureClass, retryEligible, byteCount, metadata }
  if h : fields.isValid = true then .ok { toEventFields := fields, valid := h }
  else .error (.provider .localValidationFailure)

namespace EventFields

/-- `a == b`: mappings are equal in whatever order their items are. -/
def Same (a b : EventFields) : Prop :=
  { a with metadata := [] } = { b with metadata := [] } ∧ a.metadata.Perm b.metadata

/-! ### The writer -/

def metadataValue (e : EventFields) : PyVal := .dict true (e.metadata.map fun p => (p.1, .str p.2))

/-- The members of what `to_json_bytes` writes. -/
def members (sensitive : Str → List Str → Nat → Str) (e : EventFields) : List (Str × PyVal) :=
  [(chars "schemaVersion", .int 1), (chars "event", .str e.event), (chars "adapter", .str e.adapter),
    (chars "model", .str e.model.text), (chars "correlationId", .str e.correlationId.text),
    (chars "provenance", .str (chars e.provenance.value)),
    (chars "proposalIds", .list (e.proposalIds.map fun id => .str id.text)), (chars "byteCount", .int e.byteCount),
    (chars "metadata", redactJson sensitive [] 4096 e.metadataValue)] ++
    (e.failureClass.map fun c => (chars "failureClass", PyVal.str (chars c.value))).toList ++
    (e.retryEligible.map fun b => (chars "retryEligible", PyVal.bool b)).toList

def value (sensitive : Str → List Str → Nat → Str) (e : EventFields) : PyVal := .dict false (e.members sensitive)

/-- `TranscriptEvent.to_json_bytes` -/
def toJsonBytes (L : Library) (sensitive : Str → List Str → Nat → Str) (e : EventFields) (limits : Limits) :
    Except Raised Bytes := do
  require (isSafeIdentity e.event && isSafeIdentity e.adapter) .localValidationFailure
  let _ ← ModelIdentifier.ofValue (.str e.model.text)
  let _ ← RequestCorrelationId.ofValue (.str e.correlationId.text)
  let _ ← e.proposalIds.mapM fun id => ToolCallId.requireCanonical L (.str id.text)
  require (e.byteCount ≤ 512 * 1024 && e.proposalIds.length ≤ limits.proposedToolCallCount) .localValidationFailure
  let metadata ← metadataOf limits.objectArrayItems e.metadataValue
  require (metadata.all fun p => (encodedSize p.2).any (· ≤ limits.messageBytes)) .localValidationFailure
  let encoded ← canon L (e.value sensitive)
  require (encoded.length ≤ limits.transcriptBytes) .oversizedResponse
  return encoded

end EventFields

/-! ### The reader -/

def requiredEventKeys : List String :=
  ["schemaVersion", "event", "adapter", "model", "correlationId", "provenance", "proposalIds", "byteCount", "metadata"]

def allowedEventKeys : List String := requiredEventKeys ++ ["failureClass", "retryEligible"]

/-- The fields of a transcript that is read. -/
def parseEvent (L : Library) (limits : Limits) (value : PyVal) : Except Raised TranscriptEvent := do
  let some members := value.members? | .error (.provider .localValidationFailure)
  require (members.all (fun p => allowedEventKeys.any (chars · == p.1)) && requiredEventKeys.all value.has &&
    (value.get? "schemaVersion").any (isIntWithin 1 1)) .localValidationFailure
  let some (.list items) := value.get? "proposalIds" | .error (.provider .localValidationFailure)
  require (items.length ≤ limits.proposedToolCallCount) .localValidationFailure
  require ((value.get? "byteCount").bind PyVal.natural?).isSome .localValidationFailure
  let metadata ← metadataOf limits.objectArrayItems ((value.get? "metadata").getD .none)
  let proposals ← items.mapM (ToolCallId.requireCanonical L)
  let failureClass ← (value.get? "failureClass").elim (.ok none) fun v => (FailureClass.ofValue v).map some
  let correlationId ← RequestCorrelationId.ofValue ((value.get? "correlationId").getD .none)
  let provenance ← EvidenceProvenance.ofValue ((value.get? "provenance").getD .none)
  TranscriptEvent.create ((value.get? "event").getD .none) ((value.get? "adapter").getD .none)
    ((value.get? "model").getD .none) correlationId provenance proposals failureClass
    ((value.get? "retryEligible").getD .none) ((value.get? "byteCount").getD .none)
    (.dict true (metadata.map fun p => (p.1, .str p.2)))

/-- What is raised is classified: `except ProviderError: raise`, and every other error is a local one. -/
def classified {α : Type} : Except Raised α → Except Raised α
  | .error .other => .error (.provider .localValidationFailure)
  | r => r

/-- `parse_transcript` of bytes. -/
def parseTranscript (L : Library) (raw : Bytes) (limits : Limits) : Except Raised TranscriptEvent := do
  require (raw.length ≤ limits.transcriptBytes) .oversizedResponse
  classified (parseClosedJson L raw limits (some limits.transcriptBytes) none >>= parseEvent L limits)

end NativeMcp.Agent
