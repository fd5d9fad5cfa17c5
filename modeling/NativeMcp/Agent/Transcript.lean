import NativeMcp.Agent.Contracts

/-!
# The control transcript

`BoundedTranscript` collects the events of a run within two limits: before it takes an event it reserves the room of
the one terminal record that may have to follow.  `parse_bounded_transcript` reads a transcript back and replays the
provenance of its evidence: an action is authorized, then requested, then answered, then its answer is validated.
-/

namespace NativeMcp.Agent

/-! ### The events -/

/-- `_TRANSCRIPT_EVENTS` -/
inductive ControlKind where
  | processStart
  | initializeRequest
  | initializeResponse
  | initializedNotification
  | toolsListRequest
  | toolsListResponse
  | surfaceCaptured
  | surfaceRevalidated
  | providerTurnStart
  | providerTurnResponse
  | proposalRejected
  | proposalDuplicate
  | authorized
  | mcpRequest
  | mcpResponse
  | evidenceValidated
  | skipped
  | deadline
  | cancelled
  | failure
  | shutdownStart
  | shutdownTerminate
  | shutdownKill
  | shutdownComplete
  | shutdownUnreaped
  | outcome
  | transcriptLimit
  | surface
  | providerTurn
  | failed
  deriving DecidableEq, Repr

def ControlKind.value : ControlKind → String
  | .processStart => "process_start"
  | .initializeRequest => "initialize_request"
  | .initializeResponse => "initialize_response"
  | .initializedNotification => "initialized_notification"
  | .toolsListRequest => "tools_list_request"
  | .toolsListResponse => "tools_list_response"
  | .surfaceCaptured => "surface_captured"
  | .surfaceRevalidated => "surface_revalidated"
  | .providerTurnStart => "provider_turn_start"
  | .providerTurnResponse => "provider_turn_response"
  | .proposalRejected => "proposal_rejected"
  | .proposalDuplicate => "proposal_duplicate"
  | .authorized => "authorized"
  | .mcpRequest => "mcp_request"
  | .mcpResponse => "mcp_response"
  | .evidenceValidated => "evidence_validated"
  | .skipped => "skipped"
  | .deadline => "deadline"
  | .cancelled => "cancelled"
  | .failure => "failure"
  | .shutdownStart => "shutdown_start"
  | .shutdownTerminate => "shutdown_terminate"
  | .shutdownKill => "shutdown_kill"
  | .shutdownComplete => "shutdown_complete"
  | .shutdownUnreaped => "shutdown_unreaped"
  | .outcome => "outcome"
  | .transcriptLimit => "transcript_limit"
  | .surface => "surface"
  | .providerTurn => "provider_turn"
  | .failed => "failed"

def ControlKind.all : List ControlKind :=
  [.processStart, .initializeRequest, .initializeResponse, .initializedNotification, .toolsListRequest,
    .toolsListResponse, .surfaceCaptured, .surfaceRevalidated, .providerTurnStart, .providerTurnResponse,
    .proposalRejected, .proposalDuplicate, .authorized, .mcpRequest, .mcpResponse, .evidenceValidated, .skipped,
    .deadline, .cancelled, .failure, .shutdownStart, .shutdownTerminate, .shutdownKill, .shutdownComplete,
    .shutdownUnreaped, .outcome, .transcriptLimit, .surface, .providerTurn, .failed]

/-- The event of this name. -/
def ControlKind.ofName? (name : Str) : Option ControlKind := all.find? fun kind => chars kind.value == name

mutual

/-- `hash(value)` does not raise. -/
def PyVal.hashable : PyVal → Bool
  | .list _ | .dict .. => false
  | .tuple items => PyVal.hashableItems items
  | _ => true

def PyVal.hashableItems : List PyVal → Bool
  | [] => true
  | v :: l => PyVal.hashable v && PyVal.hashableItems l

end

/-- `event in _TRANSCRIPT_EVENTS`; raises `TypeError` where the value cannot be hashed. -/
def controlKind? (event : PyVal) : Except Raised (Option ControlKind) :=
  match event with
  | .str s => .ok (ControlKind.ofName? s)
  | v => if v.hashable then .ok none else .error .other

/-- `_TRANSCRIPT_KEYS` -/
inductive MetadataKey where
  | surface
  | turn
  | bytes
  | action
  | proposal
  | response
  | failure
  | outcome
  deriving DecidableEq, Repr

def MetadataKey.value : MetadataKey → String
  | .surface => "surface"
  | .turn => "turn"
  | .bytes => "bytes"
  | .action => "action"
  | .proposal => "proposal"
  | .response => "response"
  | .failure => "failure"
  | .outcome => "outcome"

def MetadataKey.text (key : MetadataKey) : Str := chars key.value

/-- `_TRANSCRIPT_SCHEMA` -/
def ControlKind.schema : ControlKind → List MetadataKey
  | .initializeResponse | .toolsListResponse => [.response]
  | .surfaceCaptured | .surfaceRevalidated | .surface => [.surface]
  | .providerTurnStart | .providerTurnResponse | .providerTurn => [.turn, .bytes]
  | .proposalRejected | .proposalDuplicate | .skipped => [.proposal]
  | .authorized => [.action, .proposal]
  | .mcpRequest | .mcpResponse | .evidenceValidated => [.action, .response]
  | .failure => [.failure]
  | .outcome => [.outcome]
  | .failed => [.failure, .action]
  | _ => []

/-- `set(names) == set(keys)` -/
def sameNames (names : List Str) (keys : List MetadataKey) : Bool :=
  names.all (fun name => keys.any fun key => key.text == name) && keys.all fun key => names.contains key.text

/-- The metadata of an event has the keys that its schema names; `failed` may leave out its action. -/
def ControlKind.admits (kind : ControlKind) (names : List Str) : Bool :=
  sameNames names kind.schema || (kind == .failed && sameNames names [.failure])

structure ControlEvent where
  kind : ControlKind
  metadata : List (Str × Str)
  deriving DecidableEq, Repr

/-- `event["metadata"][key]` -/
def ControlEvent.get (e : ControlEvent) (key : MetadataKey) : Str := (e.metadata.lookup key.text).getD []

def ControlEvent.toValue (e : ControlEvent) : PyVal :=
  .dict false [(chars "event", .str (chars e.kind.value)),
    (chars "metadata", .dict false (e.metadata.map fun p => (p.1, .str p.2)))]

/-! ### `BoundedTranscript` -/

/-- `_SUSPICIOUS` -/
def suspicious : List String :=
  ["authorization", "proxy-authorization", "bearer", "api-key", "api-", "apikey", "sk-", "password", "secret", "token"]

/-- `c.lower()` of an ASCII character. -/
def lowerAscii (c : Nat) : Nat := if 0x41 ≤ c && c ≤ 0x5A then c + 0x20 else c

/-- `part in s` -/
def containsText (part s : Str) : Bool := s.tails.any (part.isPrefixOf ·)

/-- What is kept of a metadata value. -/
def redactControl (s : Str) : Str :=
  if (suspicious.any fun part => containsText (chars part) (s.map lowerAscii)) || s.head? == some 0x2F ||
    s.contains 0x5C
  then chars "redacted" else s

/-- The value of a piece of metadata: not empty, only ASCII, at most 64 characters. -/
def controlText : PyVal → Except Raised Str
  | .str s =>
    if s ≠ [] ∧ s.all (· < 0x80) = true ∧ s.length ≤ 64 then .ok (redactControl s)
    else .error (.provider .localValidationFailure)
  | _ => .error (.provider .localValidationFailure)

def controlMetadata : List (Str × PyVal) → Except Raised (List (Str × Str))
  | [] => .ok []
  | (name, value) :: rest => do
    let text ← controlText value
    let texts ← controlMetadata rest
    return (name, text) :: texts

def transcriptValue (events : List ControlEvent) (limited : Bool) : PyVal :=
  .dict false [(chars "schemaVersion", .int 2), (chars "events", .list (events.map ControlEvent.toValue)),
    (chars "limited", .bool limited)]

/-- `_transcript_bytes`; `json.dumps` cannot fail on such a value. -/
def transcriptBytes (L : Library) (events : List ControlEvent) (limited : Bool) : Bytes :=
  match canon L (transcriptValue events limited) with
  | .ok raw => raw
  | .error _ => []

/-- `_terminal` -/
def terminal : ControlEvent := ⟨.transcriptLimit, []⟩

structure BoundedTranscript where
  events : List ControlEvent
  limited : Bool
  deriving DecidableEq, Repr

namespace BoundedTranscript

/-- `BoundedTranscript.__init__` -/
def create : BoundedTranscript := ⟨[], false⟩

def toJsonBytes (L : Library) (t : BoundedTranscript) : Bytes := transcriptBytes L t.events t.limited

/-- These events and the terminal record fit. -/
def fits (L : Library) (limits : Limits) (events : List ControlEvent) : Bool :=
  (transcriptBytes L (events ++ [terminal]) true).length ≤ limits.transcriptBytes

/-- The end of `add`: takes an event that is well formed, or ends the transcript. -/
def append (L : Library) (limits : Limits) (t : BoundedTranscript) (e : ControlEvent) :
    BoundedTranscript × Except Raised Unit :=
  let candidate := t.events ++ [e]
  -- room for the terminal record is reserved before the event is accepted
  if e.kind ≠ .transcriptLimit ∧ candidate.length < limits.transcriptEventCount ∧ fits L limits candidate = true then
    ({ t with events := candidate }, .ok ())
  else if fits L limits t.events then
    ({ t with events := t.events ++ [terminal], limited := true }, .ok ())
  else (t, .error (.provider .oversizedResponse))

/-- The checks of `add` before it looks at the limits. -/
def checkEvent (event : PyVal) (metadata : List (Str × PyVal)) : Except Raised ControlEvent := do
  let some kind ← controlKind? event | .error (.provider .localValidationFailure)
  require (kind.admits (metadata.map Prod.fst)) .localValidationFailure
  let texts ← controlMetadata metadata
  return ⟨kind, texts⟩

/-- `BoundedTranscript.add`: the transcript after the call, and whether it raised. -/
def add (L : Library) (limits : Limits) (t : BoundedTranscript) (event : PyVal) (metadata : List (Str × PyVal)) :
    BoundedTranscript × Except Raised Unit :=
  if t.limited then (t, .ok ())
  else
    match checkEvent event metadata with
    | .error raised => (t, .error raised)
    | .ok e => append L limits t e

end BoundedTranscript

/-! ### The replay of the provenance -/

/-- The sets that `parse_bounded_transcript` keeps. -/
structure Replay where
  authorizedActions : List Str
  requestedPairs : List (Str × Str)
  respondedPairs : List (Str × Str)
  evidencedPairs : List (Str × Str)
  requestActions : List Str
  requestResponses : List Str
  deriving DecidableEq, Repr

namespace Replay

def start : Replay := ⟨[], [], [], [], [], []⟩

/-- What one event does to the sets. -/
def step (r : Replay) (e : ControlEvent) : Except Raised Replay :=
  let action := e.get .action
  let pair := (action, e.get .response)
  match e.kind with
  | .authorized => do
    require (!r.authorizedActions.contains action) .localValidationFailure
    return { r with authorizedActions := action :: r.authorizedActions }
  | .mcpRequest => do
    require (r.authorizedActions.contains action && !r.requestedPairs.contains pair &&
      !r.requestActions.contains action && !r.requestResponses.contains pair.2) .localValidationFailure
    return { r with
      requestedPairs := pair :: r.requestedPairs
      requestActions := action :: r.requestActions
      requestResponses := pair.2 :: r.requestResponses }
  | .mcpResponse => do
    require (r.requestedPairs.contains pair && !r.respondedPairs.contains pair) .localValidationFailure
    return { r with respondedPairs := pair :: r.respondedPairs }
  | .evidenceValidated => do
    require (r.respondedPairs.contains pair && !r.evidencedPairs.contains pair) .localValidationFailure
    return { r with evidencedPairs := pair :: r.evidencedPairs }
  | _ => .ok r

end Replay

/-! ### `parse_bounded_transcript` -/

theorem Limits.transcriptItems_bounds (limits : Limits) :
    0 < max limits.objectArrayItems limits.transcriptEventCount ∧
      max limits.objectArrayItems limits.transcriptEventCount ≤ hardMax.objectArrayItems := by
  have hv := limits.valid
  simp only [LimitValues.isValid, LimitValues.asList, hardMax, List.zip_cons_cons, List.zip_nil_right, List.all_cons,
    List.all_nil, Bool.and_eq_true, decide_eq_true_eq, and_true] at hv ⊢
  omega

def controlLimits (limits : Limits) : Limits :=
  limits.withItems (max limits.objectArrayItems limits.transcriptEventCount) limits.transcriptItems_bounds

/-- A dictionary with these keys and no others; its values in this order. -/
def PyVal.closed? (v : PyVal) (keys : List String) : Option (List PyVal) :=
  match v with
  | .dict _ members =>
    if members.all (fun p => keys.any fun key => chars key == p.1) then keys.mapM fun key => members.lookup (chars key)
    else Option.none
  | _ => Option.none

/-- The values of a piece of metadata: strings of at most 64 characters. -/
def metadataTexts : List (Str × PyVal) → Option (List (Str × Str))
  | [] => some []
  | (name, .str s) :: rest => if s.length ≤ 64 then (metadataTexts rest).map ((name, s) :: ·) else none
  | _ :: _ => none

/-- An item of `events`. -/
def parseControlEvent (item : PyVal) : Except Raised ControlEvent := do
  let some [event, metadata] := item.closed? ["event", "metadata"] | .error (.provider .localValidationFailure)
  let some kind ← controlKind? event | .error (.provider .localValidationFailure)
  let some members := metadata.members? | .error (.provider .localValidationFailure)
  require (kind.admits (members.map Prod.fst)) .localValidationFailure
  let some texts := metadataTexts members | .error (.provider .localValidationFailure)
  return ⟨kind, texts⟩

/-- The loop over `events`: each item is read and replayed. -/
def parseControlEvents : Replay → List PyVal → Except Raised (List ControlEvent)
  | _, [] => .ok []
  | r, item :: rest => do
    let e ← parseControlEvent item
    let r ← r.step e
    let events ← parseControlEvents r rest
    return e :: events

/-- The terminal record stands at the end of a limited transcript and nowhere else. -/
def terminalIsValid (events : List ControlEvent) (limited : Bool) : Bool :=
  let indexes := (events.zipIdx.filter fun p => p.1.kind == .transcriptLimit).map Prod.snd
  if limited then events ≠ [] && indexes == [events.length - 1] else indexes == []

/-- `parse_bounded_transcript` of bytes. -/
def parseBoundedTranscript (L : Library) (raw : Bytes) (limits : Limits) : Except Raised (List ControlEvent) := do
  let value ← parseClosedJson L raw (controlLimits limits) (some limits.transcriptBytes) none
  let some [schemaVersion, .list items, .bool limited] := value.closed? ["schemaVersion", "events", "limited"]
    | .error (.provider .localValidationFailure)
  require (schemaVersion.equal (.int 2) && items.length ≤ limits.transcriptEventCount) .localValidationFailure
  let events ← parseControlEvents .start items
  require (terminalIsValid events limited) .localValidationFailure
  return events

end NativeMcp.Agent
