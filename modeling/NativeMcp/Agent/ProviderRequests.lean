import NativeMcp.Agent.ToolSurface

/-!
# Requests to a provider

A `ProviderRequest` is checked against the hard limits when it is built and against the configured ones each time it is
written.
-/

namespace NativeMcp.Agent

/-! ### Messages and controls -/

inductive MessageRole where
  | system
  | user
  | assistant
  deriving DecidableEq, Repr

def MessageRole.value : MessageRole → String
  | .system => "system"
  | .user => "user"
  | .assistant => "assistant"

/-- What `_bounded_text` accepts. -/
def isBoundedText (maximum : Nat) (s : Str) : Bool := s ≠ [] && (encodedSize s).any (· ≤ maximum)

structure ProviderMessage where
  role : MessageRole
  content : Str
  valid : isBoundedText hardLimits.messageBytes content = true

/-- `temperature` and `top_p` -/
def isSamplingControl : PyVal → Bool
  | .none => true
  | value => finiteNumber value &&
    value.number?.any fun n => !n.less (.finite 0) && !(Number.finite 2).less n

def isSeed : PyVal → Bool
  | .none => true
  | value => isIntWithin 0 (2 ^ 31 - 1) value

structure GenerationControls where
  temperature : PyVal := .none
  topP : PyVal := .none
  seed : PyVal := .none
  valid : (isSamplingControl temperature && isSamplingControl topP && isSeed seed) = true

/-- The controls that are not `None`. -/
def GenerationControls.members (g : GenerationControls) : List (Str × PyVal) :=
  [(chars "temperature", g.temperature), (chars "topP", g.topP), (chars "seed", g.seed)].filter fun p =>
    match p.2 with
    | .none => false
    | _ => true

/-! ### `ProviderRequest` -/

/-- What `ProviderRequest.__post_init__` checks of members of the right types. -/
def isProviderRequest (messages : List ProviderMessage) (tools : List AdvertisedTool) (maxOutputTokens : Nat) : Bool :=
  0 < messages.length && messages.length ≤ hardLimits.messageCount &&
    tools.length ≤ hardLimits.advertisedToolCount && decide (tools.map (·.name)).Nodup &&
    0 < maxOutputTokens && maxOutputTokens ≤ 8192

structure ProviderRequest where
  model : ModelIdentifier
  messages : List ProviderMessage
  tools : List AdvertisedTool
  maxOutputTokens : Nat
  correlationId : RequestCorrelationId
  generation : GenerationControls
  valid : isProviderRequest messages tools maxOutputTokens = true

/-- The request with these tools in place of its own. -/
def ProviderRequest.withTools (r : ProviderRequest) (tools : List AdvertisedTool) : Except Raised ProviderRequest :=
  if h : isProviderRequest r.messages tools r.maxOutputTokens = true then
    .ok ⟨r.model, r.messages, tools, r.maxOutputTokens, r.correlationId, r.generation, h⟩
  else .error (.provider .localValidationFailure)

def ProviderMessage.value (m : ProviderMessage) : PyVal :=
  .dict false [(chars "role", .str (chars m.role.value)), (chars "content", .str m.content)]

/-- A tool as a request lists it. -/
def AdvertisedTool.offer (tool : AdvertisedTool) : PyVal :=
  .dict false [(chars "name", .str tool.name), (chars "description", .str tool.description),
    (chars "parameters", tool.parameters)]

namespace ProviderRequest

def value (r : ProviderRequest) : PyVal :=
  .dict false ([(chars "correlationId", .str r.correlationId.text), (chars "model", .str r.model.text),
    (chars "messages", .list (r.messages.map ProviderMessage.value)),
    (chars "tools", .list (r.tools.map AdvertisedTool.offer)), (chars "maxOutputTokens", .int r.maxOutputTokens)] ++
    (if r.generation.members = [] then [] else [(chars "generation", .dict false r.generation.members)]))

/-- The checks of a tool before the request's value is built. -/
def checkTool (limits : Limits) (tool : AdvertisedTool) : Except Raised Unit := do
  checkIdentifier tool.name .localValidationFailure
  checkSchemaDefinition limits tool.parameters

/-- The checks of a tool as it is listed. -/
def checkOffer (L : Library) (limits : Limits) (tool : AdvertisedTool) : Except Raised Unit := do
  checkSchemaDefinition limits tool.parameters
  jsonValue limits none 0 tool.parameters
  let definition ← canon L tool.offer
  require (definition.length ≤ limits.toolDefinitionBytes) .localValidationFailure

/-- `ProviderRequest.to_json_bytes` -/
def toJsonBytes (L : Library) (limits : Limits) (r : ProviderRequest) : Except Raised Bytes := do
  require (r.messages.length ≤ limits.messageCount) .localValidationFailure
  require (r.tools.length ≤ limits.advertisedToolCount) .localValidationFailure
  r.tools.forM (checkTool limits)
  require (r.messages.all fun m => (encodedSize m.content).any (· ≤ limits.messageBytes)) .localValidationFailure
  require (r.model.text.length ≤ limits.messageBytes) .localValidationFailure
  r.tools.forM (checkOffer L limits)
  let encoded ← canon L r.value
  require (encoded.length ≤ limits.providerRequestBytes) .requestTooLarge
  return encoded

end ProviderRequest

end NativeMcp.Agent
