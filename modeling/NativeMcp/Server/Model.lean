import NativeMcp.Foundation
import NativeMcp.Scheduler.Model
import NativeMcp.Server.JsonRpc
import NativeMcp.Server.JsonSafety
import NativeMcp.Tools.Definitions

/-!
# The protocol server

`Server` as the code computes it: what one input line does (`acceptLine`) and how results are formatted
(`formatToolResult`).  A computation is `none` where `Json::dump` throws.
-/

namespace NativeMcp

open JsonRpc Json

def kProtocolVersion : String := "2025-11-25"
def kServerName : String := "native-mcp-sandbox"
def projectVersion : String := "0.13.0"

inductive LifecycleState where
  | uninitialized
  | awaitingInitializedNotification
  | ready
  deriving DecidableEq, Repr

structure ProcessResult where
  response : Option Bytes
  diagnostic : Option String
  deriving DecidableEq, Repr

structure PreparedToolCall where
  requestId : Json
  name : Bytes
  arguments : Json

structure CancellationNotice where
  requestId : Json

structure LineAction where
  immediate : Option ProcessResult := none
  toolCall : Option PreparedToolCall := none
  cancellation : Option CancellationNotice := none

structure Server where
  budget : ResourceBudget
  state : LifecycleState
  tools : Option ToolService

/-- The constructor: an invalid budget is replaced by the conservative one. -/
def Server.create (budget : ResourceBudget) (tools : Option ToolService) : Server where
  budget := effectiveBudget budget
  state := .uninitialized
  tools := tools

structure HandlerResult where
  response : Option Json
  diagnostic : Option String
  nextState : Option LifecycleState

/-! ### Reading a message -/

/-- The value is this string. -/
def isText (s : String) : Json → Bool
  | .string t => t == bytes s
  | _ => false

/-- The bytes of a nonempty string. -/
def nonemptyString? : Json → Option Bytes
  | .string [] => none
  | .string s => some s
  | _ => none

def validOptionalObjectParams (message : Json) : Bool := (message.find? "params").all isObject

def validNonemptyStringMember (object : Json) (key : String) : Bool :=
  (object.find? key).any fun member => (nonemptyString? member).isSome

/-! ### Handlers -/

def requestError (id : Json) (code : Int) (message : String) : HandlerResult :=
  ⟨some (makeError id code message), none, none⟩

def notificationDiagnostic (message : String) : HandlerResult := ⟨none, some message, none⟩

/-- The result of a successful `initialize`. -/
def initializeResult : Json :=
  .ofPairs [("protocolVersion", .text kProtocolVersion),
    ("capabilities", .ofPairs [("tools", .ofPairs [])]),
    ("serverInfo", .ofPairs [("name", .text kServerName), ("version", .text projectVersion)])]

/-- The members `initialize` requires of its params. -/
def validInitializeParams (params : Json) : Bool :=
  (params.find? "protocolVersion").any isString && (params.find? "capabilities").any isObject &&
  (params.find? "clientInfo").any fun clientInfo => clientInfo.isObject &&
    validNonemptyStringMember clientInfo "name" && validNonemptyStringMember clientInfo "version"

def handleInitialize (message id : Json) (state : LifecycleState) : HandlerResult :=
  if state ≠ .uninitialized then requestError id kLifecycleError "Initialization has already started"
  else
    match (message.find? "params").filter isObject with
    | none => requestError id kInvalidParams "initialize requires object params"
    | some params =>
      if !validInitializeParams params then requestError id kInvalidParams "Invalid initialize parameters"
      else ⟨some (makeResult id initializeResult), none, some .awaitingInitializedNotification⟩

def handleToolsList (message id : Json) (state : LifecycleState) (tools : Option ToolService) : HandlerResult :=
  if state ≠ .ready then requestError id kLifecycleError "Server is not ready for tool discovery"
  else if !validOptionalObjectParams message then
    requestError id kInvalidParams "tools/list params must be an object"
  else if !((message.find? "params").bind (·.find? "cursor")).all isString then
    requestError id kInvalidParams "tools/list cursor must be a string"
  else
    let definitions := match tools with
      | none => .array []
      | some tools => tools.toolDefinitions
    ⟨some (makeResult id (.ofPairs [("tools", definitions)])), none, none⟩

/-- Either an error or the call. -/
def prepareToolsCall (message id : Json) (state : LifecycleState) (tools : Option ToolService) :
    Except HandlerResult PreparedToolCall :=
  if state ≠ .ready then .error (requestError id kLifecycleError "Server is not ready for tool calls")
  else
    match (message.find? "params").filter isObject with
    | none => .error (requestError id kInvalidParams "tools/call requires object params")
    | some params =>
      if params.contains "task" then
        .error (requestError id kInvalidParams "Task-augmented tool execution is not supported")
      else
        match (params.find? "name").bind nonemptyString? with
        | none => .error (requestError id kInvalidParams "tools/call requires a nonempty tool name")
        | some toolName =>
          let arguments := params.find? "arguments"
          if !arguments.all isObject then
            .error (requestError id kInvalidParams "tools/call arguments must be an object")
          else if !tools.any (·.knowsTool toolName) then
            .error (requestError id kInvalidParams "Unknown tool")
          else .ok ⟨id, toolName, arguments.getD (.object [])⟩

def dispatch (method : Bytes) (message id : Json) (notification : Bool) (state : LifecycleState)
    (tools : Option ToolService) : HandlerResult :=
  if method = bytes "ping" then
    if !validOptionalObjectParams message then
      if notification then notificationDiagnostic "ignored ping notification with invalid params"
      else requestError id kInvalidParams "ping params must be an object"
    else if notification then notificationDiagnostic "ignored ping notification"
    else ⟨some (makeResult id (.object [])), none, none⟩
  else if method = bytes "initialize" then
    if notification then notificationDiagnostic "ignored initialize notification"
    else handleInitialize message id state
  else if method = bytes "notifications/initialized" then
    if !notification then
      requestError id kInvalidRequest "notifications/initialized must be a notification"
    else if !validOptionalObjectParams message then
      notificationDiagnostic "ignored initialized notification with invalid params"
    else if state ≠ .awaitingInitializedNotification then
      notificationDiagnostic "ignored initialized notification in invalid lifecycle state"
    else ⟨none, none, some .ready⟩
  else if method = bytes "tools/list" then
    if notification then notificationDiagnostic "ignored tools/list notification"
    else handleToolsList message id state tools
  else if method = bytes "tools/call" ∧ notification then
    notificationDiagnostic "ignored tools/call notification"
  else if notification then notificationDiagnostic "ignored unsupported notification"
  else requestError id kMethodNotFound "Method not found"

/-! ### Bounded serialization -/

/-- The error that replaces an oversized response. -/
def responseTooLarge (id : Json) : Json := makeError id kResponseTooLarge "Response exceeds configured limit"

/-- The identifier an oversized response is replaced under. -/
def responseId (response : Json) : Json := ((response.find? "id").filter isValidId).getD .null

/-- The response, or what replaces it, and the state after it. -/
def serializeBounded (response : Json) (budget : ResourceBudget) (nextState : Option LifecycleState)
    (state : LifecycleState) : Option (ProcessResult × LifecycleState) := do
  let serialized ← response.dump
  if serialized.length ≤ budget.maxResponseBytes then
    return (⟨some serialized, none⟩, nextState.getD state)
  let serialized ← (responseTooLarge (responseId response)).dump
  if serialized.length ≤ budget.maxResponseBytes then
    return (⟨some serialized, some "replaced oversized response with bounded error"⟩, state)
  let serialized ← (responseTooLarge .null).dump
  if serialized.length ≤ budget.maxResponseBytes then
    return (⟨some serialized, some "replaced oversized response with uncorrelated bounded error"⟩, state)
  return (⟨none, some "response limit too small for a JSON-RPC error"⟩, state)

/-- A result that never changes the state. -/
def boundedResult (response : Json) (budget : ResourceBudget) : Option ProcessResult :=
  (serializeBounded response budget none .ready).map (·.1)

def toolErrorExecution (code message : String) : ToolExecutionResult := Scheduler.schedulerError code message

/-! ### Lines -/

/-- The limits of the protocol's preflight. -/
def kProtocolJsonLimits : JsonSafetyLimits where
  maxNestingDepth := 64
  maxTokens := 32 * 1024

namespace Server

variable (server : Server)

def requestTooLarge : Option ProcessResult :=
  boundedResult (makeError .null kRequestTooLarge "Request exceeds configured limit") server.budget

def formatToolResult (requestId : Json) (execution : ToolExecutionResult) : Option ProcessResult := do
  let text ← execution.structuredContent.dump
  let content := Json.array [.ofPairs [("type", .text "text"), ("text", .string text)]]
  let result := .ofPairs ([("content", content), ("isError", .boolean execution.isError)] ++
    if execution.isError then [] else [("structuredContent", execution.structuredContent)])
  boundedResult (makeResult requestId result) server.budget

def formatToolError (requestId : Json) (code message : String) : Option ProcessResult :=
  server.formatToolResult requestId (toolErrorExecution code message)

/-- An immediate result, with the handler's diagnostic if there is no other, and the server after it. -/
def respond (response : Json) (nextState : Option LifecycleState) (diagnostic : Option String := none) :
    Option (LineAction × Server) :=
  (serializeBounded response server.budget nextState server.state).map fun r =>
    ({ immediate := some { r.1 with diagnostic := r.1.diagnostic.or diagnostic } }, { server with state := r.2 })

/-- No response, only a diagnostic. -/
def ignore (diagnostic : String) : LineAction × Server := ({ immediate := some ⟨none, some diagnostic⟩ }, server)

/-- What the handlers' result comes to. -/
def conclude (handled : HandlerResult) : Option (LineAction × Server) :=
  match handled.response with
  | none =>
    some ({ immediate := some ⟨none, handled.diagnostic⟩ },
      { server with state := handled.nextState.getD server.state })
  | some response => server.respond response handled.nextState handled.diagnostic

def acceptCancellation (message requestId : Json) (notification : Bool) : Option (LineAction × Server) :=
  if !notification then
    server.respond (makeError requestId kInvalidRequest "notifications/cancelled must be a notification") none
  else
    match (message.find? "params").filter isObject with
    | none => some (server.ignore "ignored cancellation notification with invalid params")
    | some params =>
      match (params.find? "requestId").filter isValidId with
      | none => some (server.ignore "ignored malformed cancellation notification")
      | some cancelledId =>
        if !(params.find? "reason").all isString then
          some (server.ignore "ignored malformed cancellation notification")
        else some ({ cancellation := some ⟨cancelledId⟩ }, server)

/-- A message whose envelope is valid. -/
def acceptMethod (method : Bytes) (message requestId : Json) (notification : Bool) : Option (LineAction × Server) :=
  if method = bytes "tools/call" ∧ !notification then
    match prepareToolsCall message requestId server.state server.tools with
    | .error handled => server.conclude handled
    | .ok call => some ({ toolCall := some call }, server)
  else if method = bytes "notifications/cancelled" then server.acceptCancellation message requestId notification
  else server.conclude (dispatch method message requestId notification server.state server.tools)

/-- The bytes of a string value. -/
def string? : Json → Option Bytes
  | .string s => some s
  | _ => none

/-- The line was read as this value. -/
def acceptMessage (message : Json) : Option (LineAction × Server) :=
  if !message.isObject then server.respond (makeError .null kInvalidRequest "Invalid Request") none
  else
    let id := message.find? "id"
    let notification := id.isNone
    if !id.all isValidId then server.respond (makeError .null kInvalidRequest "Invalid Request") none
    else
      match (message.find? "method").bind string? with
      | none => server.respond (makeError (id.getD .null) kInvalidRequest "Invalid Request") none
      | some method =>
        if !(message.find? "jsonrpc").any (isText "2.0") then
          if notification then some (server.ignore "ignored malformed notification envelope")
          else server.respond (makeError (id.getD .null) kInvalidRequest "Invalid Request") none
        else server.acceptMethod method message (id.getD .null) notification

def acceptLine (N : Nlohmann) (line : Bytes) : Option (LineAction × Server) :=
  if server.budget.maxRequestBytes < line.length then
    server.requestTooLarge.map fun r => ({ immediate := some r }, server)
  else
    match preflightJson N line kProtocolJsonLimits with
    | .ok =>
      match N.parse line with
      | none => server.respond (makeError .null kParseError "Parse error") none
      | some message => server.acceptMessage message
    | .invalid => server.respond (makeError .null kParseError "Parse error") none
    | _ => server.respond (makeError .null kInvalidRequest "Invalid Request") none

/-- `processLine`, given what the service answers to the call. -/
def processLine (N : Nlohmann) (execute : Bytes → Json → ToolExecutionResult) (line : Bytes) :
    Option (ProcessResult × Server) := do
  let (action, server') ← server.acceptLine N line
  match action.immediate, action.cancellation, action.toolCall with
  | some result, _, _ => return (result, server')
  | none, some _, _ => return (⟨none, none⟩, server')
  | none, none, none => return (⟨none, some "tool request could not be executed"⟩, server')
  | none, none, some call =>
    if server'.tools.isNone then return (⟨none, some "tool request could not be executed"⟩, server')
    else return (← server'.formatToolResult call.requestId (execute call.name call.arguments), server')

end Server

end NativeMcp
