import NativeMcp.Agent.Authorization
import NativeMcp.Agent.ProviderRequests
import NativeMcp.Agent.TranscriptBounds

/-!
# The orchestrator

`Orchestrator.run` captures the tool surface, then asks the provider turn by turn and executes what it proposes, one
call after the other.  A response is prepared as a whole before its first call is authorized.  What happens around a
run is its `Surroundings`: the child, the provider, the readings of the clock and of the cancellation are arbitrary, and
so are the identities of the objects that `authorize` returns.
-/

namespace NativeMcp.Agent

/-! ### Time -/

/-- `int(q)` -/
def truncate (q : Rat) : Int := if 0 ≤ q then q.floor else -(-q).floor

structure Deadline where
  absolute : Rat

namespace Deadline

variable (d : Deadline) (now : Rat)

/-- `Deadline.remaining_ms` -/
def remainingMs : Int := truncate ((d.absolute - now) * 1000)

/-- `deadline.remaining_ms() <= 0` -/
def expired : Bool := d.remainingMs now ≤ 0

/-- `Deadline.timeout` -/
def timeout (configured : Nat) : Except Raised Int :=
  if d.expired now then .error (.provider .mcpTimeout) else .ok (min (configured : Int) (d.remainingMs now))

end Deadline

/-! ### What happens around a run -/

/-- What `BoundedProvider.turn` returns. -/
inductive TurnResponse where
  | final (role : MessageRole) (content : Str)
  /-- A sequence; `none` is an item that is no `ProviderToolCallProposal`. -/
  | proposals (items : List (Option ProviderToolCallProposal))
  /-- Neither a final message nor a sequence. -/
  | other

/-- How `McpStdioClient.close` ends. -/
inductive CloseMode where
  | none
  | terminate
  | kill
  | unreaped
  deriving DecidableEq, Repr

/-- What happens around one call. -/
structure CallSurroundings where
  cancelled : Bool
  now : Rat
  object : Nat
  turn : Turn

/-- What happens around one turn of the provider. -/
structure TurnSurroundings where
  cancelled : Bool
  startedAt : Rat
  response : Except Raised TurnResponse
  answeredAt : Rat
  calls : Nat → CallSurroundings

structure RunSurroundings where
  startedAt : Rat
  server : Server
  turns : Nat → TurnSurroundings
  shutdown : CloseMode
  /-- How the child is closed when the first shutdown has raised. -/
  lastShutdown : CloseMode
  context : Str

/-- The deadline of the run. -/
def RunSurroundings.deadline (env : RunSurroundings) (limits : Limits) : Deadline :=
  ⟨env.startedAt + limits.orchestrationTotalTimeoutMs / 1000⟩

/-! ### The state of a run -/

structure Evidence where
  actionId : LocalActionIdentity
  responseId : Nat
  result : PyVal

/-- `Orchestrator`: what a run changes. -/
structure Orchestrator where
  client : Client
  actions : List Str := []
  callIds : List (Str × Bytes) := []
  evidence : List Evidence := []
  order : List LocalActionIdentity := []
  transcript : BoundedTranscript := BoundedTranscript.create

/-- `str(n)` -/
def decimalText (n : Nat) : Str := (Nat.toDigits 10 n).map Char.toNat

/-- The identifier of the last request of this kind: `last_initialize.request_id`, `last_tools_list.request_id`. -/
def Client.lastRequest (c : Client) (method : Method) : Option Nat :=
  c.history.reverse.findSome? fun event =>
    match event with
    | .sent x => if x.method = method then some x.id else none
    | _ => none

namespace Orchestrator

def withClient (o : Orchestrator) (client : Client) : Orchestrator := { o with client }

def withTranscript (o : Orchestrator) (transcript : BoundedTranscript) : Orchestrator := { o with transcript }

/-- A call is registered when it has been authorized. -/
def register (o : Orchestrator) (callId : Str) (content : Bytes) (action : LocalActionIdentity) : Orchestrator :=
  { o with callIds := (callId, content) :: o.callIds, actions := action.value :: o.actions }

def conclude (o : Orchestrator) (e : Evidence) : Orchestrator :=
  { o with order := o.order ++ [e.actionId], evidence := o.evidence ++ [e] }

end Orchestrator

/-- A proposal that has been prepared. -/
structure Prepared where
  proposal : ProviderToolCallProposal
  action : LocalActionIdentity
  content : Bytes
  arguments : PyVal

structure OrchestrationOutcome where
  outcome : String
  evidence : List Evidence
  executionOrder : List LocalActionIdentity
  transcript : Bytes

/-- `_provider_response_value` -/
def providerResponseValue : TurnResponse → Except Raised PyVal
  | .final role content => .ok (.dict false [(chars "kind", .str (chars "final")),
      (chars "role", .str (chars role.value)), (chars "content", .str content)])
  | .proposals items => do
    let calls ← items.mapM fun item => do
      let some p := item | .error (.provider .invalidToolProposal)
      return p.value p.arguments
    return .dict false [(chars "kind", .str (chars "proposals")), (chars "calls", .list calls)]
  | .other => .error .other

/-- `Orchestrator._action` -/
def orchestratedAction (L : Library) (context : Str) (surface : ToolSurface) (p : ProviderToolCallProposal) :
    Except Raised LocalActionIdentity := do
  let text ← canon L (.dict false [(chars "surface", .str (surface.identity.map UInt8.toNat)),
    (chars "name", .str p.name), (chars "arguments", p.arguments), (chars "context", .str context)])
  LocalActionIdentity.ofText (hashText L text)

namespace Orchestrator

section

variable (L : Library) (sensitive : Str → List Str → Nat → Str) (limits : Limits)

/-- `self.transcript.add(event, **metadata)` -/
def add (kind : ControlKind) (metadata : List (MetadataKey × Str)) : Program Orchestrator Raised Unit := fun o =>
  match o.transcript.add L limits (.str (chars kind.value)) (metadata.map fun p => (p.1.text, .str p.2)) with
  | (t, .ok _) => (.returned (), o.withTranscript t)
  | (t, .error raised) => (.raised raised, o.withTranscript t)

def onClient {α : Type} (x : Program Client Raised α) : Program Orchestrator Raised α :=
  Program.zoom Orchestrator.client (fun c o => o.withClient c) x

/-- `transcript.add("skipped", …)` for each of these. -/
def skip : List ProviderToolCallProposal → Program Orchestrator Raised Unit
  | [] => return ()
  | p :: later => do
    add L limits .skipped [(.proposal, p.callId.text)]
    skip later

/-! ### `_outcome` -/

/-- The events of a shutdown. -/
def shutdownEvents : CloseMode → List ControlKind
  | .none => [.shutdownComplete]
  | .terminate => [.shutdownTerminate, .shutdownComplete]
  | .kill => [.shutdownTerminate, .shutdownKill, .shutdownComplete]
  | .unreaped => [.shutdownTerminate, .shutdownKill, .shutdownUnreaped]

def addAll : List ControlKind → Program Orchestrator Raised Unit
  | [] => return ()
  | kind :: kinds => do
    add L limits kind []
    addAll kinds

/-- `Orchestrator._outcome` -/
def outcome (mode : CloseMode) (verdict : String) : Program Orchestrator Raised OrchestrationOutcome := do
  add L limits .shutdownStart []
  addAll L limits (shutdownEvents mode)
  add L limits .outcome [(.outcome, chars verdict)]
  let o ← Program.get
  let raw := o.transcript.toJsonBytes L
  let _ ← Program.lift (parseBoundedTranscript L raw limits)
  return ⟨verdict, o.evidence, o.order, raw⟩

/-! ### One response -/

/-- The arguments of a proposal as they are authorized. -/
def proposedArguments (tool : AdvertisedTool) (p : ProviderToolCallProposal) : Except Raised PyVal := do
  let frozen ← freezeJson limits none 0 p.arguments
  validateSchema limits frozen tool.parameters
  return frozen

/-- The proposal repeats a call of the run or of the response. -/
def repeats (o : Orchestrator) (prepared : List Prepared) (p : ProviderToolCallProposal)
    (action : LocalActionIdentity) : Bool :=
  (o.callIds.any fun q => q.1 == p.callId.text) || o.actions.contains action.value ||
    prepared.any fun q => q.proposal.callId.text == p.callId.text || q.action.value == action.value

/-- The loop that prepares the proposals: the prepared ones, or the outcome of the run. -/
def prepare (context : Str) (surface : ToolSurface) :
    List Prepared → List (Option ProviderToolCallProposal) → Program Orchestrator Raised (Except String (List Prepared))
  | prepared, [] => return .ok prepared
  | _, none :: _ => do
    add L limits .proposalRejected [(.proposal, chars "invalid")]
    return .error "rejected"
  | prepared, some p :: later =>
    match surface.tool? p.name with
    | none => do
      add L limits .proposalRejected [(.proposal, p.callId.text)]
      return .error "rejected"
    | some tool =>
      match proposedArguments limits tool p with
      | .error .other => Program.raise .other
      | .error (.provider _) => do
        add L limits .proposalRejected [(.proposal, p.callId.text)]
        skip L limits (later.filterMap id)
        return .error "rejected"
      | .ok frozen => do
        let content ← Program.lift (canon L (.dict false [(chars "name", .str p.name), (chars "arguments", frozen)]))
        let action ← Program.lift (orchestratedAction L context surface p)
        let o ← Program.get
        if o.repeats prepared p action then do
          add L limits .proposalDuplicate [(.proposal, p.callId.text)]
          return .error "duplicate"
        else prepare context surface (prepared ++ [⟨p, action, content, frozen⟩]) later

/-- The `try` around one call. -/
def attemptCall (env : CallSurroundings) (q : Prepared) (a : Action) : Program Orchestrator Raised Unit := do
  let o ← Program.get
  add L limits .mcpRequest [(.action, q.action.value), (.response, decimalText o.client.nextId)]
  let response ← onClient (execute L sensitive limits env.turn env.object (some a))
  Program.modify fun o => o.conclude ⟨q.action, response.requestId, response.result⟩
  add L limits .mcpResponse [(.action, q.action.value), (.response, decimalText response.requestId)]
  add L limits .evidenceValidated [(.action, q.action.value), (.response, decimalText response.requestId)]

/-- The call of a prepared proposal: it is authorized and registered, then sent. -/
def performCall (env : CallSurroundings) (q : Prepared) : Program Orchestrator Raised (Except Raised Unit) := do
  let a ← onClient (authorize L limits env.object (some q.action) q.proposal.callId.text q.proposal.name q.arguments)
  Program.modify fun o => o.register q.proposal.callId.text q.content q.action
  add L limits .authorized [(.action, q.action.value), (.proposal, q.proposal.callId.text)]
  Program.attempt (attemptCall L sensitive limits env q a)

/-- The loop that executes the prepared proposals, from the `k`-th on: the outcome of the run, or none if it goes on. -/
def executeAll (deadline : Deadline) (calls : Nat → CallSurroundings) :
    Nat → List Prepared → Program Orchestrator Raised (Option String)
  | _, [] => return none
  | k, q :: later => do
    let o ← Program.get
    if (calls k).cancelled then do
      add L limits .cancelled []
      add L limits .skipped [(.proposal, q.proposal.callId.text)]
      return some "cancelled"
    else if limits.mcpTotalCalls ≤ o.order.length || deadline.expired (calls k).now then do
      add L limits .deadline []
      add L limits .skipped [(.proposal, q.proposal.callId.text)]
      return some "deadline"
    else
      match ← performCall L sensitive limits (calls k) q with
      | .ok _ => executeAll deadline calls (k + 1) later
      | .error .other => Program.raise .other
      | .error (.provider kind) => do
        add L limits .failure [(.failure, chars kind.value)]
        skip L limits (later.map (·.proposal))
        return some (if kind = .cancelled then "cancelled" else "failed")

/-! ### The run -/

/-- What becomes of a response that is within its bound. -/
def respond (context : Str) (deadline : Deadline) (surface : ToolSurface) (env : TurnSurroundings) :
    TurnResponse → Program Orchestrator Raised (Option String)
  | .final _ _ => return some "final"
  | .proposals items =>
    if limits.proposedToolCallCount < items.length || limits.mcpCallsPerTurn < items.length then
      return some "rejected"
    else do
      match ← prepare L limits context surface [] items with
      | .error verdict => return some verdict
      | .ok prepared => executeAll L sensitive limits deadline env.calls 0 prepared
  | .other => Program.raise .other

/-- A turn of the provider, as far as its response. -/
def ask (request : ProviderRequest) (deadline : Deadline) (surface : ToolSurface) (k : Nat) (env : TurnSurroundings) :
    Program Orchestrator Raised TurnResponse := do
  let _ ← Program.lift (deadline.timeout env.startedAt limits.providerTotalTimeoutMs)
  let bounded ← Program.lift (request.withTools surface.tools)
  let raw ← Program.lift (bounded.toJsonBytes L limits)
  add L limits .providerTurnStart [(.turn, decimalText k), (.bytes, decimalText raw.length)]
  Program.lift env.response

/-- The `k`-th turn: the outcome of the run, or none if it goes on. -/
def turn (request : ProviderRequest) (context : Str) (deadline : Deadline) (surface : ToolSurface) (k : Nat)
    (env : TurnSurroundings) : Program Orchestrator Raised (Option String) := do
  if env.cancelled then return some "cancelled"
  else do
    let response ← ask L limits request deadline surface k env
    if deadline.expired env.answeredAt then return some "deadline"
    else
      match providerResponseValue response >>= canon L with
      | .error _ => return some "failed"
      | .ok encoded =>
        if limits.providerResponseBytes < encoded.length then return some "failed"
        else do
          add L limits .providerTurnResponse [(.turn, decimalText k), (.bytes, decimalText encoded.length)]
          respond L sensitive limits context deadline surface env response

/-- The turns from the `k`-th on, `n` of which are left. -/
def turns (request : ProviderRequest) (context : Str) (deadline : Deadline) (surface : ToolSurface)
    (env : Nat → TurnSurroundings) : Nat → Nat → Program Orchestrator Raised String
  | _, 0 => return "budget"
  | k, n + 1 => do
    match ← turn L sensitive limits request context deadline surface k (env k) with
    | some verdict => return verdict
    | none => turns request context deadline surface env (k + 1) n

/-- The start of a run, which captures the surface. -/
def capture (server : Server) : Program Orchestrator Raised ToolSurface := do
  add L limits .processStart []
  add L limits .initializeRequest []
  let surface ← onClient (initializeAndCapture L limits server)
  let o ← Program.get
  add L limits .initializeResponse [(.response, decimalText ((o.client.lastRequest .initialization).getD 1))]
  add L limits .initializedNotification []
  add L limits .toolsListRequest []
  add L limits .toolsListResponse [(.response, decimalText ((o.client.lastRequest .toolsList).getD 2))]
  add L limits .surfaceCaptured [(.surface, surface.identity.map UInt8.toNat)]
  return surface

/-- The `try` of `run`, as far as its outcome. -/
def body (env : RunSurroundings) (request : ProviderRequest) : Program Orchestrator Raised String := do
  let surface ← capture L limits env.server
  turns L sensitive limits request env.context (env.deadline limits) surface env.turns 0 limits.providerTurnCount

/-- The `except` of `run`. -/
def recover (env : RunSurroundings) : Raised → Program Orchestrator Raised OrchestrationOutcome
  | .other => Program.raise .other
  | .provider kind =>
    if kind = .cancelled then do
      add L limits .cancelled []
      outcome L limits env.lastShutdown "cancelled"
    else if kind = .mcpTimeout || kind = .totalRequestTimeout then do
      add L limits .deadline []
      outcome L limits env.lastShutdown "deadline"
    else do
      add L limits .failure [(.failure, chars kind.value)]
      outcome L limits env.lastShutdown "failed"

/-- `Orchestrator.run` -/
def run (env : RunSurroundings) (request : ProviderRequest) : Program Orchestrator Raised OrchestrationOutcome :=
  -- the outcome is computed within the `try`: what it raises is handled like the rest
  Program.handle (body L sensitive limits env request >>= outcome L limits env.shutdown) (recover L limits env)

end

end Orchestrator

end NativeMcp.Agent
