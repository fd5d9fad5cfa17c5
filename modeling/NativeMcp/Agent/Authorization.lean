import NativeMcp.Agent.StdioClient
import NativeMcp.Lib.Monitor
import NativeMcp.Lib.TransitionSystem

/-!
# Authority over tool calls

`authorize` notes what it has allowed under the identity of the object that it returns; `execute` takes any object and
compares it with the note.  Objects can be copied, forged and changed, their identities are used again, and the
dictionary of the arguments is shared between an object and its note.  What binds a call to an authorization is the
text of the arguments, which the note keeps and `execute` computes again (`execute_cases`).
-/

namespace NativeMcp.Agent

/-! ### The results of tools -/

/-- The text of a block of the content, redacted. -/
def contentBlock (sensitive : Str → List Str → Nat → Str) (limits : Limits) (block : PyVal) :
    Except Raised PyVal := do
  let item ← closedObject block ["type", "text"] ["type", "text"]
  require ((item.get? "type").any (PyVal.isText "text")) .mcpProtocolFailure
  let some text := (item.get? "text").bind PyVal.text? | .error protocolFailure
  let some size := encodedSize text | .error .other
  require (size ≤ limits.mcpEvidenceResponseBytes) .mcpProtocolFailure
  let shown := redactJson sensitive [] 4096 (.dict false [(chars "message", .str text)])
  return .dict false [(chars "type", .str (chars "text")), (chars "text", (shown.get? "message").getD .none)]

/-- What becomes of `structuredContent`; a tool with an output schema must send it unless it reports an error. -/
def structuredContent (sensitive : Str → List Str → Nat → Str) (limits : Limits)
    (outputSchema content : Option PyVal) (isError : Bool) : Except Raised (List (Str × PyVal)) :=
  match content with
  | none => do
    require (outputSchema.isNone || isError) .mcpProtocolFailure
    return []
  | some value => do
    let structured ← freezeJson (mcpEvidenceLimits limits) (some limits.mcpEvidenceResponseBytes) 0 value
    require structured.isDict .mcpProtocolFailure
    match outputSchema with
    | none => pure ()
    | some schema => if isError then pure () else validateOutputValue limits 0 structured schema
    return [(chars "structuredContent", redactJson sensitive [] 4096 structured)]

/-- `_validate_tool_result` -/
def validateToolResult (sensitive : Str → List Str → Nat → Str) (limits : Limits) (value : PyVal)
    (outputSchema : Option PyVal) : Except Raised PyVal := do
  let obj ← closedObject value ["content", "structuredContent", "isError", "_meta"] ["content"]
  let some content := (obj.get? "content").bind PyVal.sequence? | .error protocolFailure
  require (content.length ≤ limits.objectArrayItems) .mcpProtocolFailure
  require ((obj.get? "isError").all isBool) .mcpProtocolFailure
  match obj.get? "_meta" with
  | none => pure ()
  | some attached => do
    let metadata ← freezeJson (mcpEvidenceLimits limits) (some limits.mcpEvidenceResponseBytes) 0 attached
    require metadata.isDict .mcpProtocolFailure
  let blocks ← content.mapM (contentBlock sensitive limits)
  let isError := (obj.get? "isError").any fun v => match v with | .bool b => b | _ => false
  let structured ← structuredContent sensitive limits outputSchema (obj.get? "structuredContent") isError
  freezeJson (mcpEvidenceLimits limits) (some limits.mcpEvidenceResponseBytes) 0
    (.dict false ((chars "content", .list blocks) ::
      ((obj.get? "isError").map fun v => (chars "isError", v)).toList ++ structured))

/-! ### The operations -/

/-- An `AuthorizedMcpAction`. -/
structure Action extends Authorization where
  issuer : Option Nat

/-- `a == b` of two of the tuples in `_authorizations`. -/
def Authorization.equal (a b : Authorization) : Bool :=
  a.surfaceIdentity == b.surfaceIdentity && a.actionId == b.actionId && a.proposalId == b.proposalId &&
    a.name == b.name && a.arguments.equal b.arguments && a.argumentBytes == b.argumentBytes

namespace Client

/-- The note of an authorization. -/
def grant (c : Client) (object : Nat) (a : Authorization) : Client :=
  { c with authorizations := (object, a) :: c.authorizations, history := c.history ++ [.authorized a] }

/-- The caller changes the dictionary of an object's arguments, and with it the one in the note. -/
def alter (c : Client) (object : Nat) (arguments : PyVal) : Client :=
  { c with authorizations := c.authorizations.map fun p =>
      if p.1 = object then (p.1, { p.2 with arguments }) else p }

end Client

/-- `MCP_PROTOCOL_VERSION` -/
def mcpProtocolVersion : String := "2025-11-25"

/-- `MCP_CLIENT_VERSION` -/
def mcpClientVersion : String := "0.11.0"

def initializeParams : PyVal :=
  .dict false [(chars "protocolVersion", .str (chars mcpProtocolVersion)), (chars "capabilities", .dict false []),
    (chars "clientInfo", .dict false [(chars "name", .str (chars "native-mcp-agent")),
      (chars "version", .str (chars mcpClientVersion))])]

/-- What `initialize_and_capture` checks of the response. -/
def checkInitialize (result : PyVal) : Except Raised Unit := do
  let value ← closedObject result ["protocolVersion", "capabilities", "serverInfo", "instructions", "_meta"]
    ["protocolVersion", "capabilities", "serverInfo"]
  require ((value.get? "protocolVersion").any (PyVal.isText mcpProtocolVersion)) .mcpProtocolFailure
  require (["capabilities", "serverInfo", "_meta"].all fun key => (value.get? key).all PyVal.isDict) .mcpProtocolFailure

def callParams (name : Str) (arguments : PyVal) : PyVal :=
  .dict false [(chars "name", .str name), (chars "arguments", arguments)]

/-- What `execute` sends of an action's arguments once they have passed. -/
def checkedArguments (limits : Limits) (tool : AdvertisedTool) (arguments : PyVal) : Except Raised PyVal := do
  let frozen ← freezeJson limits none 0 arguments
  validateSchema limits frozen tool.parameters
  return frozen

section

variable (L : Library) (sensitive : Str → List Str → Nat → Str) (limits : Limits)

/-- `initialize_and_capture` -/
def initializeAndCapture (server : Server) : Program Client Raised ToolSurface := do
  let init ← request L limits (server.turns 0) .initialization initializeParams
  Program.lift (checkInitialize init.result)
  Program.lift server.notification
  Program.modify fun c => c.record .notified
  let surface ← listAndCapture L limits server 1
  Program.modify fun c => c.setSurface surface
  return surface

/-- `revalidate_surface` -/
def revalidateSurface (server : Server) : Program Client Raised Unit := do
  let c ← Program.get
  match c.surface with
  | none => Program.raise (.provider .localPolicyFailure)
  | some surface => do
    let later ← listAndCapture L limits server 0
    Program.lift (require (later.identity == surface.identity) .mcpProtocolFailure)

/-- What `authorize` notes of an action under this surface. -/
def authorization (surface : ToolSurface) (actionId : Option LocalActionIdentity) (proposalId name : Str)
    (arguments : PyVal) : Except Raised Authorization := do
  let frozen ← freezeJson limits none 0 arguments
  require frozen.isDict .localAuthorizationFailure
  let some tool := surface.tool? name | .error (.provider .localAuthorizationFailure)
  validateSchema limits frozen tool.parameters
  let text ← canon L frozen
  return ⟨surface.identity, actionId, proposalId, name, frozen, text⟩

/-- `authorize`, whose result is this object. -/
def authorize (object : Nat) (actionId : Option LocalActionIdentity) (proposalId name : Str) (arguments : PyVal) :
    Program Client Raised Action := do
  let c ← Program.get
  match c.surface with
  | none => Program.raise (.provider .localAuthorizationFailure)
  | some surface => do
    let a ← Program.lift (authorization L limits surface actionId proposalId name arguments)
    Program.modify fun c => c.grant object a
    return ⟨a, some c.issuer⟩

/-- What `execute` has checked before its request. -/
structure Admission where
  surface : ToolSurface
  name : Str
  arguments : PyVal

/-- The checks of `execute` before its request. -/
def admission (c : Client) (object : Nat) (action : Option Action) : Except Raised Admission := do
  let some action := action | .error (.provider .localAuthorizationFailure)
  let some surface := c.surface | .error (.provider .localAuthorizationFailure)
  require (action.issuer == some c.issuer && action.surfaceIdentity == surface.identity &&
    (c.authorizations.lookup object).any (·.equal action.toAuthorization)) .localAuthorizationFailure
  let some tool := surface.tool? action.name | .error (.provider .localAuthorizationFailure)
  require action.actionId.isSome .localAuthorizationFailure
  -- the arguments may have been changed in place since they were authorized
  let frozen ← reclassify .localAuthorizationFailure (checkedArguments limits tool action.arguments)
  require frozen.isDict .localAuthorizationFailure
  let text ← canon L frozen
  require (text == action.argumentBytes && action.argumentBytes.length ≤ limits.toolArgumentBytes)
    .localAuthorizationFailure
  return ⟨surface, action.name, frozen⟩

/-- `self.surface.output_schemas.get(name)` -/
def ToolSurface.outputSchema? (surface : ToolSurface) (name : Str) : Option PyVal :=
  match (surface.outputSchemas.members?).bind (List.lookup name) with
  | some .none => none
  | schema => schema

/-- `execute` -/
def execute (turn : Turn) (object : Nat) (action : Option Action) : Program Client Raised Response := do
  let c ← Program.get
  let admitted ← Program.lift (admission L limits c object action)
  let response ← request L limits turn .toolsCall (callParams admitted.name admitted.arguments)
  let result ← Program.lift
    (validateToolResult sensitive limits response.result (admitted.surface.outputSchema? admitted.name))
  return { response with result }

/-! ### What `execute` does -/

variable {L limits} in
/-- What has passed the checks of `execute` was authorized: a note of the object has the surface's identity, the tool's
name and the text of the arguments, and these conform to the tool's schema. -/
theorem admission_spec {c : Client} {object : Nat} {action : Option Action} {admitted : Admission}
    (h : admission L limits c object action = .ok admitted) :
    c.surface = some admitted.surface ∧
      (∃ note, (object, note) ∈ c.authorizations ∧ note.surfaceIdentity = admitted.surface.identity ∧
        note.name = admitted.name ∧ canon L admitted.arguments = .ok note.argumentBytes) ∧
      ∃ tool, admitted.surface.tool? admitted.name = some tool ∧
        validateSchema limits admitted.arguments tool.parameters = .ok () := by
  unfold admission at h
  cases action with
  | none => cases h
  | some action =>
    cases hsurface : c.surface with
    | none =>
      rw [hsurface] at h
      cases h
    | some surface =>
      rw [hsurface] at h
      obtain ⟨_, hnote, h⟩ := ok_of_bind h
      have hmatches := require_eq_ok hnote
      rw [Bool.and_eq_true, Bool.and_eq_true] at hmatches
      obtain ⟨⟨-, hidentity⟩, hlookup⟩ := hmatches
      cases htool : surface.tool? action.name with
      | none =>
        rw [htool] at h
        cases h
      | some tool =>
        rw [htool] at h
        obtain ⟨_, -, h⟩ := ok_of_bind h
        obtain ⟨frozen, hfrozen, h⟩ := ok_of_bind h
        obtain ⟨_, -, h⟩ := ok_of_bind h
        obtain ⟨text, htext, h⟩ := ok_of_bind h
        obtain ⟨_, hbytes, h⟩ := ok_of_bind h
        cases h
        -- the note is of this object, and has the action's text
        rw [Option.any_eq_true] at hlookup
        obtain ⟨note, hmem, hequal⟩ := hlookup
        simp only [Authorization.equal, Bool.and_eq_true, beq_iff_eq] at hequal hidentity
        obtain ⟨⟨⟨⟨⟨hsurfaceIdentity, -⟩, -⟩, hname⟩, -⟩, hargumentBytes⟩ := hequal
        have hsame : text = action.argumentBytes := by
          have hboth := require_eq_ok hbytes
          rw [Bool.and_eq_true, beq_iff_eq] at hboth
          exact hboth.1
        obtain ⟨before, after, hsplit, -⟩ := List.lookup_eq_some_iff.1 hmem
        refine ⟨rfl, ⟨note, ?_, hsurfaceIdentity.trans hidentity, hname, ?_⟩, tool, htool, ?_⟩
        · rw [hsplit]
          exact List.mem_append_right _ List.mem_cons_self
        · rw [htext, hsame, hargumentBytes]
        · obtain ⟨frozen', -, hvalid⟩ := ok_of_bind (ok_of_reclassify hfrozen)
          obtain ⟨_, hvalid, hfrozen'⟩ := ok_of_bind hvalid
          cases hfrozen'
          exact hvalid

variable {L} in
theorem canon_callRequest (id : Nat) (name : Str) {arguments : PyVal} {text : Bytes}
    (h : canon L arguments = .ok text) :
    ∃ raw, canon L (requestValue id .toolsCall (callParams name arguments)) = .ok raw := by
  unfold requestValue callParams
  simp only [canon, canonMembers, h, Except.map, Except.bind]
  exact ⟨_, rfl⟩

/-- A call leaves the client as it was, or takes an identifier because its text is too long, or is written. -/
theorem execute_cases (turn : Turn) (object : Nat) (action : Option Action) (c : Client) :
    (∃ raised, execute L sensitive limits turn object action c = (.raised raised, c)) ∨
      ∃ admitted, admission L limits c object action = .ok admitted ∧
        ((∃ raw, canon L (requestValue c.nextId .toolsCall (callParams admitted.name admitted.arguments)) = .ok raw ∧
            limits.mcpRequestBytes < raw.length + 1 ∧
            execute L sensitive limits turn object action c = (.raised (.provider .requestTooLarge), c.takeId)) ∨
          ∃ ending, execute L sensitive limits turn object action c = (ending, c.takeId.record (.sent
            ⟨c.nextId, .toolsCall, callParams admitted.name admitted.arguments, turn.line⟩))) := by
  unfold execute
  rw [Program.bind_apply, Program.get_apply]
  dsimp only
  cases hadmission : admission L limits c object action with
  | error raised => exact .inl ⟨raised, rfl⟩
  | ok admitted =>
    rw [Program.lift_ok, Program.bind_apply, Program.pure_apply]
    dsimp only
    rw [Program.bind_apply]
    rcases request_cases L limits turn .toolsCall (callParams admitted.name admitted.arguments) c with
      ⟨raised, hrequest⟩ | ⟨raised, htext, hrequest⟩ | ⟨text, x, -, hx, hrequest⟩
    · rw [hrequest]
      exact .inl ⟨raised, rfl⟩
    · rw [hrequest]
      obtain ⟨-, ⟨note, -, -, -, harguments⟩, -⟩ := admission_spec hadmission
      obtain ⟨raw, hraw⟩ := canon_callRequest c.nextId admitted.name harguments
      refine .inr ⟨admitted, rfl, .inl ⟨raw, hraw, ?_⟩⟩
      rw [requestText_eq hraw] at htext
      by_cases hle : raw.length + 1 ≤ limits.mcpRequestBytes
      · rw [if_pos hle] at htext
        cases htext
      · rw [if_neg hle] at htext
        cases htext
        exact ⟨Nat.lt_of_not_le hle, rfl⟩
    · rw [hrequest]
      refine .inr ⟨admitted, rfl, .inr ?_⟩
      rw [← hx]
      cases readResponse L limits x with
      | error raised => exact ⟨_, rfl⟩
      | ok response =>
        rw [Program.lift_ok, Program.pure_apply]
        dsimp only
        rw [Program.bind_apply]
        cases validateToolResult sensitive limits response.result
            (admitted.surface.outputSchema? admitted.name) with
        | error raised => exact ⟨_, rfl⟩
        | ok result => exact ⟨_, rfl⟩

/-! ### Runs -/

/-- What the client's owner does, and what the child does meanwhile. -/
inductive Operation where
  | initializeAndCapture (server : Server)
  | revalidateSurface (server : Server)
  | authorize (object : Nat) (actionId : Option LocalActionIdentity) (proposalId name : Str) (arguments : PyVal)
  | execute (turn : Turn) (object : Nat) (action : Option Action)
  | alter (object : Nat) (arguments : PyVal)

/-- The client after an operation, however that ended. -/
def Operation.perform (c : Client) : Operation → Client
  | .initializeAndCapture server => (NativeMcp.Agent.initializeAndCapture L limits server c).2
  | .revalidateSurface server => (NativeMcp.Agent.revalidateSurface L limits server c).2
  | .authorize object actionId proposalId name arguments =>
    (NativeMcp.Agent.authorize L limits object actionId proposalId name arguments c).2
  | .execute turn object action => (NativeMcp.Agent.execute L sensitive limits turn object action c).2
  | .alter object arguments => c.alter object arguments

def clientSystem : TransitionSystem Client where
  init c := ∃ issuer, c = { issuer }
  next c c' := ∃ op : Operation, c' = op.perform L sensitive limits c

/-- The surface that was captured last. -/
def lastSurface (events : List Event) : Option ToolSurface :=
  events.foldl (fun last event => match event with | .captured surface => some surface | _ => last) none

/-- The surface has a tool of this name to whose schema the arguments conform. -/
def Admits (surface : ToolSurface) (name : Str) (arguments : PyVal) : Prop :=
  ∃ tool, surface.tool? name = some tool ∧ validateSchema limits arguments tool.parameters = .ok ()

/-- A call carries the name and the text of the arguments of an authorization for the identity of the surface captured
last, and this surface admits them. -/
def CallAuthorized (before : List Event) (x : Exchange) : Prop :=
  ∃ surface a arguments, lastSurface before = some surface ∧ .authorized a ∈ before ∧
    a.surfaceIdentity = surface.identity ∧ x.params = callParams a.name arguments ∧
    canon L arguments = .ok a.argumentBytes ∧ Admits limits surface a.name arguments

/-- What an event says of those before it. -/
def EventJustified (before : List Event) : Event → Prop
  | .sent x => x.method = .toolsCall → CallAuthorized L limits before x
  | .authorized a => ∃ surface, lastSurface before = some surface ∧ a.surfaceIdentity = surface.identity ∧
      canon L a.arguments = .ok a.argumentBytes ∧ Admits limits surface a.name a.arguments
  | _ => True

/-- The invariant of the client. -/
structure Authority (c : Client) : Prop where
  surface : lastSurface c.history = c.surface
  notes : ∀ p ∈ c.authorizations, ∃ a, .authorized a ∈ c.history ∧ a.surfaceIdentity = p.2.surfaceIdentity ∧
    a.name = p.2.name ∧ a.argumentBytes = p.2.argumentBytes
  events : Monitor.Justified (EventJustified L limits) c.history

section

variable {L limits} {c : Client}

theorem lastSurface_concat (events : List Event) (event : Event) :
    lastSurface (events ++ [event]) = match event with
      | .captured surface => some surface
      | _ => lastSurface events := by
  unfold lastSurface
  rw [List.foldl_append]
  rfl

theorem Authority.start (issuer : Nat) : Authority L limits { issuer } where
  surface := rfl
  notes := fun _ hp => absurd hp List.not_mem_nil
  events := .nil

/-- One more event that is no capture, with the notes as they are. -/
theorem Authority.event (h : Authority L limits c) {event : Event} (nextId : Nat)
    (hlast : lastSurface (c.history ++ [event]) = lastSurface c.history)
    (hevent : EventJustified L limits c.history event) :
    Authority L limits { c with nextId, history := c.history ++ [event] } where
  surface := hlast.trans h.surface
  notes := by
    intro p hp
    obtain ⟨a, ha, hnote⟩ := h.notes p hp
    exact ⟨a, List.mem_append_left _ ha, hnote⟩
  events := h.events.concat hevent

theorem Authority.takeId (h : Authority L limits c) : Authority L limits c.takeId := ⟨h.surface, h.notes, h.events⟩

/-- Requests that are no calls. -/
theorem Authority.wrote (h : Authority L limits c) {nextId : Nat} {xs : List Exchange}
    (hxs : ∀ x ∈ xs, x.method = .toolsList) : Authority L limits (c.wrote nextId xs) := by
  induction xs using List.reverseRecOn with
  | nil =>
    have hsame : c.wrote nextId [] = { c with nextId } := by rw [Client.wrote, List.map_nil, List.append_nil]
    rw [hsame]
    exact ⟨h.surface, h.notes, h.events⟩
  | append_singleton xs x ih =>
    have hbefore := ih fun y hy => hxs y (List.mem_append_left _ hy)
    have hmethod := hxs x (List.mem_append_right _ (List.mem_singleton_self x))
    have hsame : c.wrote nextId (xs ++ [x]) =
        { c.wrote nextId xs with nextId, history := (c.wrote nextId xs).history ++ [.sent x] } := by
      rw [Client.wrote, List.map_append, List.map_singleton, ← List.append_assoc]
      rfl
    rw [hsame]
    refine hbefore.event _ (lastSurface_concat _ _) ?_
    intro hcall
    rw [hmethod] at hcall
    cases hcall

theorem Authority.setSurface (h : Authority L limits c) (surface : ToolSurface) :
    Authority L limits (c.setSurface surface) where
  surface := lastSurface_concat _ _
  notes := by
    intro p hp
    obtain ⟨a, ha, hnote⟩ := h.notes p hp
    exact ⟨a, List.mem_append_left _ ha, hnote⟩
  events := h.events.concat trivial

theorem Authority.grant (h : Authority L limits c) {object : Nat} {a : Authorization}
    (ha : EventJustified L limits c.history (.authorized a)) : Authority L limits (c.grant object a) where
  surface := (lastSurface_concat _ _).trans h.surface
  notes := by
    intro p hp
    rcases List.mem_cons.1 hp with rfl | hp
    · exact ⟨a, List.mem_append_right _ (List.mem_singleton_self _), rfl, rfl, rfl⟩
    · obtain ⟨a', ha', hnote⟩ := h.notes p hp
      exact ⟨a', List.mem_append_left _ ha', hnote⟩
  events := h.events.concat ha

/-- The fields that count are those that no change of the arguments reaches. -/
theorem Authority.alter (h : Authority L limits c) (object : Nat) (arguments : PyVal) :
    Authority L limits (c.alter object arguments) where
  surface := h.surface
  notes := by
    intro p hp
    obtain ⟨q, hq, rfl⟩ := List.mem_map.1 hp
    obtain ⟨a, ha, hidentity, hname, htext⟩ := h.notes q hq
    refine ⟨a, ha, ?_⟩
    by_cases hobject : q.1 = object
    · rw [if_pos hobject]
      exact ⟨hidentity, hname, htext⟩
    · rw [if_neg hobject]
      exact ⟨hidentity, hname, htext⟩
  events := h.events

/-! ### What each operation keeps -/

/-- However the program ends, the invariant is kept. -/
def Keeps (L : Library) (limits : Limits) {α : Type} (x : Program Client Raised α) : Prop :=
  Program.Ends (Authority L limits) x (fun _ => Authority L limits) (fun _ => Authority L limits) (Authority L limits)

theorem Keeps.after {α : Type} {x : Program Client Raised α} (h : Keeps L limits x) (hc : Authority L limits c) :
    Authority L limits (x c).2 := by
  have hends := h c hc
  generalize x c = r at hends
  obtain ⟨a | e | _, t⟩ := r <;> exact hends

theorem keeps_request {turn : Turn} {method : Method} {params : PyVal} (hmethod : method ≠ .toolsCall) :
    Keeps L limits (request L limits turn method params) := by
  intro c hc
  rcases request_cases L limits turn method params c with
    ⟨raised, hrequest⟩ | ⟨raised, -, hrequest⟩ | ⟨text, x, -, hx, hrequest⟩
  · rw [hrequest]
    exact hc
  · rw [hrequest]
    exact hc.takeId
  · have hsent : Authority L limits (c.takeId.record (.sent x)) := by
      refine hc.takeId.event _ (lastSurface_concat _ _) ?_
      intro hcall
      rw [hx] at hcall
      exact absurd hcall hmethod
    rw [hrequest]
    cases readResponse L limits x with
    | error raised => exact hsent
    | ok response => exact hsent

theorem keeps_listAndCapture (server : Server) (k : Nat) : Keeps L limits (listAndCapture L limits server k) := by
  intro c hc
  obtain ⟨xs, -, hxs⟩ := listPages_spec L limits server k [] [] none c (Nat.sub_le _ _)
  obtain ⟨id, hwritten⟩ := hxs.written
  have hafter : Authority L limits (listAndCapture L limits server k c).2 := by
    unfold listAndCapture
    rw [hwritten]
    exact hc.wrote hxs.methods
  generalize listAndCapture L limits server k c = r at hafter
  obtain ⟨a | e | _, t⟩ := r <;> exact hafter

theorem keeps_lift {α : Type} (v : Except Raised α) : Keeps L limits (Program.lift v) :=
  .lift (fun _ _ _ => id) fun _ _ _ => id

theorem keeps_initializeAndCapture (server : Server) : Keeps L limits (initializeAndCapture L limits server) := by
  refine .bind (keeps_request Method.noConfusion) fun response => ?_
  refine .bind (keeps_lift _) fun _ => .bind (keeps_lift _) fun _ => ?_
  refine .bind_modify (Authority L limits) ?_ fun c hc => hc.event c.nextId (lastSurface_concat _ _) trivial
  refine .bind (keeps_listAndCapture server 1) fun surface => ?_
  exact .bind_modify (Authority L limits) (.pure fun _ => id) fun c hc => hc.setSurface surface

theorem keeps_revalidateSurface (server : Server) : Keeps L limits (revalidateSurface L limits server) := by
  intro c hc
  unfold revalidateSurface
  rw [Program.bind_apply, Program.get_apply]
  dsimp only
  cases c.surface with
  | none => exact hc
  | some surface => exact (Program.Ends.bind (keeps_listAndCapture server 0) fun later => keeps_lift _) c hc

theorem authorization_justified {surface : ToolSurface} {actionId : Option LocalActionIdentity}
    {proposalId name : Str} {arguments : PyVal} {a : Authorization} {before : List Event}
    (h : authorization L limits surface actionId proposalId name arguments = .ok a)
    (hsurface : lastSurface before = some surface) : EventJustified L limits before (.authorized a) := by
  unfold authorization at h
  obtain ⟨frozen, -, h⟩ := ok_of_bind h
  obtain ⟨_, -, h⟩ := ok_of_bind h
  cases htool : surface.tool? name with
  | none =>
    rw [htool] at h
    cases h
  | some tool =>
    rw [htool] at h
    obtain ⟨_, hvalid, h⟩ := ok_of_bind h
    obtain ⟨text, htext, h⟩ := ok_of_bind h
    cases h
    exact ⟨surface, hsurface, rfl, htext, tool, htool, hvalid⟩

theorem keeps_authorize (object : Nat) (actionId : Option LocalActionIdentity) (proposalId name : Str)
    (arguments : PyVal) : Keeps L limits (authorize L limits object actionId proposalId name arguments) := by
  intro c hc
  unfold authorize
  rw [Program.bind_apply, Program.get_apply]
  dsimp only
  cases hsurface : c.surface with
  | none => exact hc
  | some surface =>
    dsimp only
    cases hauthorization : authorization L limits surface actionId proposalId name arguments with
    | error raised => exact hc
    | ok a => exact hc.grant (authorization_justified hauthorization (hc.surface.trans hsurface))

theorem keeps_execute (turn : Turn) (object : Nat) (action : Option Action) (hc : Authority L limits c) :
    Authority L limits (execute L sensitive limits turn object action c).2 := by
  rcases execute_cases L sensitive limits turn object action c with
    ⟨raised, hexecute⟩ | ⟨admitted, hadmission, ⟨raw, -, -, hexecute⟩ | ⟨ending, hexecute⟩⟩
  · rw [hexecute]
    exact hc
  · rw [hexecute]
    exact hc.takeId
  · rw [hexecute]
    refine hc.takeId.event _ (lastSurface_concat _ _) ?_
    intro _
    obtain ⟨hsurface, ⟨note, hnote, hidentity, hname, htext⟩, htool⟩ := admission_spec hadmission
    obtain ⟨a, ha, haIdentity, haName, haText⟩ := hc.notes _ hnote
    refine ⟨admitted.surface, a, admitted.arguments, hc.surface.trans hsurface, ha, haIdentity.trans hidentity, ?_⟩
    refine ⟨?_, ?_, ?_⟩
    · rw [haName, hname]
    · rw [haText, htext]
    · rw [haName, hname]
      exact htool

theorem authority_of_reachable (h : (clientSystem L sensitive limits).Reachable c) : Authority L limits c := by
  refine h.invariant ?_ ?_
  · rintro _ ⟨issuer, rfl⟩
    exact .start issuer
  · rintro c _ - hc ⟨op, rfl⟩
    cases op with
    | initializeAndCapture server => exact (keeps_initializeAndCapture server).after hc
    | revalidateSurface server => exact (keeps_revalidateSurface server).after hc
    | authorize object actionId proposalId name arguments =>
      exact (keeps_authorize object actionId proposalId name arguments).after hc
    | execute turn object action => exact keeps_execute sensitive turn object action hc
    | alter object arguments => exact hc.alter object arguments

end

/-- In every run, a call that has been written carries the name and the text of the arguments of an authorization for
the identity of the surface captured last, and conforms to the schema that this surface has for the tool.  A call that
is refused writes nothing; it takes no identifier unless its own text, of which the identifier is a part, is longer than
a request may be. -/
theorem calls_authorized (c : Client) (h : (clientSystem L sensitive limits).Reachable c) :
    (∀ before x after, c.history = before ++ .sent x :: after → x.method = .toolsCall →
      CallAuthorized L limits before x) ∧
      ∀ turn object action,
        (∃ raised, execute L sensitive limits turn object action c = (.raised raised, c)) ∨
        (execute L sensitive limits turn object action c = (.raised (.provider .requestTooLarge), c.takeId) ∧
          ∃ admitted raw, admission L limits c object action = .ok admitted ∧
            canon L (requestValue c.nextId .toolsCall (callParams admitted.name admitted.arguments)) = .ok raw ∧
            limits.mcpRequestBytes < raw.length + 1) ∨
        ∃ ending x, x.id = c.nextId ∧ x.method = .toolsCall ∧
          execute L sensitive limits turn object action c = (ending, c.takeId.record (.sent x)) := by
  refine ⟨fun before x after hsplit => (authority_of_reachable sensitive h).events before _ after hsplit, ?_⟩
  intro turn object action
  rcases execute_cases L sensitive limits turn object action c with
    hrefused | ⟨admitted, hadmission, ⟨raw, hraw, hlong, hexecute⟩ | ⟨ending, hexecute⟩⟩
  · exact .inl hrefused
  · exact .inr (.inl ⟨hexecute, admitted, raw, hadmission, hraw, hlong⟩)
  · exact .inr (.inr ⟨ending, _, rfl, rfl, hexecute⟩)

/-! ### A run -/

section

variable {L sensitive limits} {c : Client}

theorem reachable_perform (h : (clientSystem L sensitive limits).Reachable c) (op : Operation) :
    (clientSystem L sensitive limits).Reachable (op.perform L sensitive limits c) := h.step ⟨op, rfl⟩

theorem reachable_operations (ops : List Operation) (h : (clientSystem L sensitive limits).Reachable c) :
    (clientSystem L sensitive limits).Reachable (ops.foldl (Operation.perform L sensitive limits) c) := by
  induction ops generalizing c with
  | nil => exact h
  | cons op ops ih => exact ih (reachable_perform h op)

theorem history_takeId (c : Client) : c.takeId.history = c.history := rfl

theorem nextId_takeId_ne (c : Client) : c.takeId.nextId ≠ c.nextId := Nat.succ_ne_self _

/-- A call that takes an identifier and writes nothing is too long. -/
theorem execute_of_unsent {turn : Turn} {object : Nat} {action : Option Action}
    (hlength : (execute L sensitive limits turn object action c).2.history.length = c.history.length)
    (hid : (execute L sensitive limits turn object action c).2.nextId ≠ c.nextId) :
    execute L sensitive limits turn object action c = (.raised (.provider .requestTooLarge), c.takeId) := by
  rcases execute_cases L sensitive limits turn object action c with
    ⟨raised, hexecute⟩ | ⟨admitted, -, ⟨raw, -, -, hexecute⟩ | ⟨ending, hexecute⟩⟩
  · rw [hexecute] at hid
    exact absurd rfl hid
  · exact hexecute
  · rw [hexecute, Client.record, List.length_append] at hlength
    exact absurd hlength (Nat.succ_ne_self _)

end

end

/-- A tool with one text as its argument. -/
def noteTool : PyVal :=
  .dict false [(chars "name", .str (chars "note")), (chars "inputSchema", .dict false [
    (chars "type", .str (chars "object")),
    (chars "properties", .dict false [(chars "text", .dict false [(chars "type", .str (chars "string"))])])])]

def sampleResponse (id : Nat) (result : PyVal) : PyVal :=
  .dict false [(chars "jsonrpc", .str (chars "2.0")), (chars "id", .int id), (chars "result", result)]

def initializeLine : Bytes :=
  bytes ("\x7b\"jsonrpc\":\"2.0\",\"id\":1,\"result\":\x7b\"protocolVersion\":\"2025-11-25\"," ++
    "\"capabilities\":\x7b\x7d,\"serverInfo\":\x7b\x7d\x7d\x7d")

def toolsLine : Bytes :=
  bytes ("\x7b\"jsonrpc\":\"2.0\",\"id\":2,\"result\":\x7b\"tools\":[\x7b\"name\":\"note\",\"inputSchema\":" ++
    "\x7b\"type\":\"object\",\"properties\":\x7b\"text\":\x7b\"type\":\"string\"\x7d\x7d\x7d\x7d]\x7d\x7d")

/-- The library on the texts of this run. -/
def noteLibrary : Library where
  loads raw :=
    if raw == initializeLine then .ok (sampleResponse 1 (.dict false
      [(chars "protocolVersion", .str (chars "2025-11-25")), (chars "capabilities", .dict false []),
        (chars "serverInfo", .dict false [])]))
    else if raw == toolsLine then .ok (sampleResponse 2 (.dict false [(chars "tools", .list [noteTool])]))
    else .error .malformedJson
  floatRepr _ := []
  sha256 _ := bytes "5b6e6a26b64b92232d946ee434938da8af36cb95f1717ee6bdb77afbeaaea3ee"

/-- Requests may be a little longer than `initialize`. -/
def shortRequests : Limits := { toLimitValues := { mcpRequestBytes := 170 }, valid := by decide }

def noteServer : Server where
  turns k := ⟨none, .ok (if k = 0 then initializeLine else toolsLine)⟩
  notification := .ok ()

/-- The child does not answer. -/
def silentTurn : Turn := ⟨none, .error (.provider .mcpTimeout)⟩

def noteActionId : LocalActionIdentity := ⟨chars "0123456789abcdef0123456789abcdef", by decide⟩

/-- The client has captured the tool and has authorized a call with a text of this length. -/
def noteClient (length : Nat) : Client :=
  [.initializeAndCapture noteServer, .authorize 7 (some noteActionId) (chars "call-1") (chars "note")
    (.dict false [(chars "text", .str (List.replicate length 0x61))])].foldl
      (Operation.perform noteLibrary (fun s _ _ => s) shortRequests) { issuer := 0 }

/-- The action that it has authorized. -/
def noteAction (length : Nat) : Option Action := ((noteClient length).authorizations.lookup 7).map (⟨·, some 0⟩)

private theorem noteClient_reachable (length : Nat) :
    (clientSystem noteLibrary (fun s _ _ => s) shortRequests).Reachable (noteClient length) := by
  unfold noteClient
  exact reachable_operations _ (.init ⟨0, rfl⟩)

/-- The client after it has sent a short text. -/
def sentClient : Client :=
  Operation.perform noteLibrary (fun s _ _ => s) shortRequests (noteClient 1) (.execute silentTurn 7 (noteAction 1))

theorem calls_authorized_sample :
    (sentClient.nextId = 4 ∧ sentClient.history.length = 6) ∧
    ∀ before x after, sentClient.history = before ++ .sent x :: after → x.method = .toolsCall →
      CallAuthorized noteLibrary shortRequests before x :=
  ⟨by decide +kernel, (calls_authorized noteLibrary (fun s _ _ => s) shortRequests sentClient
    (reachable_perform (noteClient_reachable 1) _)).1⟩

/-- A call that is too long is refused and takes an identifier all the same. -/
theorem long_call_takes_identifier :
    ¬ ∀ (L : Library) (sensitive : Str → List Str → Nat → Str) (limits : Limits) (c : Client),
      (clientSystem L sensitive limits).Reachable c → ∀ turn object action raised t,
        execute L sensitive limits turn object action c = (.raised raised, t) → t.history = c.history →
          t.nextId = c.nextId := by
  intro h
  have hid : (noteClient 80).nextId = 3 ∧ (execute noteLibrary (fun s _ _ => s) shortRequests silentTurn 7
      (noteAction 80) (noteClient 80)).2.nextId = 4 := by
    decide +kernel
  have hlength : (execute noteLibrary (fun s _ _ => s) shortRequests silentTurn 7 (noteAction 80)
      (noteClient 80)).2.history.length = (noteClient 80).history.length := by
    decide +kernel
  have hexecute := execute_of_unsent hlength (by rw [hid.1, hid.2]; decide)
  exact nextId_takeId_ne _ (h _ _ _ _ (noteClient_reachable 80) _ _ _ _ _ hexecute (history_takeId _))

end NativeMcp.Agent
