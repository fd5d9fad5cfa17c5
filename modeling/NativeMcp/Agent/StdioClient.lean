import NativeMcp.Agent.Proposals
import NativeMcp.Agent.ToolSurface
import NativeMcp.Lib.Program

/-!
# The client of one child

`_request` writes one request and waits for its response; `_list_and_capture` asks for the pages of the tool list until
one has no cursor.  What the child, the deadlines and the caller's cancellation do around a request is its `Turn`, and a
`Server` is any sequence of turns.  The client's `history` lists what it has written and what it has captured and
authorized.
-/

namespace NativeMcp.Agent

/-! ### The client -/

/-- The methods that `_request` accepts. -/
inductive Method where
  | initialization
  | toolsList
  | toolsCall
  deriving DecidableEq, Repr

def Method.text : Method → Str
  | .initialization => chars "initialize"
  | .toolsList => chars "tools/list"
  | .toolsCall => chars "tools/call"

/-- What happens around one request. -/
structure Turn where
  /-- The child does not start, or the deadline has passed. -/
  refusal : Option Raised
  /-- The line that the child answers with, or how the transmission or the wait for it fails. -/
  line : Except Raised Bytes

/-- What happens around the requests of one operation, and around the notification that follows `initialize`. -/
structure Server where
  turns : Nat → Turn
  notification : Except Raised Unit

/-- A request that has been written. -/
structure Exchange where
  id : Nat
  method : Method
  params : PyVal
  line : Except Raised Bytes

/-- What `_authorizations` keeps of an action. -/
structure Authorization where
  surfaceIdentity : Bytes
  actionId : Option LocalActionIdentity
  proposalId : Str
  name : Str
  arguments : PyVal
  argumentBytes : Bytes

inductive Event where
  | sent (exchange : Exchange)
  | notified
  | captured (surface : ToolSurface)
  | authorized (authorization : Authorization)

/-- `McpStdioClient`; objects are numbers, and `_authorizations` is keyed by them. -/
structure Client where
  issuer : Nat
  nextId : Nat := 1
  surface : Option ToolSurface := none
  authorizations : List (Nat × Authorization) := []
  history : List Event := []

namespace Client

def takeId (c : Client) : Client := { c with nextId := c.nextId + 1 }

def record (c : Client) (event : Event) : Client := { c with history := c.history ++ [event] }

/-- The client after the requests `xs`, whatever identifier comes next. -/
def wrote (c : Client) (nextId : Nat) (xs : List Exchange) : Client :=
  { c with nextId := nextId, history := c.history ++ xs.map .sent }

def setSurface (c : Client) (surface : ToolSurface) : Client :=
  { c with surface := some surface, history := c.history ++ [.captured surface] }

end Client

/-! ### `_request` -/

def responseLimit (limits : Limits) : Method → Nat
  | .toolsCall => limits.mcpEvidenceResponseBytes
  | _ => limits.mcpResponseBytes

def responseStringLimit (limits : Limits) : Method → Nat
  | .toolsCall => limits.mcpEvidenceResponseBytes
  | _ => max limits.messageBytes (max limits.toolArgumentBytes limits.toolDefinitionBytes)

def requestValue (id : Nat) (method : Method) (params : PyVal) : PyVal :=
  .dict false [(chars "jsonrpc", .str (chars "2.0")), (chars "id", .int id), (chars "method", .str method.text),
    (chars "params", params)]

/-- The text of a request, without the line feed that ends it. -/
def requestText (L : Library) (limits : Limits) (id : Nat) (method : Method) (params : PyVal) :
    Except Raised Bytes := do
  let text ← canon L (requestValue id method params)
  require (text.length + 1 ≤ limits.mcpRequestBytes) .requestTooLarge
  return text

theorem requestText_eq {L : Library} {limits : Limits} {id : Nat} {method : Method} {params : PyVal} {raw : Bytes}
    (h : canon L (requestValue id method params) = .ok raw) :
    requestText L limits id method params =
      if raw.length + 1 ≤ limits.mcpRequestBytes then .ok raw else .error (.provider .requestTooLarge) := by
  have hbind : requestText L limits id method params =
      require (raw.length + 1 ≤ limits.mcpRequestBytes) .requestTooLarge >>= fun _ => .ok raw := by
    unfold requestText
    rw [h]
    rfl
  rw [hbind]
  by_cases hle : raw.length + 1 ≤ limits.mcpRequestBytes
  · rw [require, if_pos (decide_eq_true hle), if_pos hle]
    rfl
  · rw [require, decide_eq_false hle, if_neg hle]
    rfl

/-- `type(value) is int and value == id` -/
def isRequestId (id : Nat) : PyVal → Bool
  | .int i => i == id
  | _ => false

structure Response where
  requestId : Nat
  result : PyVal
  byteCount : Nat

/-- What the loop of `_request` makes of the line.  Whatever stands under `error`, it is a protocol failure. -/
def readResponse (L : Library) (limits : Limits) (x : Exchange) : Except Raised Response := do
  let line ← x.line
  let parsed ← parseClosedJson L line (mcpEvidenceLimits limits) (some (responseLimit limits x.method))
    (some (responseStringLimit limits x.method))
  let message ← closedObject parsed ["jsonrpc", "id", "result", "error"] ["jsonrpc", "id"]
  require ((message.get? "jsonrpc").any (PyVal.isText "2.0") && (message.get? "id").any (isRequestId x.id))
    .mcpProtocolFailure
  require (message.has "result" != message.has "error") .mcpProtocolFailure
  let some result := message.get? "result" | .error protocolFailure
  let frozen ← freezeJson (mcpEvidenceLimits limits) (some (responseStringLimit limits x.method)) 0 result
  return ⟨x.id, frozen, line.length⟩

section

variable (L : Library) (limits : Limits)

/-- `_request` -/
def request (turn : Turn) (method : Method) (params : PyVal) : Program Client Raised Response := do
  match turn.refusal with
  | some raised => Program.raise raised
  | none => do
    let c ← Program.get
    -- the identifier is part of the text, so it is gone when the text turns out to be too long
    Program.modify Client.takeId
    let _ ← Program.lift (requestText L limits c.nextId method params)
    let x : Exchange := ⟨c.nextId, method, params, turn.line⟩
    Program.modify fun c => c.record (.sent x)
    Program.lift (readResponse L limits x)

/-- Refused, the request leaves the client as it was or, if it is too large, takes an identifier; else it is written. -/
theorem request_cases (turn : Turn) (method : Method) (params : PyVal) (c : Client) :
    (∃ raised, request L limits turn method params c = (.raised raised, c)) ∨
      (∃ raised, requestText L limits c.nextId method params = .error raised ∧
        request L limits turn method params c = (.raised raised, c.takeId)) ∨
      ∃ text x, requestText L limits c.nextId method params = .ok text ∧
        x = ⟨c.nextId, method, params, turn.line⟩ ∧
        request L limits turn method params c =
          (Program.lift (readResponse L limits x) : Program Client Raised Response) (c.takeId.record (.sent x)) := by
  unfold request
  cases turn.refusal with
  | some raised => exact .inl ⟨raised, rfl⟩
  | none =>
    right
    cases htext : requestText L limits c.nextId method params with
    | error raised =>
      refine .inl ⟨raised, rfl, ?_⟩
      simp [htext]
    | ok text =>
      refine .inr ⟨text, _, rfl, rfl, ?_⟩
      simp [htext]

/-! ### `_list_and_capture` -/

def listParams (cursor : Option Str) : PyVal :=
  .dict false ((cursor.map fun s => (chars "cursor", PyVal.str s)).toList)

/-- The loop of `_list_and_capture`, from its `k`-th request on. -/
def listPages (server : Server) (k : Nat) (collected : List PyVal) (seen : List Str) (cursor : Option Str) :
    Program Client Raised ToolSurface := do
  let listed ← request L limits (server.turns k) .toolsList (listParams cursor)
  let page ← Program.lift (toolsListPage limits listed.result)
  if _hcount : limits.advertisedToolCount < collected.length + page.tools.length then Program.raise protocolFailure
  else
    match page.cursor with
    | none =>
      Program.lift (captureToolSurface L limits (.dict false [(chars "tools", .list (collected ++ page.tools))]))
    | some next =>
      -- a page without tools would let the server go on for ever
      if _hnext : seen.contains next = true ∨ page.tools = [] then Program.raise protocolFailure
      else listPages server (k + 1) (collected ++ page.tools) (next :: seen) (some next)
termination_by limits.advertisedToolCount - collected.length
decreasing_by
  have hne : page.tools.length ≠ 0 := fun h => _hnext (.inr (List.eq_nil_of_length_eq_zero h))
  rw [List.length_append]
  omega

/-- `_list_and_capture`, whose first request is the `k`-th of the operation. -/
def listAndCapture (server : Server) (k : Nat) : Program Client Raised ToolSurface :=
  listPages L limits server k [] [] none

/-- The page that answers a request. -/
def Exchange.page (x : Exchange) : Except Raised Page := do
  let response ← readResponse L limits x
  toolsListPage limits response.result

/-- The cursor that a request follows. -/
def Exchange.cursor? (x : Exchange) : Option Str := (x.params.get? "cursor").bind PyVal.text?

theorem cursor?_listParams (id : Nat) (cursor : Option Str) (line : Except Raised Bytes) :
    Exchange.cursor? ⟨id, .toolsList, listParams cursor, line⟩ = cursor := by
  cases cursor <;> rfl

/-- What the rounds from one on do: they write the requests `xs`, none of which follows a cursor that has been seen, and
end. -/
structure Lists (collected : List PyVal) (seen : List Str) (cursor : Option Str) (c : Client) (xs : List Exchange)
    (r : Ending Raised ToolSurface × Client) : Prop where
  written : ∃ id, r.2 = c.wrote id xs
  methods : ∀ x ∈ xs, x.method = .toolsList
  cursors : ∃ followed : List Str, xs.map Exchange.cursor? <+: cursor :: followed.map some ∧ followed.Nodup ∧
    ∀ s ∈ followed, s ∉ seen
  ends : r.1 ≠ .suspended
  pages : ∀ surface, r.1 = .returned surface → ∃ pages,
    List.Forall₂ (fun x page => x.page L limits = .ok page) xs pages ∧
    xs.map Exchange.cursor? ++ [none] = cursor :: pages.map (·.cursor) ∧
    captureToolSurface L limits (.dict false [(chars "tools", .list (collected ++ pages.flatMap (·.tools)))]) =
      .ok surface

section

variable {L limits} {collected : List PyVal} {seen : List Str} {cursor : Option Str} {c t : Client}
  {x : Exchange} {xs : List Exchange} {raised : Raised}

theorem Lists.refused {id : Nat} (h : t = { c with nextId := id }) :
    Lists L limits collected seen cursor c [] (.raised raised, t) where
  written := ⟨id, by rw [h, Client.wrote, List.map_nil, List.append_nil]⟩
  methods := fun x hx => absurd hx List.not_mem_nil
  cursors := ⟨[], List.nil_prefix, .nil, fun s hs => absurd hs List.not_mem_nil⟩
  ends := by
    intro hsuspended
    cases hsuspended
  pages := by
    intro surface hsurface
    cases hsurface

theorem Lists.failed {id : Nat} (h : t = c.wrote id [x]) (hmethod : x.method = .toolsList)
    (hcursor : x.cursor? = cursor) : Lists L limits collected seen cursor c [x] (.raised raised, t) where
  written := ⟨id, h⟩
  methods := List.forall_mem_singleton.2 hmethod
  cursors := by
    refine ⟨[], ?_, .nil, fun s hs => absurd hs List.not_mem_nil⟩
    rw [List.map_singleton, hcursor]
    exact List.prefix_rfl
  ends := by
    intro hsuspended
    cases hsuspended
  pages := by
    intro surface hsurface
    cases hsurface

theorem Lists.last {id : Nat} {page : Page} {surface : ToolSurface} (h : t = c.wrote id [x])
    (hmethod : x.method = .toolsList) (hcursor : x.cursor? = cursor) (hpage : x.page L limits = .ok page)
    (hlast : page.cursor = none)
    (hcapture :
      captureToolSurface L limits (.dict false [(chars "tools", .list (collected ++ page.tools))]) = .ok surface) :
    Lists L limits collected seen cursor c [x] (.returned surface, t) where
  written := ⟨id, h⟩
  methods := List.forall_mem_singleton.2 hmethod
  cursors := by
    refine ⟨[], ?_, .nil, fun s hs => absurd hs List.not_mem_nil⟩
    rw [List.map_singleton, hcursor]
    exact List.prefix_rfl
  ends := by
    intro hsuspended
    cases hsuspended
  pages := by
    intro surface' hsurface
    cases hsurface
    refine ⟨[page], .cons hpage .nil, ?_, ?_⟩
    · rw [List.map_singleton, List.map_singleton, hcursor, hlast]
      rfl
    · rw [List.flatMap_singleton]
      exact hcapture

theorem Lists.next {id : Nat} {page : Page} {next : Str} {r : Ending Raised ToolSurface × Client}
    (h : Lists L limits (collected ++ page.tools) (next :: seen) (some next) t xs r)
    (ht : t = c.wrote id [x]) (hmethod : x.method = .toolsList) (hcursor : x.cursor? = cursor)
    (hpage : x.page L limits = .ok page) (hpageCursor : page.cursor = some next) (hnext : next ∉ seen) :
    Lists L limits collected seen cursor c (x :: xs) r where
  written := by
    obtain ⟨later, hwritten⟩ := h.written
    refine ⟨later, ?_⟩
    rw [hwritten, ht]
    simp only [Client.wrote, List.map_cons, List.map_nil, List.append_assoc, List.singleton_append]
  methods := List.forall_mem_cons.2 ⟨hmethod, h.methods⟩
  cursors := by
    obtain ⟨followed, hfollowed, hnodup, hnew⟩ := h.cursors
    refine ⟨next :: followed, ?_, List.nodup_cons.2 ⟨?_, hnodup⟩, ?_⟩
    · rw [List.map_cons, hcursor]
      exact List.cons_prefix_cons.2 ⟨rfl, hfollowed⟩
    · intro hmem
      exact hnew next hmem List.mem_cons_self
    · intro s hs
      rcases List.mem_cons.1 hs with rfl | hs
      · exact hnext
      · exact fun hmem => hnew s hs (List.mem_cons_of_mem _ hmem)
  ends := h.ends
  pages := by
    intro surface hsurface
    obtain ⟨pages, hpages, hcursors, hcapture⟩ := h.pages surface hsurface
    refine ⟨page :: pages, .cons hpage hpages, ?_, ?_⟩
    · rw [List.map_cons, List.cons_append, hcursors, hcursor, List.map_cons, hpageCursor]
    · rw [List.flatMap_cons, ← List.append_assoc]
      exact hcapture

end

/-- Every page but the last has a tool: there is at most one request more than there is room for tools. -/
theorem listPages_spec {n : Nat} (server : Server) (k : Nat) (collected : List PyVal) (seen : List Str)
    (cursor : Option Str) (c : Client) (hn : limits.advertisedToolCount - collected.length ≤ n) :
    ∃ xs : List Exchange, xs.length ≤ n + 1 ∧
      Lists L limits collected seen cursor c xs (listPages L limits server k collected seen cursor c) := by
  induction n using Nat.strong_induction_on generalizing k collected seen cursor c with
  | _ n ih =>
    rw [listPages, Program.bind_apply]
    rcases request_cases L limits (server.turns k) .toolsList (listParams cursor) c with
      ⟨raised, hrequest⟩ | ⟨raised, -, hrequest⟩ | ⟨text, x, -, hx, hrequest⟩
    · rw [hrequest]
      exact ⟨[], Nat.zero_le _, .refused rfl⟩
    · rw [hrequest]
      exact ⟨[], Nat.zero_le _, .refused rfl⟩
    -- the request has been written; what follows is decided by its page
    have hmethod : x.method = .toolsList := by rw [hx]
    have hcursor : x.cursor? = cursor := by rw [hx, cursor?_listParams]
    have hfailed : ∀ raised, ∃ xs : List Exchange, xs.length ≤ n + 1 ∧
        Lists L limits collected seen cursor c xs (.raised raised, c.takeId.record (.sent x)) :=
      fun raised => ⟨[x], Nat.le_add_left _ _, .failed rfl hmethod hcursor⟩
    rw [hrequest]
    cases hresponse : readResponse L limits x with
    | error raised => exact hfailed raised
    | ok response =>
      dsimp only [Program.lift_ok, Program.pure_apply]
      rw [Program.bind_apply]
      cases hresult : toolsListPage limits response.result with
      | error raised => exact hfailed raised
      | ok page =>
        have hpage : x.page L limits = .ok page := by
          unfold Exchange.page
          rw [hresponse]
          exact hresult
        dsimp only [Program.lift_ok, Program.pure_apply]
        by_cases hcount : limits.advertisedToolCount < collected.length + page.tools.length
        · rw [dif_pos hcount]
          exact hfailed _
        · rw [dif_neg hcount]
          cases hnext : page.cursor with
          | none =>
            dsimp only
            cases hcapture : captureToolSurface L limits
                (.dict false [(chars "tools", .list (collected ++ page.tools))]) with
            | error raised => exact hfailed raised
            | ok surface => exact ⟨[x], Nat.le_add_left _ _, .last rfl hmethod hcursor hpage hnext hcapture⟩
          | some next =>
            dsimp only
            by_cases hseen : seen.contains next = true ∨ page.tools = []
            · rw [dif_pos hseen]
              exact hfailed _
            · rw [dif_neg hseen]
              rw [not_or] at hseen
              obtain ⟨hseen, hne⟩ := hseen
              have hpos := List.length_pos_iff.2 hne
              have hroom : limits.advertisedToolCount - (collected ++ page.tools).length ≤ n - 1 := by
                rw [List.length_append]
                omega
              obtain ⟨xs, hlength, hxs⟩ := ih (n - 1) (by omega) (k + 1) (collected ++ page.tools) (next :: seen)
                (some next) (c.takeId.record (.sent x)) hroom
              refine ⟨x :: xs, ?_, hxs.next rfl hmethod hcursor hpage hnext ?_⟩
              · rw [List.length_cons]
                omega
              · intro hmem
                exact hseen (List.contains_iff_mem.2 hmem)

end

end NativeMcp.Agent
