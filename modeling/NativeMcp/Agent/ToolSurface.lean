import Mathlib.Data.List.Forall2
import NativeMcp.Agent.Identifiers
import NativeMcp.Agent.Redaction
import NativeMcp.Agent.Revalidation
import NativeMcp.Agent.ToolSchemas

/-!
# The captured tool surface

`capture_tool_surface` turns the list of tools that a server sends into the tools that the client advertises, the
digest that identifies them and the schemas of their results.  Whatever is wrong with one definition is a protocol
failure.
-/

namespace NativeMcp.Agent

/-- A dictionary with these fields: all of them are allowed, and those that are required are there. -/
def closedFields (kind : FailureClass) (value : PyVal) (allowed required : List String) : Except Raised PyVal := do
  let some members := value.members? | .error (.provider kind)
  require (members.all fun p => isKey allowed p.1) kind
  require (required.all value.has) kind
  return value

/-- `_closed` -/
def closedObject : PyVal → List String → List String → Except Raised PyVal := closedFields .mcpProtocolFailure

/-- `except ProviderError: raise …` -/
def reclassify {α : Type} (kind : FailureClass) (x : Except Raised α) : Except Raised α :=
  match x with
  | .error (.provider _) => .error (.provider kind)
  | _ => x

theorem ok_of_reclassify {α : Type} {kind : FailureClass} {x : Except Raised α} {a : α}
    (h : reclassify kind x = .ok a) : x = .ok a := by
  cases x with
  | ok b => exact h
  | error raised => cases raised <;> cases h

/-! ### One tool -/

/-- `_TOOL_FIELDS` -/
def toolFields : List String :=
  ["name", "title", "description", "inputSchema", "outputSchema", "annotations", "execution", "icons", "_meta"]

structure AdvertisedTool where
  name : Str
  parameters : PyVal
  description : Str
  validName : isIdentifier 63 name = true

/-- `AdvertisedTool(…)` -/
def AdvertisedTool.create (name : Str) (parameters : PyVal) (description : Str) : Except Raised AdvertisedTool :=
  if h : isIdentifier 63 name = true then do
    let frozen ← advertisedParameters parameters
    let some size := encodedSize description | .error .other
    require (size ≤ 1024) .localValidationFailure
    return ⟨name, frozen, description, h⟩
  else .error (.provider .localValidationFailure)

/-- `provider_definition` -/
def AdvertisedTool.definition (tool : AdvertisedTool) : PyVal :=
  .dict false [(chars "name", .str tool.name), (chars "description", .str tool.description),
    (chars "inputSchema", tool.parameters)]

/-- What is kept of one item of the list. -/
structure CapturedTool where
  tool : AdvertisedTool
  item : PyVal
  outputSchema : Option PyVal

/-- The part of the loop that is in its `try`. -/
def captureDefinition (L : Library) (limits : Limits) (name : Str) (item : PyVal) : Except Raised CapturedTool := do
  let parameters ← normalizedInputSchema limits ((item.get? "inputSchema").getD .none)
  let tool ← AdvertisedTool.create name parameters (((item.get? "description").bind PyVal.text?).getD [])
  let definition ← canon L tool.definition
  require (definition.length ≤ limits.toolDefinitionBytes) .mcpProtocolFailure
  let outputSchema ← (item.get? "outputSchema").mapM (checkOutputSchemaDefinition limits)
  let frozen ← freezeJson limits none 0 item
  return ⟨tool, frozen, outputSchema⟩

/-- One round of the loop of `capture_tool_surface`. -/
def captureItem (L : Library) (limits : Limits) (raw : PyVal) : Except Raised CapturedTool := do
  let item ← closedObject raw toolFields ["name", "inputSchema"]
  let some name := (item.get? "name").bind PyVal.text? | .error protocolFailure
  require (["title", "description"].all fun key => (item.get? key).all PyVal.isStr) .mcpProtocolFailure
  require (["inputSchema", "outputSchema", "annotations", "execution", "_meta"].all fun key =>
    (item.get? key).all PyVal.isDict) .mcpProtocolFailure
  require ((item.get? "icons").all fun v => v.sequence?.isSome) .mcpProtocolFailure
  reclassify .mcpProtocolFailure (captureDefinition L limits name item)

/-! ### All tools -/

structure ToolSurface where
  tools : List AdvertisedTool
  identity : Bytes
  outputSchemas : PyVal

/-- `next((x for x in self.surface.tools if x.name == name), None)` -/
def ToolSurface.tool? (surface : ToolSurface) (name : Str) : Option AdvertisedTool :=
  surface.tools.find? fun tool => tool.name == name

/-- `capture_tool_surface` -/
def captureToolSurface (L : Library) (limits : Limits) (result : PyVal) : Except Raised ToolSurface := do
  let result ← closedObject result ["tools"] ["tools"]
  let some tools := (result.get? "tools").bind PyVal.sequence? | .error protocolFailure
  require (tools.length ≤ limits.advertisedToolCount) .mcpProtocolFailure
  let captured ← tools.mapM (captureItem L limits)
  require (decide (captured.map (·.tool.name)).Nodup) .mcpProtocolFailure
  let outputs ← freezeJson limits none 0
    (.dict false (captured.map fun c => (c.tool.name, c.outputSchema.getD .none)))
  let items ← canon L (.list (captured.map (·.item)))
  return ⟨captured.map (·.tool), L.sha256 items, outputs⟩

theorem forall₂_of_mapM {α β : Type} {f : α → Except Raised β} {l : List α} {l' : List β}
    (h : l.mapM f = .ok l') : List.Forall₂ (fun a b => f a = .ok b) l l' := by
  induction l generalizing l' with
  | nil =>
    cases h
    exact .nil
  | cons a l ih =>
    rw [List.mapM_cons] at h
    obtain ⟨b, hb, h⟩ := ok_of_bind h
    obtain ⟨bs, hbs, h⟩ := ok_of_bind h
    cases h
    exact .cons hb (ih hbs)

theorem exists_of_mem_mapM {α β : Type} {f : α → Except Raised β} {l : List α} {l' : List β}
    (h : l.mapM f = .ok l') {b : β} (hb : b ∈ l') : ∃ a ∈ l, f a = .ok b := by
  have hpairs := forall₂_of_mapM h
  clear h
  induction hpairs with
  | nil => cases hb
  | cons hab _ ih =>
    rcases List.mem_cons.1 hb with rfl | hb
    · exact ⟨_, List.mem_cons_self, hab⟩
    · obtain ⟨a, ha, hf⟩ := ih hb
      exact ⟨a, List.mem_cons_of_mem _ ha, hf⟩

/-- The tools of the surface are those of the list, each captured, in its order; their names are different. -/
theorem captureToolSurface_spec {L : Library} {limits : Limits} {tools : List PyVal} {surface : ToolSurface}
    (h : captureToolSurface L limits (.dict false [(chars "tools", .list tools)]) = .ok surface) :
    List.Forall₂ (fun raw tool => ∃ captured, captureItem L limits raw = .ok captured ∧ captured.tool = tool)
        tools surface.tools ∧
      (surface.tools.map (·.name)).Nodup ∧ surface.tools.length ≤ limits.advertisedToolCount := by
  unfold captureToolSurface at h
  have hclosed : closedObject (.dict false [(chars "tools", .list tools)]) ["tools"] ["tools"] =
      .ok (.dict false [(chars "tools", .list tools)]) := rfl
  rw [hclosed] at h
  have htools : (PyVal.dict false [(chars "tools", .list tools)]).get? "tools" = some (.list tools) := rfl
  obtain ⟨result, hresult, h⟩ := ok_of_bind h
  cases hresult
  rw [htools] at h
  obtain ⟨_, hcount, h⟩ := ok_of_bind h
  obtain ⟨captured, hcaptured, h⟩ := ok_of_bind h
  obtain ⟨_, hnodup, h⟩ := ok_of_bind h
  obtain ⟨outputs, -, h⟩ := ok_of_bind h
  obtain ⟨items, -, h⟩ := ok_of_bind h
  cases h
  have hitems := forall₂_of_mapM hcaptured
  refine ⟨?_, ?_, ?_⟩
  · rw [List.forall₂_map_right_iff]
    exact hitems.imp fun raw c hc => ⟨c, hc, rfl⟩
  · have hnames := of_decide_eq_true (require_eq_ok hnodup)
    rwa [List.map_map]
  · have hle := of_decide_eq_true (require_eq_ok hcount)
    rwa [List.length_map, ← hitems.length_eq]

/-! ### One page -/

/-- What `_tools_list_page` reads. -/
structure Page where
  tools : List PyVal
  cursor : Option Str

/-- The cursor of a page is absent, or a text that is neither empty nor too long. -/
def pageCursor (limits : Limits) (cursor : PyVal) : Except Raised (Option Str) :=
  match cursor with
  | .none => .ok none
  | .str s =>
    match encodedSize s with
    | none => .error .other
    | some size => do
      require (s ≠ [] && size ≤ limits.messageBytes) .mcpProtocolFailure
      return some s
  | _ => .error protocolFailure

/-- `_tools_list_page` -/
def toolsListPage (limits : Limits) (result : PyVal) : Except Raised Page := do
  let page ← closedObject result ["tools", "nextCursor", "_meta"] ["tools"]
  let some tools := (page.get? "tools").bind PyVal.sequence? | .error protocolFailure
  match page.get? "_meta" with
  | none => pure ()
  | some value => do
    let metadata ← freezeJson limits none 0 value
    require metadata.isDict .mcpProtocolFailure
  let cursor ← pageCursor limits ((page.get? "nextCursor").getD .none)
  return ⟨tools, cursor⟩

end NativeMcp.Agent
