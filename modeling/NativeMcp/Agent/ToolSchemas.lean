import NativeMcp.Agent.SchemaParts

/-!
# The schemas of a captured tool

`_normalize_input_schema` rewrites the schema of a tool's arguments; `_validate_output_schema_definition` and
`_validate_output_value` check the schema of its results and a result.  The recursions over a schema end at the nesting
limit, as `_validate_schema_definition` does.
-/

namespace NativeMcp.Agent

/-- `_fail(FailureClass.MCP_PROTOCOL_FAILURE, …)` -/
def protocolFailure : Raised := .provider .mcpProtocolFailure

def isBool : PyVal → Bool
  | .bool _ => true
  | _ => false

/-- `_bounded_mcp_number` -/
def boundedMcpNumber : PyVal → Bool
  | .int i => -2 ^ 63 ≤ i && i ≤ 2 ^ 64 - 1
  | .float f => isFinite f
  | _ => false

/-! ### Input schemas -/

def annotationKeys : List String := ["description", "default", "title"]

/-- `_INPUT_SCHEMA_FIELDS` -/
def inputSchemaFields : List String := schemaKeys ++ annotationKeys

/-- `key in names` -/
def isKey (names : List String) (key : Str) : Bool := names.any fun name => key == chars name

def normalizeProperties (normalize : PyVal → Except Raised PyVal) :
    List (Str × PyVal) → Except Raised (List (Str × PyVal))
  | [] => .ok []
  | (name, child) :: rest => do
    let normalized ← normalize child
    let others ← normalizeProperties normalize rest
    return (name, normalized) :: others

/-- What the loop over the keywords makes of one that is kept. -/
def normalizeKeyword (limits : Limits) (normalize : PyVal → Except Raised PyVal) (key : Str) (value : PyVal) :
    Except Raised PyVal :=
  if key = chars "properties" then
    match value.members? with
    | none => .error protocolFailure
    | some properties => do
      require (properties.length ≤ limits.objectArrayItems) .mcpProtocolFailure
      let children ← normalizeProperties normalize properties
      return .dict false children
  else if key = chars "items" then normalize value
  else .ok value

/-- The loop over the keywords. -/
def normalizeKeywords (limits : Limits) (normalize : PyVal → Except Raised PyVal) :
    List (Str × PyVal) → Except Raised (List (Str × PyVal))
  | [] => .ok []
  | (key, value) :: rest =>
    if isKey annotationKeys key then normalizeKeywords limits normalize rest
    else do
      let kept ← normalizeKeyword limits normalize key value
      let others ← normalizeKeywords limits normalize rest
      return (key, kept) :: others

/-- `_normalize_input_schema` -/
def normalizeInputSchema (limits : Limits) : Nat → PyVal → Except Raised PyVal
  | 0, _ => .error protocolFailure
  | room + 1, schema =>
    match schema.members? with
    | none => .error protocolFailure
    | some members => do
      require (members.all fun p => isKey inputSchemaFields p.1) .mcpProtocolFailure
      let normalized ← normalizeKeywords limits (normalizeInputSchema limits room) members
      freezeJson limits none 0 (.dict false normalized)

/-- `_normalize_input_schema(schema, limits)` -/
def normalizedInputSchema (limits : Limits) (schema : PyVal) : Except Raised PyVal :=
  normalizeInputSchema limits (limits.jsonNestingDepth + 1) schema

/-! ### Output schemas -/

/-- `_OUTPUT_SCHEMA_FIELDS` -/
def outputSchemaFields : List String :=
  ["type", "properties", "required", "items", "enum", "minLength", "maxLength", "minimum", "maximum", "maxItems",
    "additionalProperties"]

/-- The types that `type` lists. -/
def listedTypes (schema : PyVal) : Option (List Str) :=
  match schema.get? "type" with
  | some (.str s) => some [s]
  | some (.list items) => if items = [] then none else items.mapM PyVal.text?
  | some (.tuple items) => if items = [] then none else items.mapM PyVal.text?
  | _ => none

/-- `_schema_types` -/
def schemaTypesOf (schema : PyVal) : Except Raised (List Str) :=
  match listedTypes schema with
  | none => .error protocolFailure
  | some types => do
    require (decide types.Nodup && types.all (isKey schemaTypes)) .mcpProtocolFailure
    return types

/-- `_schema_type_matches` -/
def schemaTypeMatches (value : PyVal) (schemaType : Str) : Bool :=
  if schemaType = chars "string" then value.isStr
  else if schemaType = chars "boolean" then isBool value
  else if schemaType = chars "integer" then value.isInt && boundedMcpNumber value
  else if schemaType = chars "number" then boundedMcpNumber value
  else if schemaType = chars "object" then value.isDict
  else if schemaType = chars "array" then value.sequence?.isSome
  else
    match value with
    | .none => true
    | _ => false

/-- `schema.get("additionalProperties") is False` -/
def isClosed (schema : PyVal) : Bool :=
  (schema.get? "additionalProperties").any fun v => match v with | .bool false => true | _ => false

/-- What `_validate_output_schema_definition` checks of the keywords of objects. -/
def outputObject (limits : Limits) (check : PyVal → Except Raised PyVal) (schema : PyVal) (types : List Str) :
    Except Raised Unit :=
  if types.contains (chars "object") then do
    require (isClosed schema) .mcpProtocolFailure
    match ((schema.get? "properties").getD (.dict false [])).members? with
    | none => .error protocolFailure
    | some properties => do
      require (properties.length ≤ limits.objectArrayItems) .mcpProtocolFailure
      require (validRequired ((schema.get? "required").getD (.list [])) properties limits) .mcpProtocolFailure
      properties.forM fun p => do
        require (p.1 ≠ []) .mcpProtocolFailure
        let _ ← check p.2
        return ()
  else require (["properties", "required", "additionalProperties"].all fun key => !schema.has key) .mcpProtocolFailure

/-- What it checks of the keywords of arrays. -/
def outputArray (limits : Limits) (check : PyVal → Except Raised PyVal) (schema : PyVal) (types : List Str) :
    Except Raised Unit :=
  if types.contains (chars "array") then do
    require ((schema.get? "items").getD .none).isDict .mcpProtocolFailure
    require ((schema.get? "maxItems").any (isIntWithin 0 limits.mcpEvidenceItems)) .mcpProtocolFailure
    let _ ← check ((schema.get? "items").getD .none)
    return ()
  else require (["items", "maxItems"].all fun key => !schema.has key) .mcpProtocolFailure

/-- What it checks of `enum`. -/
def outputEnum (limits : Limits) (schema : PyVal) (types : List Str) : Except Raised Unit :=
  match schema.get? "enum" with
  | none => .ok ()
  | some values =>
    match values.sequence? with
    | none => .error protocolFailure
    | some items =>
      require (items ≠ [] && items.length ≤ limits.objectArrayItems &&
        items.all fun v => types.any (schemaTypeMatches v)) .mcpProtocolFailure

/-- What it checks of the bounds. -/
def outputBounds (limits : Limits) (schema : PyVal) (types : List Str) : Except Raised Unit := do
  require (["minLength", "maxLength"].all fun key => (schema.get? key).all fun v =>
    types.contains (chars "string") && isIntWithin 0 limits.mcpResponseBytes v) .mcpProtocolFailure
  require (← boundsInOrder schema "minLength" "maxLength") .mcpProtocolFailure
  require (["minimum", "maximum"].all fun key => (schema.get? key).all fun v =>
    (types.contains (chars "integer") || types.contains (chars "number")) && boundedMcpNumber v) .mcpProtocolFailure
  require (← boundsInOrder schema "minimum" "maximum") .mcpProtocolFailure

/-- `_validate_output_schema_definition` -/
def validateOutputSchemaDefinition (limits : Limits) : Nat → PyVal → Except Raised PyVal
  | 0, _ => .error protocolFailure
  | room + 1, schema =>
    match schema.members? with
    | none => .error protocolFailure
    | some members => do
      require (members.all fun p => isKey outputSchemaFields p.1) .mcpProtocolFailure
      let types ← schemaTypesOf schema
      outputObject limits (validateOutputSchemaDefinition limits room) schema types
      outputArray limits (validateOutputSchemaDefinition limits room) schema types
      outputEnum limits schema types
      outputBounds limits schema types
      freezeJson limits none 0 schema

/-- `_validate_output_schema_definition(schema, limits)` -/
def checkOutputSchemaDefinition (limits : Limits) (schema : PyVal) : Except Raised PyVal :=
  validateOutputSchemaDefinition limits (limits.jsonNestingDepth + 1) schema

/-! ### Results -/

/-- What `_validate_output_value` checks of a value before it looks at its items: the type that the value has. -/
def validateOutputTop (limits : Limits) (depth : Nat) (value schema : PyVal) : Except Raised Str := do
  require (depth ≤ limits.jsonNestingDepth) .mcpProtocolFailure
  let types ← schemaTypesOf schema
  match types.find? (schemaTypeMatches value) with
  | none => .error protocolFailure
  | some matching => do
    require (inEnum value schema) .mcpProtocolFailure
    return matching

/-- `len(value) > schema["maxItems"]` -/
def validateCount (count : Nat) (schema : PyVal) : Except Raised Unit :=
  match schema.get? "maxItems" with
  | none => .error .other
  | some bound => do
    let oversized ← bound.less (.int count)
    require (!oversized) .mcpProtocolFailure

mutual

/-- `_validate_output_value` -/
def validateOutputValue (limits : Limits) (depth : Nat) : PyVal → PyVal → Except Raised Unit
  | .dict frozen members, schema => do
    let _ ← validateOutputTop limits depth (.dict frozen members) schema
    require (members.length ≤ limits.objectArrayItems &&
      members.all fun p => ((propertiesOf schema).lookup p.1).isSome) .mcpProtocolFailure
    require ((requiredOf schema).all fun item => (item.text?.bind fun name => members.lookup name).isSome)
      .mcpProtocolFailure
    validateOutputMembers limits (depth + 1) members (propertiesOf schema)
  | .list items, schema => do
    let _ ← validateOutputTop limits depth (.list items) schema
    validateCount items.length schema
    validateOutputItems limits (depth + 1) items (itemsOf schema)
  | .tuple items, schema => do
    let _ ← validateOutputTop limits depth (.tuple items) schema
    validateCount items.length schema
    validateOutputItems limits (depth + 1) items (itemsOf schema)
  | .str s, schema => do
    let _ ← validateOutputTop limits depth (.str s) schema
    match encodedSize s with
    | none => .error .other
    | some size => validateSize size limits.mcpResponseBytes schema .mcpProtocolFailure
  | value, schema => do
    let matching ← validateOutputTop limits depth value schema
    if matching = chars "integer" ∨ matching = chars "number" then validateRange value schema .mcpProtocolFailure
    else pure ()

def validateOutputItems (limits : Limits) (depth : Nat) : List PyVal → PyVal → Except Raised Unit
  | [], _ => .ok ()
  | v :: l, schema => do
    validateOutputValue limits depth v schema
    validateOutputItems limits depth l schema

def validateOutputMembers (limits : Limits) (depth : Nat) :
    List (Str × PyVal) → List (Str × PyVal) → Except Raised Unit
  | [], _ => .ok ()
  | (k, v) :: l, properties => do
    validateOutputValue limits depth v ((properties.lookup k).getD .none)
    validateOutputMembers limits depth l properties

end

end NativeMcp.Agent
