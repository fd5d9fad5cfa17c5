import NativeMcp.Agent.Python

/-!
# Bounded JSON and schemas

`_freeze_json` and `_json_value` bound a value; `parse_closed_json` reads one from bytes; `_validate_schema` checks
the arguments of a proposal against a tool's schema.  The recursion of `_validate_schema_definition` ends at the
nesting limit: `room` counts the levels that are left.
-/

namespace NativeMcp.Agent

/-- Goes on if the condition holds, else fails with this class. -/
def require (c : Bool) (kind : FailureClass) : Except Raised Unit := if c then .ok () else .error (.provider kind)

theorem require_eq_ok {c : Bool} {kind : FailureClass} {u : Unit} (h : require c kind = .ok u) : c = true := by
  unfold require at h
  split at h
  · assumption
  · cases h

theorem require_eq_ok_iff {c : Bool} {kind : FailureClass} : require c kind = .ok () ↔ c = true := by
  cases c with
  | true => exact ⟨fun _ => rfl, fun _ => rfl⟩
  | false => exact ⟨fun h => (by cases h), fun h => (by cases h)⟩

theorem ok_bind {α β : Type} (a : α) (f : α → Except Raised β) : (Except.ok a >>= f) = f a := rfl

theorem ok_of_bind {α β : Type} {x : Except Raised α} {f : α → Except Raised β} {b : β} (h : (x >>= f) = .ok b) :
    ∃ a, x = .ok a ∧ f a = .ok b := by
  cases x with
  | error raised => cases h
  | ok a => exact ⟨a, rfl, h⟩

theorem ok_of_forM {α : Type} {f : α → Except Raised Unit} {l : List α} (h : l.forM f = .ok ()) :
    ∀ a ∈ l, f a = .ok () := by
  induction l with
  | nil =>
    intro a ha
    cases ha
  | cons b l ih =>
    obtain ⟨u, hb, hl⟩ := ok_of_bind (show (f b >>= fun _ => l.forM f) = .ok () from h)
    exact List.forall_mem_cons.2 ⟨hb, ih hl⟩

/-! ### Values -/

def jsonStringLimit (limits : Limits) (stringBytes : Option Nat) : Except Raised Nat :=
  match stringBytes with
  | none => .ok (max limits.messageBytes (max limits.toolArgumentBytes limits.toolDefinitionBytes))
  | some 0 => .error (.provider .localValidationFailure)
  | some n => .ok n

/-- A string is encodable and within its limit. -/
def checkString (limits : Limits) (stringBytes : Option Nat) (s : Str) : Except Raised Unit :=
  match encodedSize s with
  | none => .error (.provider .localValidationFailure)
  | some size => do
    let limit ← jsonStringLimit limits stringBytes
    require (size ≤ limit) .localValidationFailure

def isFinite : PyFloat → Bool
  | .finite .. => true
  | _ => false

mutual

/-- `_freeze_json` -/
def freezeJson (limits : Limits) (stringBytes : Option Nat) (depth : Nat) : PyVal → Except Raised PyVal
  | .dict _ members => do
    require (depth ≤ limits.jsonNestingDepth) .localValidationFailure
    require (members.length ≤ limits.objectArrayItems) .localValidationFailure
    let frozen ← freezeMembers limits stringBytes (depth + 1) members
    return .dict true frozen
  | .list items => do
    require (depth ≤ limits.jsonNestingDepth) .localValidationFailure
    require (items.length ≤ limits.objectArrayItems) .localValidationFailure
    let frozen ← freezeItems limits stringBytes (depth + 1) items
    return .tuple frozen
  | .tuple items => do
    require (depth ≤ limits.jsonNestingDepth) .localValidationFailure
    require (items.length ≤ limits.objectArrayItems) .localValidationFailure
    let frozen ← freezeItems limits stringBytes (depth + 1) items
    return .tuple frozen
  | .str s => do
    require (depth ≤ limits.jsonNestingDepth) .localValidationFailure
    checkString limits stringBytes s
    return .str s
  | .float f => do
    require (depth ≤ limits.jsonNestingDepth) .localValidationFailure
    require (isFinite f) .localValidationFailure
    return .float f
  | .other => .error (.provider .localValidationFailure)
  | v => do
    require (depth ≤ limits.jsonNestingDepth) .localValidationFailure
    return v

def freezeItems (limits : Limits) (stringBytes : Option Nat) (depth : Nat) : List PyVal → Except Raised (List PyVal)
  | [] => .ok []
  | v :: l => do
    let frozen ← freezeJson limits stringBytes depth v
    let rest ← freezeItems limits stringBytes depth l
    return frozen :: rest

def freezeMembers (limits : Limits) (stringBytes : Option Nat) (depth : Nat) :
    List (Str × PyVal) → Except Raised (List (Str × PyVal))
  | [] => .ok []
  | (k, v) :: l => do
    require (k ≠ []) .localValidationFailure
    let frozen ← freezeJson limits stringBytes depth v
    let rest ← freezeMembers limits stringBytes depth l
    return (k, frozen) :: rest

end

mutual

/-- `_json_value` -/
def jsonValue (limits : Limits) (stringBytes : Option Nat) (depth : Nat) : PyVal → Except Raised Unit
  | .dict _ members => do
    require (depth ≤ limits.jsonNestingDepth) .localValidationFailure
    require (members.length ≤ limits.objectArrayItems) .localValidationFailure
    jsonMembers limits stringBytes (depth + 1) members
  | .list items => do
    require (depth ≤ limits.jsonNestingDepth) .localValidationFailure
    require (items.length ≤ limits.objectArrayItems) .localValidationFailure
    jsonItems limits stringBytes (depth + 1) items
  | .tuple items => do
    require (depth ≤ limits.jsonNestingDepth) .localValidationFailure
    require (items.length ≤ limits.objectArrayItems) .localValidationFailure
    jsonItems limits stringBytes (depth + 1) items
  | .str s => do
    require (depth ≤ limits.jsonNestingDepth) .localValidationFailure
    checkString limits stringBytes s
  | .float f => do
    require (depth ≤ limits.jsonNestingDepth) .localValidationFailure
    require (isFinite f) .localValidationFailure
  | .other => .error (.provider .localValidationFailure)
  | _ => require (depth ≤ limits.jsonNestingDepth) .localValidationFailure

def jsonItems (limits : Limits) (stringBytes : Option Nat) (depth : Nat) : List PyVal → Except Raised Unit
  | [] => .ok ()
  | v :: l => do
    jsonValue limits stringBytes depth v
    jsonItems limits stringBytes depth l

def jsonMembers (limits : Limits) (stringBytes : Option Nat) (depth : Nat) : List (Str × PyVal) → Except Raised Unit
  | [] => .ok ()
  | (k, v) :: l => do
    require (k ≠ []) .localValidationFailure
    jsonValue limits stringBytes depth v
    jsonMembers limits stringBytes depth l

end

/-- `parse_closed_json` of bytes. -/
def parseClosedJson (L : Library) (raw : Bytes) (limits : Limits) (byteLimit stringBytes : Option Nat) :
    Except Raised PyVal := do
  require (raw.length ≤ byteLimit.getD limits.providerResponseBytes) .oversizedResponse
  match L.loads raw with
  | .error kind => .error (.provider kind)
  | .ok value => do
    jsonValue limits stringBytes 0 value
    return value

/-- A value that is read is that of the text, which is not too long, and is within all bounds. -/
theorem parseClosedJson_eq_ok_iff {L : Library} {raw : Bytes} {limits : Limits} {byteLimit stringBytes : Option Nat}
    {value : PyVal} : parseClosedJson L raw limits byteLimit stringBytes = .ok value ↔
      raw.length ≤ byteLimit.getD limits.providerResponseBytes ∧ L.loads raw = .ok value ∧
        jsonValue limits stringBytes 0 value = .ok () := by
  unfold parseClosedJson
  constructor
  · intro h
    obtain ⟨_, hlength, hread⟩ := ok_of_bind h
    have hlength := of_decide_eq_true (require_eq_ok hlength)
    cases hloads : L.loads raw with
    | error kind =>
      rw [hloads] at hread
      cases hread
    | ok v =>
      rw [hloads] at hread
      obtain ⟨_, hvalue, hsame⟩ := ok_of_bind hread
      cases hsame
      exact ⟨hlength, rfl, hvalue⟩
  · rintro ⟨hlength, hloads, hvalue⟩
    rw [require_eq_ok_iff.2 (decide_eq_true hlength), ok_bind, hloads]
    dsimp only
    rw [hvalue]
    rfl

/-! ### Schemas -/

def schemaKeys : List String :=
  ["type", "properties", "required", "items", "enum", "minLength", "maxLength", "minimum", "maximum",
    "additionalProperties"]

def schemaTypes : List String := ["object", "array", "string", "boolean", "integer", "number", "null"]

/-- The text of a string value. -/
def PyVal.text? : PyVal → Option Str
  | .str s => some s
  | _ => Option.none

/-- The items of a dictionary. -/
def PyVal.members? : PyVal → Option (List (Str × PyVal))
  | .dict _ members => some members
  | _ => Option.none

/-- An integer between two bounds. -/
def isIntWithin (low high : Int) : PyVal → Bool
  | .int i => low ≤ i && i ≤ high
  | _ => false

/-- `_finite_number` -/
def finiteNumber : PyVal → Bool
  | .int _ => true
  | .float f => isFinite f
  | _ => false

/-- `_schema_value_matches` -/
def schemaValueMatches (value : PyVal) (schemaType : Str) : Bool :=
  if schemaType = chars "string" then value.isStr
  else if schemaType = chars "boolean" then
    match value with
    | .bool _ => true
    | _ => false
  else if schemaType = chars "integer" then value.isInt
  else if schemaType = chars "number" then finiteNumber value
  else if schemaType = chars "object" then value.isDict
  else if schemaType = chars "array" then value.sequence?.isSome
  else
    match value with
    | .none => true
    | _ => false

/-- The name of a property. -/
def validPropertyName (name : Str) : Bool :=
  name ≠ [] && (encodedSize name).any (· ≤ 64) && name.all fun c => 0x21 ≤ c && c ≠ 0x2F && c ≠ 0x5C

/-- The names that `required` lists: strings, all different, all among the properties. -/
def validRequired (required : PyVal) (properties : List (Str × PyVal)) (limits : Limits) : Bool :=
  match required.sequence? with
  | none => false
  | some items => items.length ≤ limits.objectArrayItems &&
    (let names := items.filterMap PyVal.text?
     names.length == items.length && decide names.Nodup && names.all fun name => (properties.lookup name).isSome)

/-- `schema["minLength"] > schema["maxLength"]` and its like, where both are present. -/
def boundsInOrder (schema : PyVal) (low high : String) : Except Raised Bool :=
  match schema.get? low, schema.get? high with
  | some a, some b => (b.less a).map (!·)
  | _, _ => .ok true

/-- `_validate_schema_definition` -/
def validateSchemaDefinition (limits : Limits) : Nat → PyVal → Except Raised Unit
  | 0, _ => .error (.provider .invalidToolProposal)
  | room + 1, schema => do
    let some members := schema.members? | .error (.provider .invalidToolProposal)
    require (members.all fun p => schemaKeys.any fun key => p.1 == chars key) .invalidToolProposal
    let some schemaType := (schema.get? "type").bind PyVal.text? | .error (.provider .invalidToolProposal)
    require (schemaTypes.any fun t => schemaType == chars t) .invalidToolProposal
    require ((schema.get? "additionalProperties").all fun v => match v with | .bool false => true | _ => false)
      .invalidToolProposal
    if schemaType = chars "object" then
      let some properties := ((schema.get? "properties").getD (.dict false [])).members?
        | .error (.provider .invalidToolProposal)
      require (properties.length ≤ limits.objectArrayItems) .invalidToolProposal
      properties.forM fun p => do
        require (validPropertyName p.1) .invalidToolProposal
        validateSchemaDefinition limits room p.2
      require (validRequired ((schema.get? "required").getD (.list [])) properties limits) .invalidToolProposal
    else if schemaType = chars "array" then
      let items := (schema.get? "items").getD .none
      require items.isDict .invalidToolProposal
      validateSchemaDefinition limits room items
    else
      require (["properties", "required", "items", "additionalProperties"].all fun key => !schema.has key)
        .invalidToolProposal
    match schema.get? "enum" with
    | none => pure ()
    | some values =>
      let some items := values.sequence? | .error (.provider .invalidToolProposal)
      require (items ≠ [] && items.length ≤ limits.objectArrayItems) .invalidToolProposal
      jsonValue limits none 0 values
      require (items.all (schemaValueMatches · schemaType)) .invalidToolProposal
    require (["minLength", "maxLength"].all fun key => (schema.get? key).all fun v =>
      schemaType == chars "string" && isIntWithin 0 hardLimits.toolArgumentBytes v) .invalidToolProposal
    require (← boundsInOrder schema "minLength" "maxLength") .invalidToolProposal
    require (["minimum", "maximum"].all fun key => (schema.get? key).all fun v =>
      (schemaType == chars "integer" || schemaType == chars "number") && finiteNumber v) .invalidToolProposal
    require (← boundsInOrder schema "minimum" "maximum") .invalidToolProposal

/-- `type(value) is type(item) and value == item` for some item of the schema's `enum`. -/
def inEnum (value schema : PyVal) : Bool :=
  (schema.get? "enum").all fun values =>
    ((values.sequence?).getD []).any fun item => value.sameType item && value.equal item

/-- The size of a string is within the schema's bounds and this one. -/
def validateSize (size limit : Nat) (schema : PyVal) (kind : FailureClass) : Except Raised Unit := do
  let low ← (PyVal.int size).less ((schema.get? "minLength").getD (.int 0))
  let maxLength := (schema.get? "maxLength").getD (.int limit)
  let high ← maxLength.less (.int limit)
  let above ← (if high then maxLength else PyVal.int limit).less (.int size)
  require (!low && !above) kind

/-- A number is within the schema's bounds. -/
def validateRange (value schema : PyVal) (kind : FailureClass) : Except Raised Unit := do
  let below ← ((schema.get? "minimum").map value.less).getD (.ok false)
  let above ← ((schema.get? "maximum").map fun bound => bound.less value).getD (.ok false)
  require (!below && !above) kind

/-- `_validate_schema_definition(schema, limits)` -/
def checkSchemaDefinition (limits : Limits) (schema : PyVal) : Except Raised Unit :=
  validateSchemaDefinition limits (limits.jsonNestingDepth + 1) schema

/-- What `_validate_schema` checks of a value before it looks at its items. -/
def validateTop (limits : Limits) (value schema : PyVal) : Except Raised Str := do
  checkSchemaDefinition limits schema
  let schemaType := ((schema.get? "type").bind PyVal.text?).getD []
  require (schemaValueMatches value schemaType) .invalidToolProposal
  require (inEnum value schema) .invalidToolProposal
  return schemaType

mutual

/-- `_validate_schema` -/
def validateSchema (limits : Limits) : PyVal → PyVal → Except Raised Unit
  | .dict frozen members, schema => do
    let _ ← validateTop limits (.dict frozen members) schema
    let properties := (((schema.get? "properties").bind PyVal.members?).getD [])
    require (members.length ≤ limits.objectArrayItems && members.all fun p => (properties.lookup p.1).isSome)
      .invalidToolProposal
    require ((((schema.get? "required").bind PyVal.sequence?).getD []).all fun item =>
      (item.text?.bind fun name => members.lookup name).isSome) .invalidToolProposal
    validateSchemaMembers limits members properties
  | .list items, schema => do
    let _ ← validateTop limits (.list items) schema
    require (items.length ≤ limits.objectArrayItems) .invalidToolProposal
    validateSchemaItems limits items ((schema.get? "items").getD .none)
  | .tuple items, schema => do
    let _ ← validateTop limits (.tuple items) schema
    require (items.length ≤ limits.objectArrayItems) .invalidToolProposal
    validateSchemaItems limits items ((schema.get? "items").getD .none)
  | .str s, schema => do
    let _ ← validateTop limits (.str s) schema
    match encodedSize s with
    | none => .error .other
    | some size => validateSize size limits.toolArgumentBytes schema .invalidToolProposal
  | value, schema => do
    let schemaType ← validateTop limits value schema
    if schemaType = chars "integer" ∨ schemaType = chars "number" then do
      require (finiteNumber value) .invalidToolProposal
      validateRange value schema .invalidToolProposal
    else pure ()

def validateSchemaItems (limits : Limits) : List PyVal → PyVal → Except Raised Unit
  | [], _ => .ok ()
  | v :: l, schema => do
    validateSchema limits v schema
    validateSchemaItems limits l schema

def validateSchemaMembers (limits : Limits) : List (Str × PyVal) → List (Str × PyVal) → Except Raised Unit
  | [], _ => .ok ()
  | (k, v) :: l, properties => do
    validateSchema limits v ((properties.lookup k).getD .none)
    validateSchemaMembers limits l properties

end

end NativeMcp.Agent
