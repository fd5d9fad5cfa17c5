import NativeMcp.Agent.Normalization

/-!
# What an output schema accepts

`_validate_output_value` goes down a result and its schema together, as `_validate_schema` does; with a schema that
`_validate_output_schema_definition` has returned, it accepts a result exactly if all parts of it meet their schemas
(`validateOutputValue_eq`), and every refusal is a protocol failure.  At an `enum` it asks for an item of the same type
that Python finds equal, and for Python the booleans inside a container are numbers.
-/

namespace NativeMcp.Agent

/-! ### Equality as JSON -/

/-- Equality of two values one of which has no items, a boolean being no number. -/
def PyVal.jsonScalarEq (a b : PyVal) : Bool := isBool a == isBool b && a.scalarEq b

mutual

/-- Equality as JSON. -/
def PyVal.jsonEqual : PyVal → PyVal → Bool
  | .list items, .list items' => PyVal.jsonEqualItems items items'
  | .tuple items, .tuple items' => PyVal.jsonEqualItems items items'
  | .dict _ members, .dict _ members' => members.length == members'.length && PyVal.jsonEqualMembers members members'
  | a, b => PyVal.jsonScalarEq a b

def PyVal.jsonEqualItems : List PyVal → List PyVal → Bool
  | [], [] => true
  | v :: l, v' :: l' => PyVal.jsonEqual v v' && PyVal.jsonEqualItems l l'
  | _, _ => false

def PyVal.jsonEqualMembers : List (Str × PyVal) → List (Str × PyVal) → Bool
  | [], _ => true
  | (k, v) :: l, members =>
    match members.lookup k with
    | some v' => PyVal.jsonEqual v v' && PyVal.jsonEqualMembers l members
    | Option.none => false

end

mutual

/-- Somewhere one value has a boolean and the other has none. -/
def PyVal.mixesBool : PyVal → PyVal → Bool
  | .list items, .list items' => PyVal.mixesBoolItems items items'
  | .tuple items, .tuple items' => PyVal.mixesBoolItems items items'
  | .dict _ members, .dict _ members' => PyVal.mixesBoolMembers members members'
  | a, b => isBool a != isBool b

def PyVal.mixesBoolItems : List PyVal → List PyVal → Bool
  | v :: l, v' :: l' => PyVal.mixesBool v v' || PyVal.mixesBoolItems l l'
  | _, _ => false

def PyVal.mixesBoolMembers : List (Str × PyVal) → List (Str × PyVal) → Bool
  | [], _ => false
  | (k, v) :: l, members =>
    match members.lookup k with
    | some v' => PyVal.mixesBool v v' || PyVal.mixesBoolMembers l members
    | Option.none => PyVal.mixesBoolMembers l members

end

private theorem and_not_or (a b c d : Bool) : ((a && !c) && (b && !d)) = ((a && b) && !(c || d)) := by
  cases a <;> cases b <;> cases c <;> cases d <;> rfl

private theorem jsonEqualItems_eq {items : List PyVal}
    (h : ∀ v ∈ items, ∀ w, v.jsonEqual w = (v.equal w && !v.mixesBool w)) (items' : List PyVal) :
    PyVal.jsonEqualItems items items' = (PyVal.equalItems items items' && !PyVal.mixesBoolItems items items') := by
  induction items generalizing items' with
  | nil => cases items' <;> rfl
  | cons v items ih =>
    obtain ⟨hv, hitems⟩ := List.forall_mem_cons.1 h
    cases items' with
    | nil => rfl
    | cons w items' =>
      rw [PyVal.jsonEqualItems, PyVal.equalItems, PyVal.mixesBoolItems, hv, ih hitems, and_not_or]

private theorem jsonEqualMembers_eq {members : List (Str × PyVal)}
    (h : ∀ p ∈ members, ∀ w, p.2.jsonEqual w = (p.2.equal w && !p.2.mixesBool w)) (members' : List (Str × PyVal)) :
    PyVal.jsonEqualMembers members members' =
      (PyVal.equalMembers members members' && !PyVal.mixesBoolMembers members members') := by
  induction members with
  | nil => rfl
  | cons p members ih =>
    obtain ⟨name, v⟩ := p
    obtain ⟨hv, hmembers⟩ := List.forall_mem_cons.1 h
    rw [PyVal.jsonEqualMembers, PyVal.equalMembers, PyVal.mixesBoolMembers, ih hmembers]
    cases members'.lookup name with
    | none => rfl
    | some w =>
      dsimp only
      rw [hv, and_not_or]

/-- Values are equal as JSON if Python finds them equal and neither has a boolean where the other has none. -/
theorem jsonEqual_eq (v w : PyVal) : v.jsonEqual w = (v.equal w && !v.mixesBool w) := by
  have hscalar : ∀ a b : PyVal, a.jsonScalarEq b = (a.scalarEq b && !(isBool a != isBool b)) := by
    intro a b
    unfold PyVal.jsonScalarEq
    cases isBool a <;> cases isBool b <;> cases a.scalarEq b <;> rfl
  induction v using PyVal.induction generalizing w with
  | dict frozen members ih =>
    cases w with
    | dict frozen' members' =>
      rw [PyVal.jsonEqual, PyVal.equal, PyVal.mixesBool, jsonEqualMembers_eq ih, Bool.and_assoc]
    | _ => exact hscalar _ _
  | list items ih =>
    cases w with
    | list items' => exact jsonEqualItems_eq ih items'
    | _ => exact hscalar _ _
  | tuple items ih =>
    cases w with
    | tuple items' => exact jsonEqualItems_eq ih items'
    | _ => exact hscalar _ _
  | _ => cases w <;> exact hscalar _ _

/-! ### Nesting -/

mutual

/-- How deep the value is nested. -/
def PyVal.nesting : PyVal → Nat
  | .list items => PyVal.nestingItems items
  | .tuple items => PyVal.nestingItems items
  | .dict _ members => PyVal.nestingMembers members
  | _ => 0

/-- How deep a list of values is nested in the value that holds it. -/
def PyVal.nestingItems : List PyVal → Nat
  | [] => 0
  | v :: l => max (v.nesting + 1) (PyVal.nestingItems l)

def PyVal.nestingMembers : List (Str × PyVal) → Nat
  | [] => 0
  | p :: l => max (p.2.nesting + 1) (PyVal.nestingMembers l)

end

/-! ### Output schemas -/

/-- A schema that `_validate_output_schema_definition` has returned, at whatever level. -/
def OutputSchema (limits : Limits) (schema : PyVal) : Prop :=
  ∃ room raw, validateOutputSchemaDefinition limits room raw = .ok schema

/-- The types of a schema. -/
def outputTypes (schema : PyVal) : List Str := (listedTypes schema).getD []

/-- What `_validate_output_value` relies on in such a schema. -/
structure OutputDefined (limits : Limits) (schema : PyVal) : Prop where
  types : schemaTypesOf schema = .ok (outputTypes schema)
  properties : chars "object" ∈ outputTypes schema → ∀ p ∈ propertiesOf schema, OutputSchema limits p.2
  items : chars "array" ∈ outputTypes schema → OutputSchema limits (itemsOf schema)
  count : chars "array" ∈ outputTypes schema → ∃ n : Int, schema.get? "maxItems" = some (.int n)
  lengths : ∀ key ∈ ["minLength", "maxLength"], ∀ v, schema.get? key = some v → v.isInt = true
  bounds : ∀ key ∈ ["minimum", "maximum"], ∀ v, schema.get? key = some v → finiteNumber v = true

theorem get?_frozenOf (v : PyVal) (key : String) : (frozenOf v).get? key = (v.get? key).map frozenOf := by
  cases v with
  | dict frozen members => exact lookup_frozenMembers members (chars key)
  | _ => rfl

theorem members?_frozenOf (v : PyVal) : (frozenOf v).members? = v.members?.map frozenMembers := by
  cases v <;> rfl

theorem propertiesOf_frozenOf (v : PyVal) : propertiesOf (frozenOf v) = frozenMembers (propertiesOf v) := by
  unfold propertiesOf
  rw [get?_frozenOf]
  cases v.get? "properties" with
  | none => rfl
  | some properties =>
    rw [Option.map_some, Option.bind_some, Option.bind_some, members?_frozenOf]
    cases properties.members? <;> rfl

theorem itemsOf_frozenOf (v : PyVal) : itemsOf (frozenOf v) = frozenOf (itemsOf v) := by
  unfold itemsOf
  rw [get?_frozenOf]
  cases v.get? "items" <;> rfl

theorem listedTypes_frozenOf (v : PyVal) : listedTypes (frozenOf v) = listedTypes v := by
  have hnames : ∀ items : List PyVal, (items.map frozenOf).mapM PyVal.text? = items.mapM PyVal.text? := by
    intro items
    rw [List.mapM_map]
    exact congrArg items.mapM (funext text?_frozenOf)
  unfold listedTypes
  rw [get?_frozenOf]
  cases v.get? "type" with
  | none => rfl
  | some t =>
    cases t with
    | list items | tuple items =>
      show (if frozenItems items = [] then _ else _) = _
      rw [frozenItems_eq, hnames]
      simp only [List.map_eq_nil_iff]
    | _ => rfl

section

variable {limits : Limits} {room : Nat} {raw schema : PyVal}

theorem schemaTypesOf_eq_ok {types : List Str} (h : schemaTypesOf schema = .ok types) :
    listedTypes schema = some types ∧ types.Nodup ∧ types.all (isKey schemaTypes) = true := by
  unfold schemaTypesOf at h
  cases hlisted : listedTypes schema with
  | none =>
    rw [hlisted] at h
    cases h
  | some listed =>
    rw [hlisted] at h
    obtain ⟨hknown, h⟩ := require_bind_eq_ok.1 h
    cases h
    obtain ⟨hnodup, hall⟩ := Bool.and_eq_true_iff.1 hknown
    exact ⟨rfl, of_decide_eq_true hnodup, hall⟩

/-- The checks of `_validate_output_schema_definition` one after the other. -/
theorem validateOutputSchemaDefinition_ok (h : validateOutputSchemaDefinition limits (room + 1) raw = .ok schema) :
    schema = frozenOf raw ∧ ∃ types, schemaTypesOf raw = .ok types ∧
      outputObject limits (validateOutputSchemaDefinition limits room) raw types = .ok () ∧
      outputArray limits (validateOutputSchemaDefinition limits room) raw types = .ok () ∧
      outputBounds limits raw types = .ok () := by
  rw [validateOutputSchemaDefinition] at h
  split at h
  · cases h
  · obtain ⟨-, h⟩ := require_bind_eq_ok.1 h
    obtain ⟨types, htypes, h⟩ := ok_of_bind h
    obtain ⟨hobject, h⟩ := bind_eq_ok_iff.1 h
    obtain ⟨harray, h⟩ := bind_eq_ok_iff.1 h
    obtain ⟨-, h⟩ := bind_eq_ok_iff.1 h
    obtain ⟨hbounds, h⟩ := bind_eq_ok_iff.1 h
    exact ⟨(freezeJson_spec h).1, types, htypes, hobject, harray, hbounds⟩

theorem validateOutputSchemaDefinition_eq_frozenOf (h : validateOutputSchemaDefinition limits room raw = .ok schema) :
    schema = frozenOf raw := by
  cases room with
  | zero => cases h
  | succ room => exact (validateOutputSchemaDefinition_ok h).1

private theorem outputObject_properties {types : List Str}
    (h : outputObject limits (validateOutputSchemaDefinition limits room) raw types = .ok ())
    (hobject : chars "object" ∈ types) : ∀ p ∈ propertiesOf raw, OutputSchema limits (frozenOf p.2) := by
  unfold outputObject at h
  rw [if_pos (List.contains_iff_mem.2 hobject)] at h
  obtain ⟨-, h⟩ := require_bind_eq_ok.1 h
  split at h
  · cases h
  · rename_i properties hproperties
    obtain ⟨-, h⟩ := require_bind_eq_ok.1 h
    obtain ⟨-, h⟩ := require_bind_eq_ok.1 h
    have hsame : propertiesOf raw = properties := by
      unfold propertiesOf
      cases hget : raw.get? "properties" with
      | none =>
        rw [hget] at hproperties
        cases hproperties
        rfl
      | some v =>
        rw [hget, Option.getD_some] at hproperties
        rw [Option.bind_some, hproperties]
        rfl
    rw [hsame]
    intro p hp
    obtain ⟨-, hone⟩ := require_bind_eq_ok.1 (ok_of_forM h p hp)
    obtain ⟨child, hchild, -⟩ := ok_of_bind hone
    rw [← validateOutputSchemaDefinition_eq_frozenOf hchild]
    exact ⟨room, p.2, hchild⟩

private theorem outputArray_items {types : List Str}
    (h : outputArray limits (validateOutputSchemaDefinition limits room) raw types = .ok ())
    (harray : chars "array" ∈ types) :
    OutputSchema limits (frozenOf (itemsOf raw)) ∧ ∃ n : Int, raw.get? "maxItems" = some (.int n) := by
  unfold outputArray at h
  rw [if_pos (List.contains_iff_mem.2 harray)] at h
  obtain ⟨-, h⟩ := require_bind_eq_ok.1 h
  obtain ⟨hcount, h⟩ := require_bind_eq_ok.1 h
  obtain ⟨child, hchild, -⟩ := ok_of_bind h
  constructor
  · have hfrozen := validateOutputSchemaDefinition_eq_frozenOf hchild
    show OutputSchema limits (frozenOf ((raw.get? "items").getD .none))
    rw [← hfrozen]
    exact ⟨room, _, hchild⟩
  · obtain ⟨v, hv, hint⟩ := (Option.any_eq_true _ _).1 hcount
    cases v with
    | int n => exact ⟨n, hv⟩
    | _ => cases hint

private theorem finite_of_bounded {v : PyVal} (h : boundedMcpNumber v = true) : finiteNumber v = true := by
  cases v with
  | int i => rfl
  | float f => exact h
  | _ => cases h

private theorem outputBounds_keys {types : List Str} (h : outputBounds limits raw types = .ok ()) :
    (∀ key ∈ ["minLength", "maxLength"], ∀ v, raw.get? key = some v → v.isInt = true) ∧
      ∀ key ∈ ["minimum", "maximum"], ∀ v, raw.get? key = some v → finiteNumber v = true := by
  obtain ⟨hlengths, h⟩ := require_bind_eq_ok.1 h
  obtain ⟨_, -, h⟩ := ok_of_bind h
  obtain ⟨-, h⟩ := require_bind_eq_ok.1 h
  obtain ⟨hbounds, -⟩ := require_bind_eq_ok.1 h
  constructor
  · intro key hkey v hv
    have hall := List.all_eq_true.1 hlengths key hkey
    rw [hv, Option.all_some, Bool.and_eq_true] at hall
    cases v with
    | int n => rfl
    | _ => cases hall.2
  · intro key hkey v hv
    have hall := List.all_eq_true.1 hbounds key hkey
    rw [hv, Option.all_some, Bool.and_eq_true] at hall
    exact finite_of_bounded hall.2

theorem outputSchema_spec (h : OutputSchema limits schema) : OutputDefined limits schema := by
  obtain ⟨room, raw, h⟩ := h
  cases room with
  | zero => cases h
  | succ room =>
    obtain ⟨rfl, types, htypes, hobject, harray, hbounds⟩ := validateOutputSchemaDefinition_ok h
    have hlisted : listedTypes (frozenOf raw) = some types := by
      rw [listedTypes_frozenOf]
      exact (schemaTypesOf_eq_ok htypes).1
    have houtput : outputTypes (frozenOf raw) = types := by
      unfold outputTypes
      rw [hlisted]
      rfl
    have hunfrozen : ∀ {key : String} {v : PyVal}, (frozenOf raw).get? key = some v →
        ∃ w, raw.get? key = some w ∧ v = frozenOf w := by
      intro key v hv
      rw [get?_frozenOf] at hv
      obtain ⟨w, hw, rfl⟩ := Option.map_eq_some_iff.1 hv
      exact ⟨w, hw, rfl⟩
    obtain ⟨hlengths, hranges⟩ := outputBounds_keys hbounds
    refine ⟨?_, ?_, ?_, ?_, ?_, ?_⟩
    · unfold schemaTypesOf at htypes ⊢
      rw [listedTypes_frozenOf, houtput]
      exact htypes
    · rw [houtput]
      intro hmem p hp
      rw [propertiesOf_frozenOf, frozenMembers_eq] at hp
      obtain ⟨q, hq, rfl⟩ := List.mem_map.1 hp
      exact outputObject_properties hobject hmem q hq
    · rw [houtput, itemsOf_frozenOf]
      intro hmem
      exact (outputArray_items harray hmem).1
    · rw [houtput]
      intro hmem
      obtain ⟨n, hn⟩ := (outputArray_items harray hmem).2
      refine ⟨n, ?_⟩
      rw [get?_frozenOf, hn]
      rfl
    · intro key hkey v hv
      obtain ⟨w, hw, rfl⟩ := hunfrozen hv
      obtain ⟨n, rfl⟩ := eq_int_of_isInt (hlengths key hkey w hw)
      rfl
    · intro key hkey v hv
      obtain ⟨w, hw, rfl⟩ := hunfrozen hv
      rw [finiteNumber_frozenOf]
      exact hranges key hkey w hw

end

/-! ### What is checked of one part -/

/-- A number that is no boolean. -/
def PyVal.isNumeric : PyVal → Bool
  | .int _ => true
  | .float _ => true
  | _ => false

/-- What is checked of one value, whatever is below it. -/
def meetsOutput (limits : Limits) (value schema : PyVal) : Bool :=
  (outputTypes schema).any (schemaTypeMatches value) && inEnum value schema &&
  match value with
  | .dict _ members => members.length ≤ limits.objectArrayItems &&
      members.all (fun p => ((propertiesOf schema).lookup p.1).isSome) &&
      (requiredOf schema).all fun item => (item.text?.bind fun name => members.lookup name).isSome
  | .list items => (intAt schema "maxItems").any fun n => (items.length : Int) ≤ n
  | .tuple items => (intAt schema "maxItems").any fun n => (items.length : Int) ≤ n
  | .str s => (encodedSize s).any fun size => withinLength limits.mcpResponseBytes size schema
  | value => !value.isNumeric || meetsRange value schema

theorem schemaTypeMatches_eq {v : PyVal} (h : v.isNumeric = false) (t : Str) :
    schemaTypeMatches v t = schemaValueMatches v t := by
  cases v with
  | int i => cases h
  | float f => cases h
  | _ => rfl

/-- The type that a value matches says whether it is a number. -/
theorem matches_numeric {v : PyVal} {t : Str} (h : schemaTypeMatches v t = true) :
    t = chars "integer" ∨ t = chars "number" ↔ v.isNumeric = true := by
  constructor
  · rintro (rfl | rfl)
    · cases v with
      | int i => rfl
      | float f => rfl
      | _ => cases h
    · cases v with
      | int i => rfl
      | float f => rfl
      | _ => cases h
  · intro hnumeric
    by_contra hne
    obtain ⟨hinteger, hnumber⟩ := not_or.1 hne
    unfold schemaTypeMatches at h
    rw [if_neg hinteger, if_neg hnumber] at h
    cases v with
    | int i => split_ifs at h <;> cases h
    | float f => split_ifs at h <;> cases h
    | _ => cases hnumeric

theorem finite_of_matchesNumeric {v : PyVal} {t : Str} (h : schemaTypeMatches v t = true)
    (hnumeric : v.isNumeric = true) : finiteNumber v = true := by
  have hbounded : boundedMcpNumber v = true := by
    have ht := (matches_numeric h).2 hnumeric
    unfold schemaTypeMatches at h
    rcases ht with rfl | rfl
    · rw [if_neg (by decide), if_neg (by decide), if_pos rfl] at h
      exact (Bool.and_eq_true_iff.1 h).2
    · rwa [if_neg (by decide), if_neg (by decide), if_neg (by decide), if_pos rfl] at h
  exact finite_of_bounded hbounded

/-! ### The outcome of `_validate_output_value` -/

/-- One check after another, the second where the first holds. -/
theorem require_bind_congr {a b : Bool} {kind : FailureClass} {f : Unit → Except Raised Unit}
    (h : a = true → f () = require b kind) : (require a kind >>= f) = require (a && b) kind := by
  cases a with
  | true => exact h rfl
  | false => rfl

private theorem nestingItems_le {items : List PyVal} {depth bound : Nat} :
    depth + PyVal.nestingItems items ≤ bound ↔ depth ≤ bound ∧ ∀ v ∈ items, depth + 1 + v.nesting ≤ bound := by
  induction items with
  | nil => simp [PyVal.nestingItems]
  | cons v items ih =>
    rw [PyVal.nestingItems, List.forall_mem_cons]
    constructor
    · intro h
      obtain ⟨hdepth, hitems⟩ := ih.1 (by omega)
      exact ⟨hdepth, by omega, hitems⟩
    · rintro ⟨hdepth, hv, hitems⟩
      have := ih.2 ⟨hdepth, hitems⟩
      omega

private theorem nestingMembers_le {members : List (Str × PyVal)} {depth bound : Nat} :
    depth + PyVal.nestingMembers members ≤ bound ↔ depth ≤ bound ∧ ∀ p ∈ members, depth + 1 + p.2.nesting ≤ bound := by
  induction members with
  | nil => simp [PyVal.nestingMembers]
  | cons p members ih =>
    rw [PyVal.nestingMembers, List.forall_mem_cons]
    constructor
    · intro h
      obtain ⟨hdepth, hmembers⟩ := ih.1 (by omega)
      exact ⟨hdepth, by omega, hmembers⟩
    · rintro ⟨hdepth, hp, hmembers⟩
      have := ih.2 ⟨hdepth, hmembers⟩
      omega

section

variable {limits : Limits} {schema : PyVal}

/-- The checks of a value itself. -/
theorem validateOutputTop_eq (h : OutputDefined limits schema) (depth : Nat) (value : PyVal) :
    validateOutputTop limits depth value schema =
      (require (decide (depth ≤ limits.jsonNestingDepth) &&
        ((outputTypes schema).any (schemaTypeMatches value) && inEnum value schema)) .mcpProtocolFailure >>= fun _ =>
          .ok (((outputTypes schema).find? (schemaTypeMatches value)).getD [])) := by
  unfold validateOutputTop
  rw [h.types]
  cases decide (depth ≤ limits.jsonNestingDepth) with
  | false => rfl
  | true =>
    have hany : ((outputTypes schema).find? (schemaTypeMatches value)).isSome =
        (outputTypes schema).any (schemaTypeMatches value) := by
      rw [Bool.eq_iff_iff, List.find?_isSome, List.any_eq_true]
    rw [← hany]
    simp only [require, bind, Except.bind, if_true]
    cases (outputTypes schema).find? (schemaTypeMatches value) with
    | none => rfl
    | some matching => rfl

/-- All parts of a value meet their schemas, and the value is not nested too deep. -/
def conformsOutput (limits : Limits) (depth : Nat) (value schema : PyVal) : Bool :=
  decide (depth + value.nesting ≤ limits.jsonNestingDepth) &&
    (parts value schema).all fun q => meetsOutput limits q.1 q.2

theorem conformsOutput_iff {depth : Nat} {value : PyVal} :
    conformsOutput limits depth value schema = true ↔
      depth + value.nesting ≤ limits.jsonNestingDepth ∧ ∀ q ∈ parts value schema, meetsOutput limits q.1 q.2 = true := by
  unfold conformsOutput
  rw [Bool.and_eq_true, decide_eq_true_iff, List.all_eq_true]

private theorem conformsOutput_items {depth : Nat} {value : PyVal} {items : List PyVal}
    (hnesting : value.nesting = PyVal.nestingItems items)
    (hparts : parts value schema = (value, schema) :: partsOfItems items (itemsOf schema)) :
    conformsOutput limits depth value schema = (decide (depth ≤ limits.jsonNestingDepth) &&
      (meetsOutput limits value schema && items.all fun v => conformsOutput limits (depth + 1) v (itemsOf schema))) := by
  rw [Bool.eq_iff_iff, conformsOutput_iff, hnesting, hparts, nestingItems_le, List.forall_mem_cons, forall_partsOfItems,
    Bool.and_eq_true, Bool.and_eq_true, decide_eq_true_iff, List.all_eq_true]
  constructor
  · rintro ⟨⟨hdepth, hdepths⟩, hmeets, hitems⟩
    exact ⟨hdepth, hmeets, fun v hv => conformsOutput_iff.2 ⟨hdepths v hv, hitems v hv⟩⟩
  · rintro ⟨hdepth, hmeets, hitems⟩
    exact ⟨⟨hdepth, fun v hv => (conformsOutput_iff.1 (hitems v hv)).1⟩, hmeets,
      fun v hv => (conformsOutput_iff.1 (hitems v hv)).2⟩

private theorem conformsOutput_members {depth : Nat} {frozen : Bool} {members : List (Str × PyVal)} :
    conformsOutput limits depth (.dict frozen members) schema = (decide (depth ≤ limits.jsonNestingDepth) &&
      (meetsOutput limits (.dict frozen members) schema &&
        members.all fun p => conformsOutput limits (depth + 1) p.2 (((propertiesOf schema).lookup p.1).getD .none))) := by
  have hnesting : (PyVal.dict frozen members).nesting = PyVal.nestingMembers members := rfl
  rw [Bool.eq_iff_iff, conformsOutput_iff, hnesting, parts, nestingMembers_le, List.forall_mem_cons,
    forall_partsOfMembers, Bool.and_eq_true, Bool.and_eq_true, decide_eq_true_iff, List.all_eq_true]
  constructor
  · rintro ⟨⟨hdepth, hdepths⟩, hmeets, hmembers⟩
    exact ⟨hdepth, hmeets, fun p hp => conformsOutput_iff.2 ⟨hdepths p hp, hmembers p hp⟩⟩
  · rintro ⟨hdepth, hmeets, hmembers⟩
    exact ⟨⟨hdepth, fun p hp => (conformsOutput_iff.1 (hmembers p hp)).1⟩, hmeets,
      fun p hp => (conformsOutput_iff.1 (hmembers p hp)).2⟩

private theorem validateOutputItems_eq {depth : Nat} {items : List PyVal}
    (h : ∀ v ∈ items, validateOutputValue limits depth v schema =
      require (conformsOutput limits depth v schema) .mcpProtocolFailure) :
    validateOutputItems limits depth items schema =
      require (items.all fun v => conformsOutput limits depth v schema) .mcpProtocolFailure := by
  induction items with
  | nil => rfl
  | cons v items ih =>
    obtain ⟨hv, hitems⟩ := List.forall_mem_cons.1 h
    rw [validateOutputItems, hv, ih hitems, require_and, List.all_cons]

private theorem validateOutputMembers_eq {depth : Nat} {members properties : List (Str × PyVal)}
    (h : ∀ p ∈ members, validateOutputValue limits depth p.2 ((properties.lookup p.1).getD .none) =
      require (conformsOutput limits depth p.2 ((properties.lookup p.1).getD .none)) .mcpProtocolFailure) :
    validateOutputMembers limits depth members properties =
      require (members.all fun p => conformsOutput limits depth p.2 ((properties.lookup p.1).getD .none))
        .mcpProtocolFailure := by
  induction members with
  | nil => rfl
  | cons p members ih =>
    obtain ⟨name, v⟩ := p
    obtain ⟨hv, hmembers⟩ := List.forall_mem_cons.1 h
    rw [validateOutputMembers, hv, ih hmembers, require_and, List.all_cons]

/-- A sequence is checked, and then its items. -/
private theorem validateOutputValue_sequence {depth : Nat} {value : PyVal} {items : List PyVal}
    (hschema : OutputSchema limits schema) (hvalue : value.sequence? = some items)
    (hnesting : value.nesting = PyVal.nestingItems items)
    (hparts : parts value schema = (value, schema) :: partsOfItems items (itemsOf schema))
    (hmeets : meetsOutput limits value schema = ((outputTypes schema).any (schemaTypeMatches value) &&
      inEnum value schema && (intAt schema "maxItems").any fun n => (items.length : Int) ≤ n))
    (hrun : validateOutputValue limits depth value schema = (validateOutputTop limits depth value schema >>= fun _ =>
      validateCount items.length schema >>= fun _ => validateOutputItems limits (depth + 1) items (itemsOf schema)))
    (hitems : OutputSchema limits (itemsOf schema) → ∀ v ∈ items,
      validateOutputValue limits (depth + 1) v (itemsOf schema) =
        require (conformsOutput limits (depth + 1) v (itemsOf schema)) .mcpProtocolFailure) :
    validateOutputValue limits depth value schema = require (conformsOutput limits depth value schema) .mcpProtocolFailure := by
  have hdef := outputSchema_spec hschema
  rw [hrun, validateOutputTop_eq hdef, require_bind_ok, conformsOutput_items hnesting hparts, hmeets]
  rw [require_bind_congr (b := (intAt schema "maxItems").any (fun n => (items.length : Int) ≤ n) &&
    items.all fun v => conformsOutput limits (depth + 1) v (itemsOf schema)) ?_]
  · simp only [Bool.and_assoc]
  · intro htop
    have hany := (Bool.and_eq_true_iff.1 (Bool.and_eq_true_iff.1 htop).2).1
    obtain ⟨t, ht, hmatches⟩ := List.any_eq_true.1 hany
    have hscalar : value.isNumeric = false := by
      cases value with
      | int i => cases hvalue
      | float f => cases hvalue
      | _ => rfl
    rw [schemaTypeMatches_eq hscalar, schemaValueMatches_sequence (by rw [hvalue]; rfl), beq_iff_eq] at hmatches
    subst hmatches
    obtain ⟨n, hn⟩ := hdef.count ht
    have hint : intAt schema "maxItems" = some n := by
      unfold intAt
      rw [hn]
    have hcount : validateCount items.length schema = require (decide ((items.length : Int) ≤ n)) .mcpProtocolFailure := by
      unfold validateCount
      rw [hn]
      show ((PyVal.int n).less (.int items.length) >>= fun oversized => _) = _
      rw [less_int]
      show require (!decide (n < (items.length : Int))) _ = _
      rw [show (!decide (n < (items.length : Int))) = decide ((items.length : Int) ≤ n) by
        rw [Bool.eq_iff_iff]; simp]
    rw [hcount, hint, Option.any_some]
    exact require_bind_congr fun _ => validateOutputItems_eq (hitems (hdef.items ht))

/-- A scalar is checked by itself. -/
private theorem validateOutputValue_scalar {depth : Nat} {value : PyVal} (hschema : OutputSchema limits schema)
    (hnesting : value.nesting = 0) (hparts : parts value schema = [(value, schema)])
    (hmeets : meetsOutput limits value schema = ((outputTypes schema).any (schemaTypeMatches value) &&
      inEnum value schema && (!value.isNumeric || meetsRange value schema)))
    (hrun : validateOutputValue limits depth value schema = (validateOutputTop limits depth value schema >>= fun t =>
      if t = chars "integer" ∨ t = chars "number" then validateRange value schema .mcpProtocolFailure else pure ())) :
    validateOutputValue limits depth value schema = require (conformsOutput limits depth value schema) .mcpProtocolFailure := by
  have hdef := outputSchema_spec hschema
  have hconforms : conformsOutput limits depth value schema = (decide (depth ≤ limits.jsonNestingDepth) &&
      ((outputTypes schema).any (schemaTypeMatches value) && inEnum value schema) &&
      (!value.isNumeric || meetsRange value schema)) := by
    unfold conformsOutput
    rw [hnesting, hparts, List.all_cons, List.all_nil, Bool.and_true, hmeets, Nat.add_zero]
    simp only [Bool.and_assoc]
  rw [hrun, validateOutputTop_eq hdef, require_bind_ok, hconforms]
  refine require_bind_congr fun htop => ?_
  have hany := (Bool.and_eq_true_iff.1 (Bool.and_eq_true_iff.1 htop).2).1
  obtain ⟨t, hfind⟩ := Option.isSome_iff_exists.1 (List.find?_isSome.2 (List.any_eq_true.1 hany))
  have hmatches : schemaTypeMatches value t = true := List.find?_some hfind
  rw [hfind, Option.getD_some]
  cases hnumeric : value.isNumeric with
  | true =>
    rw [if_pos ((matches_numeric hmatches).2 hnumeric)]
    exact validateRange_eq (finite_of_matchesNumeric hmatches hnumeric) hdef.bounds _
  | false =>
    rw [if_neg fun ht => by rw [(matches_numeric hmatches).1 ht] at hnumeric; cases hnumeric]
    rfl

/-- A value is accepted if all of its parts meet their schemas and it is not nested too deep, and refused with one class
otherwise. -/
theorem validateOutputValue_eq {depth : Nat} {value : PyVal} (hschema : OutputSchema limits schema)
    (hvalue : value.encodable = true) :
    validateOutputValue limits depth value schema =
      require (conformsOutput limits depth value schema) .mcpProtocolFailure := by
  induction value using PyVal.induction generalizing depth schema with
  | dict frozen members ih =>
    have hdef := outputSchema_spec hschema
    rw [validateOutputValue, validateOutputTop_eq hdef, require_bind_ok, conformsOutput_members, meetsOutput]
    rw [require_bind_congr (b := (members.length ≤ limits.objectArrayItems &&
      members.all fun p => ((propertiesOf schema).lookup p.1).isSome) &&
      ((requiredOf schema).all (fun item => (item.text?.bind fun name => members.lookup name).isSome) &&
        members.all fun p => conformsOutput limits (depth + 1) p.2 (((propertiesOf schema).lookup p.1).getD .none))) ?_]
    · simp only [Bool.and_assoc]
    · intro htop
      have hany := (Bool.and_eq_true_iff.1 (Bool.and_eq_true_iff.1 htop).2).1
      obtain ⟨t, ht, hmatches⟩ := List.any_eq_true.1 hany
      rw [schemaTypeMatches_eq rfl, schemaValueMatches_dict, beq_iff_eq] at hmatches
      subst hmatches
      refine require_bind_congr fun hknown => require_bind_congr fun _ => validateOutputMembers_eq ?_
      intro p hp
      have hsome := List.all_eq_true.1 (Bool.and_eq_true_iff.1 hknown).2 p hp
      obtain ⟨child, hchild⟩ := Option.isSome_iff_exists.1 hsome
      rw [hchild]
      exact ih p hp (hdef.properties ht _ (mem_of_lookup_eq_some hchild)) (encodableMembers_iff.1 hvalue p hp)
  | list items ih =>
    refine validateOutputValue_sequence hschema rfl rfl rfl rfl (by rw [validateOutputValue]) fun hitems v hv => ?_
    exact ih v hv hitems (encodableItems_iff.1 hvalue v hv)
  | tuple items ih =>
    refine validateOutputValue_sequence hschema rfl rfl rfl rfl (by rw [validateOutputValue]) fun hitems v hv => ?_
    exact ih v hv hitems (encodableItems_iff.1 hvalue v hv)
  | str s =>
    have hdef := outputSchema_spec hschema
    obtain ⟨size, hsize⟩ := Option.isSome_iff_exists.1 (show (encodedSize s).isSome = true from hvalue)
    have hconforms : conformsOutput limits depth (.str s) schema = (decide (depth ≤ limits.jsonNestingDepth) &&
        ((outputTypes schema).any (schemaTypeMatches (.str s)) && inEnum (.str s) schema) &&
        withinLength limits.mcpResponseBytes size schema) := by
      have hparts : parts (.str s) schema = [(.str s, schema)] := rfl
      unfold conformsOutput
      rw [hparts, List.all_cons, List.all_nil, Bool.and_true, Bool.and_assoc]
      unfold meetsOutput
      dsimp only
      rw [hsize, Option.any_some]
      rfl
    rw [validateOutputValue, validateOutputTop_eq hdef, require_bind_ok, hconforms]
    refine require_bind_congr fun _ => ?_
    rw [hsize]
    exact validateSize_within hdef.lengths _
  | none | bool b | int i | float f | other =>
    exact validateOutputValue_scalar hschema rfl rfl rfl rfl

/-- The type that a value has among those of a schema that it meets. -/
private theorem exists_type {value : PyVal} (h : meetsOutput limits value schema = true) :
    ∃ t ∈ outputTypes schema, schemaTypeMatches value t = true :=
  List.any_eq_true.1 (Bool.and_eq_true_iff.1 (Bool.and_eq_true_iff.1 h).1).1

/-- Every part of a value that meets its schemas is under a schema that was checked. -/
theorem parts_outputSchema {value : PyVal} (hschema : OutputSchema limits schema)
    (h : ∀ q ∈ parts value schema, meetsOutput limits q.1 q.2 = true) :
    ∀ q ∈ parts value schema, OutputSchema limits q.2 := by
  have hsequence : ∀ {value : PyVal} {schema : PyVal}, OutputSchema limits schema → value.sequence?.isSome = true →
      meetsOutput limits value schema = true → OutputSchema limits (itemsOf schema) := by
    intro value schema hschema hvalue hmeets
    obtain ⟨t, ht, hmatches⟩ := exists_type hmeets
    have hscalar : value.isNumeric = false := by
      cases value with
      | int i => cases hvalue
      | float f => cases hvalue
      | _ => rfl
    rw [schemaTypeMatches_eq hscalar, schemaValueMatches_sequence hvalue, beq_iff_eq] at hmatches
    subst hmatches
    exact (outputSchema_spec hschema).items ht
  induction value using PyVal.induction generalizing schema with
  | dict frozen members ih =>
    rw [parts, List.forall_mem_cons, forall_partsOfMembers] at h ⊢
    obtain ⟨hmeets, hmembers⟩ := h
    refine ⟨hschema, fun p hp => ih p hp ?_ (hmembers p hp)⟩
    obtain ⟨t, ht, hmatches⟩ := exists_type hmeets
    rw [schemaTypeMatches_eq rfl, schemaValueMatches_dict, beq_iff_eq] at hmatches
    subst hmatches
    have hknown := (Bool.and_eq_true_iff.1 (Bool.and_eq_true_iff.1 (Bool.and_eq_true_iff.1 hmeets).2).1).2
    obtain ⟨child, hchild⟩ := Option.isSome_iff_exists.1 (List.all_eq_true.1 hknown p hp)
    rw [hchild]
    exact (outputSchema_spec hschema).properties ht _ (mem_of_lookup_eq_some hchild)
  | list items ih =>
    rw [parts, List.forall_mem_cons, forall_partsOfItems] at h ⊢
    exact ⟨hschema, fun v hv => ih v hv (hsequence hschema rfl h.1) (h.2 v hv)⟩
  | tuple items ih =>
    rw [parts, List.forall_mem_cons, forall_partsOfItems] at h ⊢
    exact ⟨hschema, fun v hv => ih v hv (hsequence hschema rfl h.1) (h.2 v hv)⟩
  | _ =>
    intro q hq
    rw [List.mem_singleton.1 hq]
    exact hschema

/-- A value satisfies its schema, whatever is below it. -/
structure Satisfies (value schema : PyVal) : Prop where
  type : ∃ t ∈ outputTypes schema, schemaTypeMatches value t = true
  integer : ∀ i, value = .int i → -2 ^ 63 ≤ i ∧ i ≤ 2 ^ 64 - 1
  object : ∀ frozen members, value = .dict frozen members →
    (∀ p ∈ members, p.1 ∈ propertyNames schema) ∧
      ∀ item ∈ requiredOf schema, ∃ name, item = .str name ∧ name ∈ members.map Prod.fst
  array : ∀ items, value.sequence? = some items →
    ∃ n : Int, schema.get? "maxItems" = some (.int n) ∧ (items.length : Int) ≤ n
  string : ∀ s, value = .str s → ∃ size : Nat, encodedSize s = some size ∧
    (∀ low, schema.get? "minLength" = some low → ∃ n : Int, low = .int n ∧ n ≤ size) ∧
      ∀ high, schema.get? "maxLength" = some high → ∃ n : Int, high = .int n ∧ (size : Int) ≤ n
  number : value.isNumeric = true →
    (∀ low, schema.get? "minimum" = some low → value.less low = .ok false) ∧
      ∀ high, schema.get? "maximum" = some high → high.less value = .ok false
  enum : ∀ values, schema.get? "enum" = some values → ∃ item ∈ values.sequence?.getD [], value.jsonEqual item = true

private theorem mem_names_of_lookup {α : Type} {members : List (Str × α)} {name : Str}
    (h : (members.lookup name).isSome = true) : name ∈ members.map Prod.fst := by
  obtain ⟨v, hv⟩ := Option.isSome_iff_exists.1 h
  exact List.mem_map.2 ⟨_, mem_of_lookup_eq_some hv, rfl⟩

private theorem less_of_meetsRange {value : PyVal} (hdef : OutputDefined limits schema)
    (h : meetsRange value schema = true) :
    (∀ low, schema.get? "minimum" = some low → value.less low = .ok false) ∧
      ∀ high, schema.get? "maximum" = some high → high.less value = .ok false := by
  obtain ⟨n, hn, hbounds⟩ := (Option.any_eq_true _ _).1 (Bool.and_eq_true_iff.1 h).2
  obtain ⟨hlow, hhigh⟩ := Bool.and_eq_true_iff.1 hbounds
  constructor
  · intro low hget
    obtain ⟨m, hm⟩ := number_of_finite (hdef.bounds "minimum" (by decide) low hget)
    have hnumber : numberAt schema "minimum" = some m := by
      unfold numberAt
      rw [hget]
      exact hm
    rw [hnumber, Option.all_some] at hlow
    unfold PyVal.less
    rw [hn, hm]
    exact congrArg Except.ok (by simpa using hlow)
  · intro high hget
    obtain ⟨m, hm⟩ := number_of_finite (hdef.bounds "maximum" (by decide) high hget)
    have hnumber : numberAt schema "maximum" = some m := by
      unfold numberAt
      rw [hget]
      exact hm
    rw [hnumber, Option.all_some] at hhigh
    unfold PyVal.less
    rw [hn, hm]
    exact congrArg Except.ok (by simpa using hhigh)

private theorem within_of_withinLength {size : Nat} (hdef : OutputDefined limits schema)
    (h : withinLength limits.mcpResponseBytes size schema = true) :
    (∀ low, schema.get? "minLength" = some low → ∃ n : Int, low = .int n ∧ n ≤ size) ∧
      ∀ high, schema.get? "maxLength" = some high → ∃ n : Int, high = .int n ∧ (size : Int) ≤ n := by
  obtain ⟨hbounds, -⟩ := Bool.and_eq_true_iff.1 h
  obtain ⟨hlow, hhigh⟩ := Bool.and_eq_true_iff.1 hbounds
  constructor
  · intro low hget
    obtain ⟨n, rfl⟩ := eq_int_of_isInt (hdef.lengths "minLength" (by decide) low hget)
    have hint : intAt schema "minLength" = some n := by
      unfold intAt
      rw [hget]
    rw [hint, Option.all_some] at hlow
    exact ⟨n, rfl, of_decide_eq_true hlow⟩
  · intro high hget
    obtain ⟨n, rfl⟩ := eq_int_of_isInt (hdef.lengths "maxLength" (by decide) high hget)
    have hint : intAt schema "maxLength" = some n := by
      unfold intAt
      rw [hget]
    rw [hint, Option.all_some] at hhigh
    exact ⟨n, rfl, of_decide_eq_true hhigh⟩

/-- A value that meets its schema satisfies it, if it is equal as JSON to an item of the `enum`. -/
theorem satisfies_of_meetsOutput {value : PyVal} (hdef : OutputDefined limits schema)
    (h : meetsOutput limits value schema = true)
    (henum : ∀ values, schema.get? "enum" = some values →
      ∃ item ∈ values.sequence?.getD [], value.jsonEqual item = true) : Satisfies value schema := by
  obtain ⟨t, ht, hmatches⟩ := exists_type h
  have hshape := (Bool.and_eq_true_iff.1 h).2
  refine ⟨⟨t, ht, hmatches⟩, ?_, ?_, ?_, ?_, ?_, henum⟩
  · rintro i rfl
    have hbounded : boundedMcpNumber (.int i) = true := by
      rcases (matches_numeric hmatches).2 rfl with rfl | rfl
      · exact hmatches
      · exact hmatches
    obtain ⟨hlow, hhigh⟩ := Bool.and_eq_true_iff.1 hbounded
    exact ⟨of_decide_eq_true hlow, of_decide_eq_true hhigh⟩
  · rintro frozen members rfl
    obtain ⟨hmembers, hrequired⟩ := Bool.and_eq_true_iff.1 hshape
    have hknown := (Bool.and_eq_true_iff.1 hmembers).2
    refine ⟨fun p hp => mem_names_of_lookup (List.all_eq_true.1 hknown p hp), ?_⟩
    intro item hitem
    have hpresent := List.all_eq_true.1 hrequired item hitem
    cases item with
    | str name => exact ⟨name, rfl, mem_names_of_lookup hpresent⟩
    | _ => cases hpresent
  · intro items hitems
    have hcount : (intAt schema "maxItems").any (fun n => (items.length : Int) ≤ n) = true := by
      cases value with
      | list items' | tuple items' =>
        cases hitems
        exact hshape
      | _ => cases hitems
    obtain ⟨n, hn, hle⟩ := (Option.any_eq_true _ _).1 hcount
    refine ⟨n, ?_, of_decide_eq_true hle⟩
    unfold intAt at hn
    split at hn
    · cases hn
      assumption
    · cases hn
  · rintro s rfl
    obtain ⟨size, hsize, hwithin⟩ := (Option.any_eq_true _ _).1 hshape
    exact ⟨size, hsize, within_of_withinLength hdef hwithin⟩
  · intro hnumeric
    refine less_of_meetsRange hdef ?_
    cases value with
    | int i => exact hshape
    | float f => exact hshape
    | _ => cases hnumeric

end

/-- The check of a result raises no other exception, and what it accepts satisfies the schema everywhere, unless the
result passes with a part under an `enum` whose equal items all have a boolean where the part has a number, or the
reverse. -/
theorem output_values_iff (limits freezing : Limits) (stringBytes : Option Nat) (raw schema parsed value : PyVal)
    (hschema : checkOutputSchemaDefinition limits raw = .ok schema)
    (hvalue : freezeJson freezing stringBytes 0 parsed = .ok value) :
    ((validateOutputValue limits 0 value schema = .ok () ∨
        ∃ kind, validateOutputValue limits 0 value schema = .error (.provider kind)) ∧
      (validateOutputValue limits 0 value schema = .ok () → ∀ q ∈ parts value schema, Satisfies q.1 q.2)) ↔
    (value.nesting ≤ limits.jsonNestingDepth → (∀ q ∈ parts value schema, meetsOutput limits q.1 q.2 = true) →
      ∀ q ∈ parts value schema, ∀ values, q.2.get? "enum" = some values →
        ∃ item ∈ values.sequence?.getD [], q.1.equal item = true ∧ q.1.mixesBool item = false) := by
  have houtput : OutputSchema limits schema := ⟨_, raw, hschema⟩
  have hencodable : value.encodable = true := by
    obtain ⟨rfl, hparsed⟩ := freezeJson_spec hvalue
    rw [encodable_frozenOf, hparsed]
  have hrun := @validateOutputValue_eq limits schema 0 value houtput hencodable
  have hok : validateOutputValue limits 0 value schema = .ok () ↔
      value.nesting ≤ limits.jsonNestingDepth ∧ ∀ q ∈ parts value schema, meetsOutput limits q.1 q.2 = true := by
    rw [hrun, ← Nat.zero_add value.nesting, ← conformsOutput_iff]
    cases conformsOutput limits 0 value schema <;> simp [require]
  constructor
  · rintro ⟨-, hsatisfies⟩ hnesting hmeets q hq values hvalues
    obtain ⟨item, hitem, hequal⟩ := (hsatisfies (hok.2 ⟨hnesting, hmeets⟩) q hq).enum values hvalues
    rw [jsonEqual_eq, Bool.and_eq_true, Bool.not_eq_true'] at hequal
    exact ⟨item, hitem, hequal⟩
  · intro hcondition
    constructor
    · rw [hrun]
      cases conformsOutput limits 0 value schema with
      | true => exact .inl rfl
      | false => exact .inr ⟨_, rfl⟩
    · intro haccepted q hq
      obtain ⟨hnesting, hmeets⟩ := hok.1 haccepted
      have hdef := outputSchema_spec (parts_outputSchema houtput hmeets q hq)
      refine satisfies_of_meetsOutput hdef (hmeets q hq) ?_
      intro values hvalues
      obtain ⟨item, hitem, hequal, hmixes⟩ := hcondition hnesting hmeets q hq values hvalues
      refine ⟨item, hitem, ?_⟩
      rw [jsonEqual_eq, hequal, hmixes]
      rfl

/-- The schema of an array that is `[1]`, its items being booleans or integers. -/
def sampleOutputSchema : PyVal :=
  .dict false [(chars "type", .str (chars "array")), (chars "maxItems", .int 1),
    (chars "items", .dict false [(chars "type", .list [.str (chars "boolean"), .str (chars "integer")])]),
    (chars "enum", .list [.list [.int 1]])]

private theorem sample_output_defined :
    checkOutputSchemaDefinition defaultLimits sampleOutputSchema = .ok (frozenOf sampleOutputSchema) := by
  rfl

theorem output_values_iff_sample :
    ((validateOutputValue defaultLimits 0 (.tuple [.int 1]) (frozenOf sampleOutputSchema) = .ok () ∨
        ∃ kind, validateOutputValue defaultLimits 0 (.tuple [.int 1]) (frozenOf sampleOutputSchema) =
          .error (.provider kind)) ∧
      (validateOutputValue defaultLimits 0 (.tuple [.int 1]) (frozenOf sampleOutputSchema) = .ok () →
        ∀ q ∈ parts (.tuple [.int 1]) (frozenOf sampleOutputSchema), Satisfies q.1 q.2)) ↔
    ((PyVal.tuple [.int 1]).nesting ≤ defaultLimits.jsonNestingDepth →
      (∀ q ∈ parts (.tuple [.int 1]) (frozenOf sampleOutputSchema), meetsOutput defaultLimits q.1 q.2 = true) →
      ∀ q ∈ parts (.tuple [.int 1]) (frozenOf sampleOutputSchema), ∀ values, q.2.get? "enum" = some values →
        ∃ item ∈ values.sequence?.getD [], q.1.equal item = true ∧ q.1.mixesBool item = false) :=
  output_values_iff defaultLimits defaultLimits none sampleOutputSchema (frozenOf sampleOutputSchema)
    (.list [.int 1]) (.tuple [.int 1]) sample_output_defined rfl

/-- The result `[true]` is accepted where the `enum` has only `[1]`. -/
theorem output_enum_mixes_booleans :
    ∃ raw schema parsed value values, checkOutputSchemaDefinition defaultLimits raw = .ok schema ∧
      freezeJson defaultLimits none 0 parsed = .ok value ∧
      validateOutputValue defaultLimits 0 value schema = .ok () ∧
      schema.get? "enum" = some values ∧ ∀ item ∈ values.sequence?.getD [], value.jsonEqual item = false :=
  ⟨sampleOutputSchema, frozenOf sampleOutputSchema, .list [.bool true], .tuple [.bool true], .tuple [.tuple [.int 1]],
    sample_output_defined, rfl, by decide +kernel, rfl, by
      intro item hitem
      rw [List.mem_singleton.1 hitem]
      decide +kernel⟩

end NativeMcp.Agent
