import NativeMcp.Json

/-!
# JSON Schema, as far as the definitions use it

`conforms schema value` reads the keywords that the tool definitions have: types, the bounds of strings (in UTF-8 bytes),
integers and arrays, the properties and required members of objects, `additionalProperties` and `items`.  Titles,
descriptions and defaults say nothing about a value.  An integer is a number written without fraction or exponent.
-/

namespace NativeMcp

namespace Json

/-- The value of an integer. -/
def integer? : Json → Option Int
  | .numberInteger i => some i
  | .numberUnsigned n => some n
  | _ => none

end Json

namespace Schema

open Json

/-- `type` is this name. -/
def hasType (type : Bytes) : Json → Bool
  | .null => type == bytes "null"
  | .boolean _ => type == bytes "boolean"
  | .numberInteger _ | .numberUnsigned _ => type == bytes "integer" || type == bytes "number"
  | .numberFloat _ => type == bytes "number"
  | .string _ => type == bytes "string"
  | .array _ => type == bytes "array"
  | .object _ => type == bytes "object"

/-- The schema's `type` is that of the value, or lists it. -/
def typeAllows (schema value : Json) : Bool :=
  match schema.find? "type" with
  | none => true
  | some (.string type) => hasType type value
  | some (.array types) => types.any fun
    | .string type => hasType type value
    | _ => false
  | some _ => false

/-- Neither of two bounds is crossed. -/
def withinBounds (schema : Json) (low high : String) (n : Int) : Bool :=
  (((schema.find? low).bind integer?).all (· ≤ n)) && ((schema.find? high).bind integer?).all (n ≤ ·)

/-- Every required member is there. -/
def hasRequired (schema : Json) (members : List (Bytes × Json)) : Bool :=
  match schema.find? "required" with
  | some (.array names) => names.all fun
    | .string name => (members.lookup name).isSome
    | _ => false
  | _ => true

/-- The bounds that the schema has for a value of this kind. -/
def boundsAllow (schema : Json) : Json → Bool
  | .numberInteger i => withinBounds schema "minimum" "maximum" i
  | .numberUnsigned n => withinBounds schema "minimum" "maximum" n
  | .string s => withinBounds schema "minLength" "maxLength" s.length
  | .array items => withinBounds schema "minItems" "maxItems" items.length
  | .object members => hasRequired schema members
  | _ => true

/-- What the schema says of a value, apart from its items and members.  A schema that is a boolean says it all. -/
def conformsTop (schema value : Json) : Bool :=
  match schema with
  | .boolean b => b
  | schema => typeAllows schema value && boundsAllow schema value

/-- The schema of a member: that of its property, or what `additionalProperties` says of it. -/
def memberSchema (schema : Json) (key : Bytes) : Option Json :=
  ((schema.find? "properties").bind (·.member? key)).or (schema.find? "additionalProperties")

mutual

def conforms (schema : Json) : Json → Bool
  | .array items => conformsTop schema (.array items) && conformsItems (schema.find? "items") items
  | .object members => conformsTop schema (.object members) && conformsMembers schema members
  | value => conformsTop schema value

def conformsItems (schema : Option Json) : List Json → Bool
  | [] => true
  | v :: l => schema.all (conforms · v) && conformsItems schema l

def conformsMembers (schema : Json) : List (Bytes × Json) → Bool
  | [] => true
  | (k, v) :: l => (memberSchema schema k).all (conforms · v) && conformsMembers schema l

end

@[simp] theorem conformsMembers_iff {schema : Json} {members : List (Bytes × Json)} :
    conformsMembers schema members = true ↔
      ∀ p ∈ members, ∀ s, memberSchema schema p.1 = some s → conforms s p.2 = true := by
  induction members with
  | nil => simp [conformsMembers]
  | cons p members ih =>
    obtain ⟨k, v⟩ := p
    rw [conformsMembers, Bool.and_eq_true, ih]
    simp [Option.all_eq_true]

@[simp] theorem conformsItems_iff {schema : Option Json} {items : List Json} :
    conformsItems schema items = true ↔ ∀ v ∈ items, ∀ s, schema = some s → conforms s v = true := by
  induction items with
  | nil => simp [conformsItems]
  | cons v items ih =>
    rw [conformsItems, Bool.and_eq_true, ih]
    simp [Option.all_eq_true]

@[simp] theorem conforms_null (schema : Json) : conforms schema .null = conformsTop schema .null := by
  simp [conforms]

@[simp] theorem conforms_boolean (schema : Json) (b : Bool) :
    conforms schema (.boolean b) = conformsTop schema (.boolean b) := by
  simp [conforms]

@[simp] theorem conforms_numberInteger (schema : Json) (i : Int) :
    conforms schema (.numberInteger i) = conformsTop schema (.numberInteger i) := by
  simp [conforms]

@[simp] theorem conforms_numberUnsigned (schema : Json) (n : Nat) :
    conforms schema (.numberUnsigned n) = conformsTop schema (.numberUnsigned n) := by
  simp [conforms]

@[simp] theorem conforms_string (schema : Json) (s : Bytes) :
    conforms schema (.string s) = conformsTop schema (.string s) := by
  simp [conforms]

@[simp] theorem conforms_false (v : Json) : conforms (.boolean false) v = false := by
  cases v <;> simp [conforms, conformsTop]

theorem conformsTop_ofPairs (l : List (String × Json)) (v : Json) :
    conformsTop (.ofPairs l) v = (typeAllows (.ofPairs l) v && boundsAllow (.ofPairs l) v) := rfl

theorem typeAllows_ofPairs {l : List (String × Json)} {type : String} (h : l.lookup "type" = some (.text type))
    (v : Json) : typeAllows (.ofPairs l) v = hasType (bytes type) v := by
  rw [typeAllows, find?_ofPairs, h]
  rfl

/-- A value that conforms has the type. -/
theorem hasType_of_conforms {l : List (String × Json)} {type : String} (h : l.lookup "type" = some (.text type))
    {v : Json} (hv : conforms (.ofPairs l) v = true) : hasType (bytes type) v = true := by
  have htop : conformsTop (.ofPairs l) v = true := by
    cases v with
    | array items => exact (Bool.and_eq_true _ _ ▸ hv).1
    | object members => exact (Bool.and_eq_true _ _ ▸ hv).1
    | _ => exact hv
  rw [conformsTop_ofPairs, Bool.and_eq_true, typeAllows_ofPairs h] at htop
  exact htop.1

end Schema

end NativeMcp
