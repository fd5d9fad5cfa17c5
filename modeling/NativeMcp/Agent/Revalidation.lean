import NativeMcp.Agent.SchemaParts

/-!
# Checking parsed and frozen arguments

The arguments of a proposal are checked twice, as they were parsed and after `_freeze_json` has made them immutable.
Both checks look at the same parts.  They differ at an object or array under an `enum`: the schema is frozen, so that
no member of its `enum` has the type of a parsed container (`meets_container`).
-/

namespace NativeMcp.Agent

/-! ### Frozen values -/

mutual

/-- What `_freeze_json` makes of a value. -/
def frozenOf : PyVal → PyVal
  | .dict _ members => .dict true (frozenMembers members)
  | .list items => .tuple (frozenItems items)
  | .tuple items => .tuple (frozenItems items)
  | v => v

def frozenItems : List PyVal → List PyVal
  | [] => []
  | v :: l => frozenOf v :: frozenItems l

def frozenMembers : List (Str × PyVal) → List (Str × PyVal)
  | [] => []
  | p :: l => (p.1, frozenOf p.2) :: frozenMembers l

end

theorem frozenItems_eq (items : List PyVal) : frozenItems items = items.map frozenOf := by
  induction items with
  | nil => rfl
  | cons v items ih => rw [frozenItems, ih, List.map_cons]

theorem frozenMembers_eq (members : List (Str × PyVal)) :
    frozenMembers members = members.map fun p => (p.1, frozenOf p.2) := by
  induction members with
  | nil => rfl
  | cons p members ih => rw [frozenMembers, ih, List.map_cons]

mutual

/-- No container can be changed. -/
def PyVal.isFrozen : PyVal → Bool
  | .list _ => false
  | .tuple items => PyVal.areFrozenItems items
  | .dict frozen members => frozen && PyVal.areFrozenMembers members
  | _ => true

def PyVal.areFrozenItems : List PyVal → Bool
  | [] => true
  | v :: l => v.isFrozen && PyVal.areFrozenItems l

def PyVal.areFrozenMembers : List (Str × PyVal) → Bool
  | [] => true
  | p :: l => p.2.isFrozen && PyVal.areFrozenMembers l

end

theorem areFrozenItems_iff {items : List PyVal} :
    PyVal.areFrozenItems items = true ↔ ∀ v ∈ items, v.isFrozen = true := by
  induction items with
  | nil => simp [PyVal.areFrozenItems]
  | cons v items ih => rw [PyVal.areFrozenItems, Bool.and_eq_true, ih, List.forall_mem_cons]

theorem areFrozenMembers_iff {members : List (Str × PyVal)} :
    PyVal.areFrozenMembers members = true ↔ ∀ p ∈ members, p.2.isFrozen = true := by
  induction members with
  | nil => simp [PyVal.areFrozenMembers]
  | cons p members ih => rw [PyVal.areFrozenMembers, Bool.and_eq_true, ih, List.forall_mem_cons]

theorem isFrozen_frozenOf (v : PyVal) : (frozenOf v).isFrozen = true := by
  induction v using PyVal.induction with
  | dict frozen members ih =>
    rw [frozenOf, PyVal.isFrozen, frozenMembers_eq, Bool.true_and, areFrozenMembers_iff]
    intro p hp
    obtain ⟨q, hq, rfl⟩ := List.mem_map.1 hp
    exact ih q hq
  | list items ih =>
    rw [frozenOf, PyVal.isFrozen, frozenItems_eq, areFrozenItems_iff]
    intro v hv
    obtain ⟨w, hw, rfl⟩ := List.mem_map.1 hv
    exact ih w hw
  | tuple items ih =>
    rw [frozenOf, PyVal.isFrozen, frozenItems_eq, areFrozenItems_iff]
    intro v hv
    obtain ⟨w, hw, rfl⟩ := List.mem_map.1 hv
    exact ih w hw
  | _ => rfl

mutual

/-- A value as `json.loads` makes it: its containers are lists and plain dictionaries. -/
def PyVal.isParsed : PyVal → Bool
  | .list items => PyVal.areParsedItems items
  | .tuple _ => false
  | .dict frozen members => !frozen && PyVal.areParsedMembers members
  | .other => false
  | _ => true

def PyVal.areParsedItems : List PyVal → Bool
  | [] => true
  | v :: l => v.isParsed && PyVal.areParsedItems l

def PyVal.areParsedMembers : List (Str × PyVal) → Bool
  | [] => true
  | p :: l => p.2.isParsed && PyVal.areParsedMembers l

end

theorem areParsedItems_iff {items : List PyVal} :
    PyVal.areParsedItems items = true ↔ ∀ v ∈ items, v.isParsed = true := by
  induction items with
  | nil => simp [PyVal.areParsedItems]
  | cons v items ih => rw [PyVal.areParsedItems, Bool.and_eq_true, ih, List.forall_mem_cons]

theorem areParsedMembers_iff {members : List (Str × PyVal)} :
    PyVal.areParsedMembers members = true ↔ ∀ p ∈ members, p.2.isParsed = true := by
  induction members with
  | nil => simp [PyVal.areParsedMembers]
  | cons p members ih => rw [PyVal.areParsedMembers, Bool.and_eq_true, ih, List.forall_mem_cons]

/-! ### `_freeze_json` -/

section

variable {limits : Limits} {stringBytes : Option Nat}

private theorem freezeItems_spec {depth : Nat} {items frozen : List PyVal}
    (ih : ∀ v ∈ items, ∀ w, freezeJson limits stringBytes depth v = .ok w → w = frozenOf v ∧ v.encodable = true)
    (h : freezeItems limits stringBytes depth items = .ok frozen) :
    frozen = frozenItems items ∧ PyVal.encodableItems items = true := by
  induction items generalizing frozen with
  | nil =>
    cases h
    exact ⟨rfl, rfl⟩
  | cons v items ihl =>
    obtain ⟨hv, hitems⟩ := List.forall_mem_cons.1 ih
    rw [freezeItems] at h
    obtain ⟨w, hw, h⟩ := ok_of_bind h
    obtain ⟨rest, hrest, h⟩ := ok_of_bind h
    cases h
    obtain ⟨rfl, hencodable⟩ := hv w hw
    obtain ⟨rfl, hencodables⟩ := ihl hitems hrest
    rw [frozenItems, PyVal.encodableItems, hencodable, hencodables]
    exact ⟨rfl, rfl⟩

private theorem freezeMembers_spec {depth : Nat} {members frozen : List (Str × PyVal)}
    (ih : ∀ p ∈ members, ∀ w, freezeJson limits stringBytes depth p.2 = .ok w →
      w = frozenOf p.2 ∧ p.2.encodable = true)
    (h : freezeMembers limits stringBytes depth members = .ok frozen) :
    frozen = frozenMembers members ∧ PyVal.encodableMembers members = true := by
  induction members generalizing frozen with
  | nil =>
    cases h
    exact ⟨rfl, rfl⟩
  | cons p members ihl =>
    obtain ⟨hp, hmembers⟩ := List.forall_mem_cons.1 ih
    obtain ⟨name, v⟩ := p
    rw [freezeMembers] at h
    obtain ⟨_, -, h⟩ := ok_of_bind h
    obtain ⟨w, hw, h⟩ := ok_of_bind h
    obtain ⟨rest, hrest, h⟩ := ok_of_bind h
    cases h
    obtain ⟨rfl, hencodable⟩ := hp w hw
    obtain ⟨rfl, hencodables⟩ := ihl hmembers hrest
    rw [frozenMembers, PyVal.encodableMembers, hencodable, hencodables]
    exact ⟨rfl, rfl⟩

/-- A value that `_freeze_json` accepts keeps its contents, and its strings can be encoded. -/
theorem freezeJson_spec {v frozen : PyVal} {depth : Nat} (h : freezeJson limits stringBytes depth v = .ok frozen) :
    frozen = frozenOf v ∧ v.encodable = true := by
  induction v using PyVal.induction generalizing frozen depth with
  | dict isFrozen members ih =>
    rw [freezeJson] at h
    obtain ⟨_, -, h⟩ := ok_of_bind h
    obtain ⟨_, -, h⟩ := ok_of_bind h
    obtain ⟨members', hmembers, h⟩ := ok_of_bind h
    cases h
    obtain ⟨rfl, hencodable⟩ := freezeMembers_spec (fun p hp w => ih p hp) hmembers
    exact ⟨rfl, hencodable⟩
  | list items ih =>
    rw [freezeJson] at h
    obtain ⟨_, -, h⟩ := ok_of_bind h
    obtain ⟨_, -, h⟩ := ok_of_bind h
    obtain ⟨items', hitems, h⟩ := ok_of_bind h
    cases h
    obtain ⟨rfl, hencodable⟩ := freezeItems_spec (fun v hv w => ih v hv) hitems
    exact ⟨rfl, hencodable⟩
  | tuple items ih =>
    rw [freezeJson] at h
    obtain ⟨_, -, h⟩ := ok_of_bind h
    obtain ⟨_, -, h⟩ := ok_of_bind h
    obtain ⟨items', hitems, h⟩ := ok_of_bind h
    cases h
    obtain ⟨rfl, hencodable⟩ := freezeItems_spec (fun v hv w => ih v hv) hitems
    exact ⟨rfl, hencodable⟩
  | str s =>
    rw [freezeJson] at h
    obtain ⟨_, -, h⟩ := ok_of_bind h
    obtain ⟨_, hstring, h⟩ := ok_of_bind h
    cases h
    refine ⟨rfl, ?_⟩
    unfold checkString at hstring
    split at hstring
    · cases hstring
    · rename_i size hsize
      show (encodedSize s).isSome = true
      rw [hsize]
      rfl
  | float f =>
    rw [freezeJson] at h
    obtain ⟨_, -, h⟩ := ok_of_bind h
    obtain ⟨_, -, h⟩ := ok_of_bind h
    cases h
    exact ⟨rfl, rfl⟩
  | other => cases h
  | none | bool b | int i =>
    obtain ⟨_, -, h⟩ := ok_of_bind (show (require (depth ≤ limits.jsonNestingDepth) .localValidationFailure >>= fun _ =>
      Except.ok _) = Except.ok frozen from h)
    cases h
    exact ⟨rfl, rfl⟩

end

/-! ### The parts of a frozen value -/

private theorem partsOfItems_frozenItems {items : List PyVal} {schema : PyVal}
    (h : ∀ v ∈ items, ∀ schema, parts (frozenOf v) schema = (parts v schema).map fun q => (frozenOf q.1, q.2)) :
    partsOfItems (frozenItems items) schema = (partsOfItems items schema).map fun q => (frozenOf q.1, q.2) := by
  induction items with
  | nil => rfl
  | cons v items ih =>
    obtain ⟨hv, hitems⟩ := List.forall_mem_cons.1 h
    rw [frozenItems, partsOfItems, partsOfItems, List.map_append, ih hitems, hv]

theorem parts_frozenOf (v schema : PyVal) :
    parts (frozenOf v) schema = (parts v schema).map fun q => (frozenOf q.1, q.2) := by
  induction v using PyVal.induction generalizing schema with
  | dict frozen members ih =>
    have hmembers : ∀ (l properties : List (Str × PyVal)),
        (∀ p ∈ l, ∀ schema, parts (frozenOf p.2) schema = (parts p.2 schema).map fun q => (frozenOf q.1, q.2)) →
        partsOfMembers (frozenMembers l) properties =
          (partsOfMembers l properties).map fun q => (frozenOf q.1, q.2) := by
      intro l properties hl
      induction l with
      | nil => rfl
      | cons p l ihl =>
        obtain ⟨hp, hrest⟩ := List.forall_mem_cons.1 hl
        rw [frozenMembers, partsOfMembers, partsOfMembers, List.map_append, ihl hrest, hp]
    rw [frozenOf, parts, parts, List.map_cons, hmembers members _ fun p hp schema => ih p hp schema]
    rfl
  | list items ih =>
    rw [frozenOf, parts, parts, List.map_cons, partsOfItems_frozenItems fun v hv schema => ih v hv schema]
    rfl
  | tuple items ih =>
    rw [frozenOf, parts, parts, List.map_cons, partsOfItems_frozenItems fun v hv schema => ih v hv schema]
    rfl
  | _ => rfl

/-- An object or an array. -/
def PyVal.isContainer : PyVal → Bool
  | .dict .. | .list _ | .tuple _ => true
  | _ => false

theorem parts_isParsed {v schema : PyVal} (h : v.isParsed = true) : ∀ q ∈ parts v schema, q.1.isParsed = true := by
  induction v using PyVal.induction generalizing schema with
  | dict frozen members ih =>
    have hmembers : PyVal.areParsedMembers members = true := (Bool.and_eq_true_iff.1 h).2
    rw [parts, List.forall_mem_cons, forall_partsOfMembers]
    exact ⟨h, fun p hp => ih p hp (areParsedMembers_iff.1 hmembers p hp)⟩
  | list items ih =>
    rw [parts, List.forall_mem_cons, forall_partsOfItems]
    exact ⟨h, fun v hv => ih v hv (areParsedItems_iff.1 h v hv)⟩
  | tuple items ih => cases h
  | other => cases h
  | none | bool b | int i | float f | str s =>
    intro q hq
    rw [List.mem_singleton.1 hq]
    exact h

/-- A property of values that goes down to the members of a dictionary holds of the schemas of all parts. -/
theorem parts_schema_induction {P : PyVal → Prop} (hnone : P .none)
    (hmembers : ∀ frozen members, P (.dict frozen members) → ∀ p ∈ members, P p.2) {v schema : PyVal}
    (h : P schema) : ∀ q ∈ parts v schema, P q.2 := by
  have hget : ∀ {schema v : PyVal} {key : String}, P schema → schema.get? key = some v → P v := by
    intro schema v key hschema hv
    cases schema with
    | dict frozen members => exact hmembers _ _ hschema _ (mem_of_lookup_eq_some hv)
    | _ => cases hv
  have hproperties : ∀ {schema : PyVal}, P schema → ∀ name, P (((propertiesOf schema).lookup name).getD .none) := by
    intro schema hschema name
    unfold propertiesOf
    cases hproperties : schema.get? "properties" with
    | none => exact hnone
    | some properties =>
      have hv := hget hschema hproperties
      cases properties with
      | dict frozen members =>
        show P ((members.lookup name).getD .none)
        cases hlookup : members.lookup name with
        | none => exact hnone
        | some child => exact hmembers _ _ hv _ (mem_of_lookup_eq_some hlookup)
      | _ => exact hnone
  have hitems : ∀ {schema : PyVal}, P schema → P (itemsOf schema) := by
    intro schema hschema
    unfold itemsOf
    cases hitems : schema.get? "items" with
    | none => exact hnone
    | some child => exact hget hschema hitems
  induction v using PyVal.induction generalizing schema with
  | dict frozen members ih =>
    rw [parts, List.forall_mem_cons, forall_partsOfMembers]
    exact ⟨h, fun p hp => ih p hp (hproperties h p.1)⟩
  | list items ih =>
    rw [parts, List.forall_mem_cons, forall_partsOfItems]
    exact ⟨h, fun v hv => ih v hv (hitems h)⟩
  | tuple items ih =>
    rw [parts, List.forall_mem_cons, forall_partsOfItems]
    exact ⟨h, fun v hv => ih v hv (hitems h)⟩
  | _ =>
    intro q hq
    rw [List.mem_singleton.1 hq]
    exact h

/-- The schemas below a frozen schema are frozen. -/
theorem parts_isFrozen {v schema : PyVal} (h : schema.isFrozen = true) : ∀ q ∈ parts v schema, q.2.isFrozen = true := by
  refine parts_schema_induction (P := fun schema => schema.isFrozen = true) rfl ?_ h
  intro frozen members hdict
  exact areFrozenMembers_iff.1 (Bool.and_eq_true_iff.1 hdict).2

theorem isFrozen_get? {schema v : PyVal} {key : String} (h : schema.isFrozen = true) (hv : schema.get? key = some v) :
    v.isFrozen = true := by
  cases schema with
  | dict frozen members => exact areFrozenMembers_iff.1 (Bool.and_eq_true_iff.1 h).2 _ (mem_of_lookup_eq_some hv)
  | _ => cases hv

/-- No member of a frozen `enum` has the type of a parsed container. -/
theorem inEnum_container {w schema : PyVal} (hw : w.isParsed = true) (hcontainer : w.isContainer = true)
    (hschema : schema.isFrozen = true) : inEnum w schema = !schema.has "enum" := by
  unfold inEnum PyVal.has
  cases hget : schema.get? "enum" with
  | none => rfl
  | some values =>
    have hvalues : values.isFrozen = true := isFrozen_get? hschema hget
    have hitems : ∀ item ∈ values.sequence?.getD [], item.isFrozen = true := by
      intro item hitem
      cases values with
      | tuple items => exact areFrozenItems_iff.1 hvalues item hitem
      | list items => cases hvalues
      | _ => cases hitem
    have hnone : ∀ item ∈ values.sequence?.getD [], ¬ (w.sameType item && w.equal item) = true := by
      intro item hitem hsame
      have htype := (Bool.and_eq_true_iff.1 hsame).1
      have hfrozen := hitems item hitem
      cases w with
      | list items =>
        cases item with
        | list items' => cases hfrozen
        | _ => cases htype
      | dict frozen members =>
        have hplain : frozen = false := by simpa using (Bool.and_eq_true_iff.1 hw).1
        cases item with
        | dict frozen' members' =>
          have hmarked := (Bool.and_eq_true_iff.1 hfrozen).1
          rw [PyVal.sameType, hplain, hmarked] at htype
          cases htype
        | _ => cases htype
      | tuple items => cases hw
      | _ => cases hcontainer
    rw [Option.all_some, Option.isSome_some, Bool.not_true]
    exact List.any_eq_false.2 hnone

theorem length_frozenMembers (members : List (Str × PyVal)) :
    (frozenMembers members).length = members.length := by
  rw [frozenMembers_eq, List.length_map]

theorem lookup_frozenMembers (members : List (Str × PyVal)) (name : Str) :
    (frozenMembers members).lookup name = (members.lookup name).map frozenOf := by
  induction members with
  | nil => rfl
  | cons p members ih =>
    rw [frozenMembers, List.lookup_cons, List.lookup_cons, ih]
    split <;> rfl

/-- A container meets its schema when it is frozen, except that only then can it be in an `enum`. -/
theorem meets_container {limits : Limits} {w schema : PyVal} (hw : w.isParsed = true)
    (hcontainer : w.isContainer = true) (hschema : schema.isFrozen = true) :
    meets limits w schema = (meets limits (frozenOf w) schema && !schema.has "enum") := by
  have henum := inEnum_container hw hcontainer hschema
  have hfrozen : schema.has "enum" = false → inEnum (frozenOf w) schema = true := by
    intro hnone
    unfold inEnum
    unfold PyVal.has at hnone
    cases hget : schema.get? "enum" with
    | none => rfl
    | some values =>
      rw [hget] at hnone
      cases hnone
  have hsplit : ∀ a e c : Bool, (schema.has "enum" = false → e = true) →
      (a && !schema.has "enum" && c) = ((a && e && c) && !schema.has "enum") := by
    intro a e c he
    cases hE : schema.has "enum" with
    | true => simp
    | false =>
      rw [he hE]
      simp
  cases w with
  | dict frozen members =>
    have hnames : (frozenMembers members).all (fun p => ((propertiesOf schema).lookup p.1).isSome) =
        members.all fun p => ((propertiesOf schema).lookup p.1).isSome := by
      rw [frozenMembers_eq, List.all_map]
      rfl
    have hrequired : ∀ item : PyVal, (item.text?.bind fun name => (frozenMembers members).lookup name).isSome =
        (item.text?.bind fun name => members.lookup name).isSome := by
      intro item
      cases item.text? with
      | none => rfl
      | some name =>
        rw [Option.bind_some, Option.bind_some, lookup_frozenMembers, Option.isSome_map]
    rw [frozenOf] at hfrozen ⊢
    unfold meets
    dsimp only
    rw [schemaValueMatches_dict, schemaValueMatches_dict, henum, length_frozenMembers, hnames]
    simp only [hrequired]
    exact hsplit _ _ _ hfrozen
  | list items =>
    have hlength : (frozenItems items).length = items.length := by rw [frozenItems_eq, List.length_map]
    rw [frozenOf] at hfrozen ⊢
    unfold meets
    dsimp only
    rw [schemaValueMatches_sequence rfl, schemaValueMatches_sequence rfl, henum, hlength]
    exact hsplit _ _ _ hfrozen
  | tuple items => cases hw
  | _ => cases hcontainer

theorem meets_scalar {limits : Limits} {w schema : PyVal} (h : w.isContainer = false) :
    meets limits w schema = meets limits (frozenOf w) schema := by
  cases w with
  | dict frozen members => cases h
  | list items => cases h
  | tuple items => cases h
  | _ => rfl

/-- A parsed value is accepted if it is accepted frozen and no container of it stands under an `enum`. -/
theorem conforms_iff_frozen {limits : Limits} {v schema : PyVal} (hv : v.isParsed = true)
    (hschema : schema.isFrozen = true) :
    conforms limits v schema = true ↔ conforms limits (frozenOf v) schema = true ∧
      ∀ q ∈ parts v schema, q.1.isContainer = true → q.2.has "enum" = false := by
  have hpart : ∀ q ∈ parts v schema, meets limits q.1 q.2 = true ↔
      meets limits (frozenOf q.1) q.2 = true ∧ (q.1.isContainer = true → q.2.has "enum" = false) := by
    intro q hq
    cases hcontainer : q.1.isContainer with
    | true =>
      rw [meets_container (parts_isParsed hv q hq) hcontainer (parts_isFrozen hschema q hq), Bool.and_eq_true,
        Bool.not_eq_true']
      exact and_congr_right fun _ => ⟨fun h _ => h, fun h => h rfl⟩
    | false =>
      rw [meets_scalar hcontainer]
      exact ⟨fun h => ⟨h, fun hc => by cases hc⟩, And.left⟩
  rw [conforms_iff, conforms_iff, parts_frozenOf, List.forall_mem_map]
  constructor
  · intro h
    exact ⟨fun q hq => ((hpart q hq).1 (h q hq)).1, fun q hq => ((hpart q hq).1 (h q hq)).2⟩
  · rintro ⟨hfrozen, henum⟩ q hq
    exact (hpart q hq).2 ⟨hfrozen q hq, henum q hq⟩

/-! ### The two checks -/

/-- The `parameters` of an `AdvertisedTool`. -/
def advertisedParameters (parameters : PyVal) : Except Raised PyVal := do
  require parameters.isDict .localValidationFailure
  let frozen ← freezeJson hardLimits none 0 parameters
  checkSchemaDefinition hardLimits frozen
  return frozen

theorem isFrozen_advertisedParameters {parameters schema : PyVal} (h : advertisedParameters parameters = .ok schema) :
    schema.isFrozen = true := by
  obtain ⟨_, -, h⟩ := ok_of_bind h
  obtain ⟨frozen, hfreeze, h⟩ := ok_of_bind h
  obtain ⟨_, -, h⟩ := ok_of_bind h
  cases h
  rw [(freezeJson_spec hfreeze).1]
  exact isFrozen_frozenOf parameters

/-- A definition that is refused ends the check of every value. -/
theorem validateSchema_of_definition_error {limits : Limits} {schema : PyVal} {raised : Raised}
    (h : checkSchemaDefinition limits schema = .error raised) (v : PyVal) :
    validateSchema limits v schema = .error raised := by
  have htop : ∀ w, validateTop limits w schema = .error raised := by
    intro w
    unfold validateTop
    rw [h]
    rfl
  cases v
  all_goals
    unfold validateSchema
    rw [htop]
    rfl

theorem encodable_frozenOf (v : PyVal) : (frozenOf v).encodable = v.encodable := by
  have hitems : ∀ items : List PyVal, (∀ v ∈ items, (frozenOf v).encodable = v.encodable) →
      PyVal.encodableItems (frozenItems items) = PyVal.encodableItems items := by
    intro items hitems
    rw [Bool.eq_iff_iff, encodableItems_iff, encodableItems_iff, frozenItems_eq, List.forall_mem_map]
    exact forall₂_congr fun v hv => by rw [hitems v hv]
  induction v using PyVal.induction with
  | dict frozen members ih =>
    show PyVal.encodableMembers (frozenMembers members) = PyVal.encodableMembers members
    rw [Bool.eq_iff_iff, encodableMembers_iff, encodableMembers_iff, frozenMembers_eq, List.forall_mem_map]
    exact forall₂_congr fun p hp => by rw [ih p hp]
  | list items ih => exact hitems items ih
  | tuple items ih => exact hitems items ih
  | _ => rfl

/-- The check of parsed arguments and that of the frozen ones agree, unless the frozen ones are accepted with a
container under an `enum`. -/
theorem revalidation_agrees_iff (limits : Limits) (parameters schema v frozen : PyVal)
    (hschema : advertisedParameters parameters = .ok schema) (hv : v.isParsed = true)
    (hfreeze : freezeJson limits none 0 v = .ok frozen) :
    validateSchema limits v schema = validateSchema limits frozen schema ↔
      (checkSchemaDefinition limits schema = .ok () →
        (∀ q ∈ parts v schema, meets limits (frozenOf q.1) q.2 = true) →
          ∀ q ∈ parts v schema, q.1.isContainer = true → q.2.has "enum" = false) := by
  obtain ⟨rfl, hencodable⟩ := freezeJson_spec hfreeze
  have hiff := @conforms_iff_frozen limits v schema hv (isFrozen_advertisedParameters hschema)
  cases hdef : checkSchemaDefinition limits schema with
  | error raised =>
    rw [validateSchema_of_definition_error hdef, validateSchema_of_definition_error hdef]
    exact iff_of_true rfl fun h => by cases h
  | ok u =>
    have hdef : checkSchemaDefinition limits schema = .ok () := hdef
    have hfrozen : conforms limits (frozenOf v) schema = true ↔
        ∀ q ∈ parts v schema, meets limits (frozenOf q.1) q.2 = true := by
      rw [conforms_iff, parts_frozenOf, List.forall_mem_map]
    rw [validateSchema_eq hdef hencodable, validateSchema_eq hdef (by rw [encodable_frozenOf, hencodable])]
    have hrequire : ∀ a b : Bool, require a .invalidToolProposal = require b .invalidToolProposal ↔ a = b := by
      intro a b
      cases a <;> cases b <;> simp [require]
    rw [hrequire, Bool.eq_iff_iff, hiff, hfrozen]
    constructor
    · intro h _ hmeets
      exact (h.2 hmeets).2
    · intro h
      exact ⟨And.left, fun hmeets => ⟨hmeets, h rfl hmeets⟩⟩

/-- A tool with one argument, an array that an `enum` lists. -/
def sampleParameters : PyVal :=
  .dict false [(chars "type", .str (chars "object")),
    (chars "properties", .dict false [(chars "range", .dict false [(chars "type", .str (chars "array")),
      (chars "items", .dict false [(chars "type", .str (chars "integer"))]),
      (chars "enum", .list [.list [.int 1, .int 2]])])]),
    (chars "required", .list [.str (chars "range")])]

def sampleArguments : PyVal := .dict false [(chars "range", .list [.int 1, .int 2])]

private theorem sample_advertised : advertisedParameters sampleParameters = .ok (frozenOf sampleParameters) := by
  rfl

private theorem sample_freezes : freezeJson defaultLimits none 0 sampleArguments = .ok (frozenOf sampleArguments) := by
  rfl

theorem revalidation_agrees_iff_sample :
    validateSchema defaultLimits sampleArguments (frozenOf sampleParameters) =
        validateSchema defaultLimits (frozenOf sampleArguments) (frozenOf sampleParameters) ↔
      (checkSchemaDefinition defaultLimits (frozenOf sampleParameters) = .ok () →
        (∀ q ∈ parts sampleArguments (frozenOf sampleParameters), meets defaultLimits (frozenOf q.1) q.2 = true) →
          ∀ q ∈ parts sampleArguments (frozenOf sampleParameters), q.1.isContainer = true → q.2.has "enum" = false) :=
  revalidation_agrees_iff defaultLimits sampleParameters (frozenOf sampleParameters) sampleArguments
    (frozenOf sampleArguments) sample_advertised rfl sample_freezes

/-- The array of the `enum` is refused as it was parsed and accepted when it is frozen. -/
theorem revalidation_disagrees :
    ∃ parameters schema v frozen, advertisedParameters parameters = .ok schema ∧ v.isParsed = true ∧
      freezeJson defaultLimits none 0 v = .ok frozen ∧
      validateSchema defaultLimits v schema = .error (.provider .invalidToolProposal) ∧
      validateSchema defaultLimits frozen schema = .ok () :=
  ⟨sampleParameters, frozenOf sampleParameters, sampleArguments, frozenOf sampleArguments, sample_advertised, rfl,
    sample_freezes, by decide +kernel, by decide +kernel⟩

end NativeMcp.Agent
