import NativeMcp.Agent.Contracts

/-!
# The parts of a value under a schema

`_validate_schema` goes down a value and its schema together.  The pairs that it meets are the `parts`, and what it
checks of one pair is `meets`: a value is accepted exactly if all of its parts meet their schemas, and every refusal
has one class (`validateSchema_eq`).
-/

namespace NativeMcp.Agent

/-! ### Values -/

/-- Induction over a value, its items and its members. -/
theorem PyVal.induction {motive : PyVal → Prop} (none : motive .none) (bool : ∀ b, motive (.bool b))
    (int : ∀ i, motive (.int i)) (float : ∀ f, motive (.float f)) (str : ∀ s, motive (.str s))
    (list : ∀ items, (∀ v ∈ items, motive v) → motive (.list items))
    (tuple : ∀ items, (∀ v ∈ items, motive v) → motive (.tuple items))
    (dict : ∀ frozen members, (∀ p ∈ members, motive p.2) → motive (.dict frozen members)) (other : motive .other) :
    ∀ v, motive v := by
  refine @PyVal.rec motive (fun items => ∀ v ∈ items, motive v) (fun members => ∀ p ∈ members, motive p.2)
    (fun p => motive p.2) none bool int float str list tuple dict other ?_ ?_ ?_ ?_ ?_
  · intro v hv
    cases hv
  · intro v items hv hitems
    exact List.forall_mem_cons.2 ⟨hv, hitems⟩
  · intro p hp
    cases hp
  · intro p members hp hmembers
    exact List.forall_mem_cons.2 ⟨hp, hmembers⟩
  · intro name v hv
    exact hv

mutual

/-- Every string in the value can be encoded. -/
def PyVal.encodable : PyVal → Bool
  | .str s => (encodedSize s).isSome
  | .list items => PyVal.encodableItems items
  | .tuple items => PyVal.encodableItems items
  | .dict _ members => PyVal.encodableMembers members
  | _ => true

def PyVal.encodableItems : List PyVal → Bool
  | [] => true
  | v :: l => v.encodable && PyVal.encodableItems l

def PyVal.encodableMembers : List (Str × PyVal) → Bool
  | [] => true
  | p :: l => p.2.encodable && PyVal.encodableMembers l

end

theorem encodableItems_iff {items : List PyVal} :
    PyVal.encodableItems items = true ↔ ∀ v ∈ items, v.encodable = true := by
  induction items with
  | nil => simp [PyVal.encodableItems]
  | cons v items ih => rw [PyVal.encodableItems, Bool.and_eq_true, ih, List.forall_mem_cons]

theorem encodableMembers_iff {members : List (Str × PyVal)} :
    PyVal.encodableMembers members = true ↔ ∀ p ∈ members, p.2.encodable = true := by
  induction members with
  | nil => simp [PyVal.encodableMembers]
  | cons p members ih => rw [PyVal.encodableMembers, Bool.and_eq_true, ih, List.forall_mem_cons]

/-! ### What an accepted definition is -/

theorem require_bind_eq_ok {c : Bool} {kind : FailureClass} {α : Type} {f : Unit → Except Raised α} {a : α} :
    (require c kind >>= f) = .ok a ↔ c = true ∧ f () = .ok a := by
  cases c with
  | true => exact ⟨fun h => ⟨rfl, h⟩, fun h => h.2⟩
  | false => exact ⟨fun h => (by cases h), fun h => (by cases h.1)⟩

theorem forM_ok {α : Type} {f : α → Except Raised Unit} {l : List α} (h : ∀ a ∈ l, f a = .ok ()) :
    l.forM f = .ok () := by
  induction l with
  | nil => rfl
  | cons b l ih =>
    obtain ⟨hb, hl⟩ := List.forall_mem_cons.1 h
    have hcons : (b :: l).forM f = (f b >>= fun _ => l.forM f) := rfl
    rw [hcons, hb]
    exact ih hl

theorem bind_eq_ok_iff {x : Except Raised Unit} {α : Type} {f : Unit → Except Raised α} {a : α} :
    (x >>= f) = .ok a ↔ x = .ok () ∧ f () = .ok a := by
  cases x with
  | error raised => exact ⟨fun h => (by cases h), fun h => (by cases h.1)⟩
  | ok u => exact ⟨fun h => ⟨rfl, h⟩, fun h => h.2⟩

/-- The part of `_validate_schema_definition` about properties and items. -/
def checkShape (limits : Limits) (room : Nat) (schema : PyVal) (schemaType : Str) : Except Raised Unit :=
  if schemaType = chars "object" then
    match ((schema.get? "properties").getD (.dict false [])).members? with
    | some properties => do
      require (properties.length ≤ limits.objectArrayItems) .invalidToolProposal
      properties.forM fun p => do
        require (validPropertyName p.1) .invalidToolProposal
        validateSchemaDefinition limits room p.2
      require (validRequired ((schema.get? "required").getD (.list [])) properties limits) .invalidToolProposal
    | none => .error (.provider .invalidToolProposal)
  else if schemaType = chars "array" then do
    require ((schema.get? "items").getD .none).isDict .invalidToolProposal
    validateSchemaDefinition limits room ((schema.get? "items").getD .none)
  else
    require (["properties", "required", "items", "additionalProperties"].all fun key => !schema.has key)
      .invalidToolProposal

/-- Its part about `enum`. -/
def checkEnum (limits : Limits) (schema : PyVal) (schemaType : Str) : Except Raised Unit :=
  match schema.get? "enum" with
  | none => .ok ()
  | some values =>
    match values.sequence? with
    | some items => do
      require (items ≠ [] && items.length ≤ limits.objectArrayItems) .invalidToolProposal
      jsonValue limits none 0 values
      require (items.all (schemaValueMatches · schemaType)) .invalidToolProposal
    | none => .error (.provider .invalidToolProposal)

/-- Its part about the bounds. -/
def checkBounds (schema : PyVal) (schemaType : Str) : Except Raised Unit := do
  require (["minLength", "maxLength"].all fun key => (schema.get? key).all fun v =>
    schemaType == chars "string" && isIntWithin 0 hardLimits.toolArgumentBytes v) .invalidToolProposal
  require (← boundsInOrder schema "minLength" "maxLength") .invalidToolProposal
  require (["minimum", "maximum"].all fun key => (schema.get? key).all fun v =>
    (schemaType == chars "integer" || schemaType == chars "number") && finiteNumber v) .invalidToolProposal
  require (← boundsInOrder schema "minimum" "maximum") .invalidToolProposal

/-- `schema["additionalProperties"]` is absent or `False`. -/
def closedOrAbsent (schema : PyVal) : Bool :=
  (schema.get? "additionalProperties").all fun v => match v with | .bool false => true | _ => false

/-- The checks of `_validate_schema_definition` one after the other. -/
theorem validateSchemaDefinition_iff {limits : Limits} {room : Nat} {schema : PyVal} :
    validateSchemaDefinition limits (room + 1) schema = .ok () ↔
      ∃ members t, schema.members? = some members ∧
        (members.all fun p => schemaKeys.any fun key => p.1 == chars key) = true ∧
        (schema.get? "type").bind PyVal.text? = some t ∧ (schemaTypes.any fun s => t == chars s) = true ∧
        closedOrAbsent schema = true ∧ checkShape limits room schema t = .ok () ∧
        checkEnum limits schema t = .ok () ∧ checkBounds schema t = .ok () := by
  rw [validateSchemaDefinition]
  cases hmembers : schema.members? with
  | none => simp
  | some members =>
    dsimp only
    rw [require_bind_eq_ok]
    cases htype : (schema.get? "type").bind PyVal.text? with
    | none => simp
    | some t =>
      dsimp only
      rw [require_bind_eq_ok, require_bind_eq_ok]
      have hstages : ∀ x : Except Raised Unit,
          x = (checkShape limits room schema t >>= fun _ => checkEnum limits schema t >>= fun _ =>
            checkBounds schema t) →
          (x = .ok () ↔ checkShape limits room schema t = .ok () ∧ checkEnum limits schema t = .ok () ∧
            checkBounds schema t = .ok ()) := by
        rintro x rfl
        rw [bind_eq_ok_iff, bind_eq_ok_iff]
      rw [hstages _ ?_]
      · constructor
        · rintro ⟨hkeys, htypes, hclosed, hrest⟩
          exact ⟨members, t, rfl, hkeys, rfl, htypes, hclosed, hrest⟩
        · rintro ⟨members', t', hmembers', hkeys, ht', htypes, hclosed, hrest⟩
          cases hmembers'
          cases ht'
          exact ⟨hkeys, htypes, hclosed, hrest⟩
      · -- the source goes on behind each branch; here the branches end first
        unfold checkShape checkEnum checkBounds
        by_cases hobject : t = chars "object"
        · rw [if_pos hobject, if_pos hobject]
          cases ((schema.get? "properties").getD (.dict false [])).members? with
          | none => rfl
          | some properties =>
            cases schema.get? "enum" with
            | none =>
              simp only [bind_assoc]
              rfl
            | some values =>
              dsimp only
              cases values.sequence? with
              | none => simp only [bind_assoc]
              | some items => simp only [bind_assoc]
        · rw [if_neg hobject, if_neg hobject]
          by_cases harray : t = chars "array"
          · rw [if_pos harray, if_pos harray]
            cases schema.get? "enum" with
            | none =>
              simp only [bind_assoc]
              rfl
            | some values =>
              dsimp only
              cases values.sequence? with
              | none => simp only [bind_assoc]
              | some items => simp only [bind_assoc]
          · rw [if_neg harray, if_neg harray]
            cases schema.get? "enum" with
            | none => rfl
            | some values =>
              dsimp only
              cases values.sequence? with
              | none => rfl
              | some items => simp only [bind_assoc]

/-- `schema["type"]` -/
def schemaType (schema : PyVal) : Str := ((schema.get? "type").bind PyVal.text?).getD []

/-- `schema.get("properties", {})` -/
def propertiesOf (schema : PyVal) : List (Str × PyVal) := ((schema.get? "properties").bind PyVal.members?).getD []

/-- `schema["items"]` -/
def itemsOf (schema : PyVal) : PyVal := (schema.get? "items").getD .none

/-- The names that `required` lists. -/
def requiredOf (schema : PyVal) : List PyVal := ((schema.get? "required").bind PyVal.sequence?).getD []

/-- What `_validate_schema` relies on in a definition that was accepted. -/
structure Defined (limits : Limits) (room : Nat) (schema : PyVal) : Prop where
  type : (schema.get? "type").bind PyVal.text? = some (schemaType schema)
  properties : schemaType schema = chars "object" →
    ∀ p ∈ propertiesOf schema, validateSchemaDefinition limits room p.2 = .ok ()
  items : schemaType schema = chars "array" → validateSchemaDefinition limits room (itemsOf schema) = .ok ()
  lengths : ∀ key ∈ ["minLength", "maxLength"], ∀ v, schema.get? key = some v → v.isInt = true
  bounds : ∀ key ∈ ["minimum", "maximum"], ∀ v, schema.get? key = some v → finiteNumber v = true

private theorem isInt_of_isIntWithin {low high : Int} {v : PyVal} (h : isIntWithin low high v = true) : v.isInt = true := by
  cases v <;> first | rfl | cases h

theorem definition_spec {limits : Limits} {room : Nat} {schema : PyVal}
    (h : validateSchemaDefinition limits (room + 1) schema = .ok ()) : Defined limits room schema := by
  obtain ⟨members, t, hmembers, hkeys, htype, htypes, hclosed, hshape, henum, hbounds⟩ :=
    validateSchemaDefinition_iff.1 h
  have hschemaType : schemaType schema = t := by
    unfold schemaType
    rw [htype]
    rfl
  have hproperties : ∀ properties, ((schema.get? "properties").getD (.dict false [])).members? = some properties →
      propertiesOf schema = properties := by
    intro properties hproperties
    unfold propertiesOf
    cases hget : schema.get? "properties" with
    | none =>
      rw [hget] at hproperties
      cases hproperties
      rfl
    | some v =>
      rw [hget] at hproperties
      rw [Option.bind_some, show v.members? = some properties from hproperties]
      rfl
  refine ⟨by rw [htype, hschemaType], ?_, ?_, ?_, ?_⟩
  · intro hobject
    rw [hschemaType] at hobject
    unfold checkShape at hshape
    rw [if_pos hobject] at hshape
    split at hshape
    · rename_i properties hmembers
      rw [hproperties properties hmembers]
      have hforM := (bind_eq_ok_iff.1 (require_bind_eq_ok.1 hshape).2).1
      intro p hp
      exact (require_bind_eq_ok.1 (ok_of_forM hforM p hp)).2
    · cases hshape
  · intro harray
    rw [hschemaType] at harray
    unfold checkShape at hshape
    rw [if_neg (by rw [harray]; decide), if_pos harray] at hshape
    exact (require_bind_eq_ok.1 hshape).2
  · intro key hkey v hv
    have hlengths := (require_bind_eq_ok.1 hbounds).1
    have hkey := List.all_eq_true.1 hlengths key hkey
    rw [hv, Option.all_some, Bool.and_eq_true] at hkey
    exact isInt_of_isIntWithin hkey.2
  · intro key hkey v hv
    obtain ⟨_, -, hrest⟩ := ok_of_bind (require_bind_eq_ok.1 hbounds).2
    have hbounds := (require_bind_eq_ok.1 (require_bind_eq_ok.1 hrest).2).1
    have hkey := List.all_eq_true.1 hbounds key hkey
    rw [hv, Option.all_some, Bool.and_eq_true] at hkey
    exact hkey.2

theorem checkShape_mono {limits : Limits} {room : Nat} {schema : PyVal} {t : Str}
    (hchildren : ∀ child, validateSchemaDefinition limits room child = .ok () →
      validateSchemaDefinition limits (room + 1) child = .ok ())
    (h : checkShape limits room schema t = .ok ()) : checkShape limits (room + 1) schema t = .ok () := by
  unfold checkShape at h ⊢
  by_cases hobject : t = chars "object"
  · rw [if_pos hobject] at h ⊢
    split at h
    · obtain ⟨hcount, hrest⟩ := require_bind_eq_ok.1 h
      obtain ⟨hforM, hrequired⟩ := bind_eq_ok_iff.1 hrest
      refine require_bind_eq_ok.2 ⟨hcount, bind_eq_ok_iff.2 ⟨forM_ok ?_, hrequired⟩⟩
      intro p hp
      obtain ⟨hname, hchild⟩ := require_bind_eq_ok.1 (ok_of_forM hforM p hp)
      exact require_bind_eq_ok.2 ⟨hname, hchildren _ hchild⟩
    · cases h
  · rw [if_neg hobject] at h ⊢
    by_cases harray : t = chars "array"
    · rw [if_pos harray] at h ⊢
      obtain ⟨hdict, hitems⟩ := require_bind_eq_ok.1 h
      exact require_bind_eq_ok.2 ⟨hdict, hchildren _ hitems⟩
    · rw [if_neg harray] at h ⊢
      exact h

/-- More levels do no harm. -/
theorem validateSchemaDefinition_succ {limits : Limits} {room : Nat} {schema : PyVal}
    (h : validateSchemaDefinition limits room schema = .ok ()) :
    validateSchemaDefinition limits (room + 1) schema = .ok () := by
  induction room generalizing schema with
  | zero => cases h
  | succ room ih =>
    obtain ⟨members, t, hmembers, hkeys, htype, htypes, hclosed, hshape, hrest⟩ := validateSchemaDefinition_iff.1 h
    exact validateSchemaDefinition_iff.2 ⟨members, t, hmembers, hkeys, htype, htypes, hclosed,
      checkShape_mono (fun child => ih) hshape, hrest⟩

theorem validateSchemaDefinition_mono {limits : Limits} {room room' : Nat} (hroom : room ≤ room') {schema : PyVal}
    (h : validateSchemaDefinition limits room schema = .ok ()) : validateSchemaDefinition limits room' schema = .ok () := by
  induction hroom with
  | refl => exact h
  | step hroom ih => exact validateSchemaDefinition_succ ih

/-- The schemas below an accepted one are accepted on their own. -/
theorem checkSchemaDefinition_children {limits : Limits} {schema : PyVal}
    (h : checkSchemaDefinition limits schema = .ok ()) :
    (schemaType schema = chars "object" → ∀ p ∈ propertiesOf schema, checkSchemaDefinition limits p.2 = .ok ()) ∧
      (schemaType schema = chars "array" → checkSchemaDefinition limits (itemsOf schema) = .ok ()) := by
  have hspec := definition_spec h
  exact ⟨fun ht p hp => validateSchemaDefinition_mono (Nat.le_succ _) (hspec.properties ht p hp),
    fun ht => validateSchemaDefinition_mono (Nat.le_succ _) (hspec.items ht)⟩

/-! ### Parts -/

mutual

/-- The values below a value, with the schemas that they are checked against. -/
def parts : PyVal → PyVal → List (PyVal × PyVal)
  | .dict frozen members, schema => (.dict frozen members, schema) :: partsOfMembers members (propertiesOf schema)
  | .list items, schema => (.list items, schema) :: partsOfItems items (itemsOf schema)
  | .tuple items, schema => (.tuple items, schema) :: partsOfItems items (itemsOf schema)
  | value, schema => [(value, schema)]

def partsOfItems : List PyVal → PyVal → List (PyVal × PyVal)
  | [], _ => []
  | v :: l, schema => parts v schema ++ partsOfItems l schema

def partsOfMembers : List (Str × PyVal) → List (Str × PyVal) → List (PyVal × PyVal)
  | [], _ => []
  | p :: l, properties => parts p.2 ((properties.lookup p.1).getD .none) ++ partsOfMembers l properties

end

theorem forall_partsOfItems {P : PyVal × PyVal → Prop} {items : List PyVal} {schema : PyVal} :
    (∀ q ∈ partsOfItems items schema, P q) ↔ ∀ v ∈ items, ∀ q ∈ parts v schema, P q := by
  induction items with
  | nil => simp [partsOfItems]
  | cons v items ih => rw [partsOfItems, List.forall_mem_append, ih, List.forall_mem_cons]

theorem forall_partsOfMembers {P : PyVal × PyVal → Prop} {members properties : List (Str × PyVal)} :
    (∀ q ∈ partsOfMembers members properties, P q) ↔
      ∀ p ∈ members, ∀ q ∈ parts p.2 ((properties.lookup p.1).getD .none), P q := by
  induction members with
  | nil => simp [partsOfMembers]
  | cons p members ih => rw [partsOfMembers, List.forall_mem_append, ih, List.forall_mem_cons]

/-- An integer keyword. -/
def intAt (schema : PyVal) (key : String) : Option Int :=
  match schema.get? key with
  | some (.int n) => some n
  | _ => none

/-- A number keyword. -/
def numberAt (schema : PyVal) (key : String) : Option Number := (schema.get? key).bind PyVal.number?

/-- A string of this size is within the schema's bounds and this one. -/
def withinLength (limit size : Nat) (schema : PyVal) : Bool :=
  (intAt schema "minLength").all (fun n => n ≤ (size : Int)) &&
    (intAt schema "maxLength").all (fun n => (size : Int) ≤ n) && size ≤ limit

/-- A string of this size is within the bounds. -/
def meetsLength (limits : Limits) (size : Nat) (schema : PyVal) : Bool :=
  (intAt schema "minLength").all (fun n => n ≤ (size : Int)) &&
    (intAt schema "maxLength").all (fun n => (size : Int) ≤ n) &&
    size ≤ limits.toolArgumentBytes

/-- A number is within the bounds. -/
def meetsRange (value schema : PyVal) : Bool :=
  finiteNumber value && value.number?.any fun n =>
    (numberAt schema "minimum").all (!n.less ·) && (numberAt schema "maximum").all fun bound => !bound.less n

/-- What is checked of one value, whatever is below it. -/
def meets (limits : Limits) (value schema : PyVal) : Bool :=
  schemaValueMatches value (schemaType schema) && inEnum value schema &&
  match value with
  | .dict _ members => members.length ≤ limits.objectArrayItems &&
      members.all (fun p => ((propertiesOf schema).lookup p.1).isSome) &&
      (requiredOf schema).all fun item => (item.text?.bind fun name => members.lookup name).isSome
  | .list items => items.length ≤ limits.objectArrayItems
  | .tuple items => items.length ≤ limits.objectArrayItems
  | .str s => (encodedSize s).any fun size => meetsLength limits size schema
  | value =>
    !(schemaType schema == chars "integer" || schemaType schema == chars "number") || meetsRange value schema

/-- All parts of a value meet their schemas. -/
def conforms (limits : Limits) (value schema : PyVal) : Bool :=
  (parts value schema).all fun q => meets limits q.1 q.2

theorem conforms_iff {limits : Limits} {value schema : PyVal} :
    conforms limits value schema = true ↔ ∀ q ∈ parts value schema, meets limits q.1 q.2 = true := List.all_eq_true

/-! ### The outcome of `_validate_schema` -/

theorem require_and (a b : Bool) (kind : FailureClass) :
    (require a kind >>= fun _ => require b kind) = require (a && b) kind := by
  cases a <;> rfl

theorem eq_int_of_isInt {v : PyVal} (h : v.isInt = true) : ∃ n, v = .int n := by
  cases v with
  | int n => exact ⟨n, rfl⟩
  | _ => cases h

theorem number_of_finite {v : PyVal} (h : finiteNumber v = true) : ∃ n, v.number? = some n := by
  cases v with
  | int i => exact ⟨_, rfl⟩
  | float f =>
    cases f with
    | finite negative magnitude => exact ⟨_, rfl⟩
    | _ => cases h
  | _ => cases h

theorem less_int (m n : Int) : (PyVal.int m).less (.int n) = .ok (decide (m < n)) := by
  unfold PyVal.less
  simp [PyVal.number?, Number.less]

theorem validateSize_within {limit : Nat} {schema : PyVal} {size : Nat}
    (hlengths : ∀ key ∈ ["minLength", "maxLength"], ∀ v, schema.get? key = some v → v.isInt = true)
    (kind : FailureClass) :
    validateSize size limit schema kind = require (withinLength limit size schema) kind := by
  have hlow : (schema.get? "minLength").getD (.int 0) = .int ((intAt schema "minLength").getD 0) := by
    unfold intAt
    cases h : schema.get? "minLength" with
    | none => rfl
    | some v =>
      obtain ⟨n, rfl⟩ := eq_int_of_isInt (hlengths _ (by simp) v h)
      rfl
  have hhigh : (schema.get? "maxLength").getD (.int limit) =
      .int ((intAt schema "maxLength").getD limit) := by
    unfold intAt
    cases h : schema.get? "maxLength" with
    | none => rfl
    | some v =>
      obtain ⟨n, rfl⟩ := eq_int_of_isInt (hlengths _ (by simp) v h)
      rfl
  have hmin : ∀ high low : Int, (if decide (high < low) = true then PyVal.int high else PyVal.int low) =
      .int (min high low) := by
    intro high low
    by_cases h : high < low
    · rw [if_pos (by simpa using h), min_eq_left h.le]
    · rw [if_neg (by simpa using h), min_eq_right (not_lt.1 h)]
  have hbind : ∀ (b : Bool) (f : Bool → Except Raised Unit), ((Except.ok b : Except Raised Bool) >>= f) = f b :=
    fun _ _ => rfl
  unfold validateSize
  rw [hlow, hhigh]
  simp only [less_int, hbind, hmin]
  congr 1
  unfold withinLength
  have hnot : ∀ m n : Int, (!decide (m < n)) = decide (n ≤ m) := by
    intro m n
    rw [Bool.eq_iff_iff]
    simp
  have hhighest : ∀ high : Int, decide ((size : Int) ≤ min high limit) =
      (decide ((size : Int) ≤ high) && decide (size ≤ limit)) := by
    intro high
    rw [Bool.eq_iff_iff]
    simp
  rw [hnot, hnot, hhighest, Bool.and_assoc]
  congr 1
  · cases intAt schema "minLength" <;> simp
  · cases intAt schema "maxLength" <;> simp

theorem validateSize_eq {limits : Limits} {schema : PyVal} {size : Nat}
    (hlengths : ∀ key ∈ ["minLength", "maxLength"], ∀ v, schema.get? key = some v → v.isInt = true)
    (kind : FailureClass) :
    validateSize size limits.toolArgumentBytes schema kind = require (meetsLength limits size schema) kind :=
  validateSize_within hlengths kind

theorem validateRange_eq {value schema : PyVal} (hvalue : finiteNumber value = true)
    (hbounds : ∀ key ∈ ["minimum", "maximum"], ∀ v, schema.get? key = some v → finiteNumber v = true)
    (kind : FailureClass) : validateRange value schema kind = require (meetsRange value schema) kind := by
  obtain ⟨n, hn⟩ := number_of_finite hvalue
  have hless : ∀ v m, v.number? = some m → value.less v = .ok (n.less m) ∧ v.less value = .ok (m.less n) := by
    intro v m hm
    unfold PyVal.less
    rw [hn, hm]
    exact ⟨rfl, rfl⟩
  have hbelow : ((schema.get? "minimum").map value.less).getD (.ok false) =
      .ok ((numberAt schema "minimum").any fun bound => n.less bound) := by
    unfold numberAt
    cases h : schema.get? "minimum" with
    | none => rfl
    | some v =>
      obtain ⟨m, hm⟩ := number_of_finite (hbounds _ (by simp) v h)
      rw [Option.map_some, Option.getD_some, (hless v m hm).1, Option.bind_some, hm]
      rfl
  have habove : ((schema.get? "maximum").map fun bound => bound.less value).getD (.ok false) =
      .ok ((numberAt schema "maximum").any fun bound => bound.less n) := by
    unfold numberAt
    cases h : schema.get? "maximum" with
    | none => rfl
    | some v =>
      obtain ⟨m, hm⟩ := number_of_finite (hbounds _ (by simp) v h)
      rw [Option.map_some, Option.getD_some, (hless v m hm).2, Option.bind_some, hm]
      rfl
  have hnot : ∀ (o : Option Number) (f : Number → Bool), (!o.any f) = o.all (!f ·) := by
    intro o f
    cases o <;> rfl
  unfold validateRange meetsRange
  rw [hbelow, habove, hvalue, hn]
  show require (!(numberAt schema "minimum").any _ && !(numberAt schema "maximum").any _) kind = _
  rw [hnot, hnot]
  rfl

/-- The checks of a value itself. -/
theorem validateTop_eq {limits : Limits} {value schema : PyVal} (h : checkSchemaDefinition limits schema = .ok ()) :
    validateTop limits value schema =
      (require (schemaValueMatches value (schemaType schema) && inEnum value schema) .invalidToolProposal >>= fun _ =>
        .ok (schemaType schema)) := by
  unfold validateTop
  rw [h, ← require_and]
  show (require (schemaValueMatches value (schemaType schema)) .invalidToolProposal >>= fun _ =>
    require (inEnum value schema) .invalidToolProposal >>= fun _ => Except.ok (schemaType schema)) = _
  cases schemaValueMatches value (schemaType schema) <;> rfl

theorem validateSchemaItems_eq {limits : Limits} {items : List PyVal} {schema : PyVal}
    (h : ∀ v ∈ items, validateSchema limits v schema = require (conforms limits v schema) .invalidToolProposal) :
    validateSchemaItems limits items schema =
      require ((partsOfItems items schema).all fun q => meets limits q.1 q.2) .invalidToolProposal := by
  induction items with
  | nil => rfl
  | cons v items ih =>
    obtain ⟨hv, hitems⟩ := List.forall_mem_cons.1 h
    rw [validateSchemaItems, hv, ih hitems, partsOfItems, List.all_append]
    exact require_and _ _ _

theorem validateSchemaMembers_eq {limits : Limits} {members properties : List (Str × PyVal)}
    (h : ∀ p ∈ members, validateSchema limits p.2 ((properties.lookup p.1).getD .none) =
      require (conforms limits p.2 ((properties.lookup p.1).getD .none)) .invalidToolProposal) :
    validateSchemaMembers limits members properties =
      require ((partsOfMembers members properties).all fun q => meets limits q.1 q.2) .invalidToolProposal := by
  induction members with
  | nil => rfl
  | cons p members ih =>
    obtain ⟨hp, hmembers⟩ := List.forall_mem_cons.1 h
    obtain ⟨name, v⟩ := p
    rw [validateSchemaMembers, hp, ih hmembers, partsOfMembers, List.all_append]
    exact require_and _ _ _

theorem mem_of_lookup_eq_some {α : Type} {l : List (Str × α)} {key : Str} {a : α} (h : l.lookup key = some a) :
    (key, a) ∈ l := by
  induction l with
  | nil => cases h
  | cons p l ih =>
    rw [List.lookup_cons] at h
    split at h
    · rename_i heq
      cases h
      rw [eq_of_beq heq]
      exact List.mem_cons_self
    · exact List.mem_cons_of_mem _ (ih h)

/-! The one type that a value matches. -/

theorem schemaValueMatches_dict (frozen : Bool) (members : List (Str × PyVal)) (t : Str) :
    schemaValueMatches (.dict frozen members) t = (t == chars "object") := by
  unfold schemaValueMatches
  split_ifs with h₁ h₂ h₃ h₄ h₅ h₆
  all_goals first
    | (subst t; show false = _; decide +kernel)
    | (subst t; show true = _; decide +kernel)
    | exact (beq_eq_false_iff_ne.2 h₅).symm

theorem schemaValueMatches_sequence {value : PyVal} (h : value.sequence?.isSome = true) (t : Str) :
    schemaValueMatches value t = (t == chars "array") := by
  cases value with
  | list items | tuple items =>
    unfold schemaValueMatches
    split_ifs with h₁ h₂ h₃ h₄ h₅ h₆
    all_goals first
      | (subst t; show false = _; decide +kernel)
      | (subst t; show true = _; decide +kernel)
      | exact (beq_eq_false_iff_ne.2 h₆).symm
  | _ => cases h

theorem finite_of_matches {value : PyVal} {t : Str} (h : schemaValueMatches value t = true)
    (ht : t = chars "integer" ∨ t = chars "number") : finiteNumber value = true := by
  unfold schemaValueMatches at h
  rcases ht with rfl | rfl
  · rw [if_neg (by decide), if_neg (by decide), if_pos rfl] at h
    obtain ⟨n, rfl⟩ := eq_int_of_isInt h
    rfl
  · rwa [if_neg (by decide), if_neg (by decide), if_neg (by decide), if_pos rfl] at h

theorem require_bind_ok (c : Bool) (kind : FailureClass) {α : Type} (a : α) (f : α → Except Raised Unit) :
    ((require c kind >>= fun _ => (Except.ok a : Except Raised α)) >>= f) = (require c kind >>= fun _ => f a) := by
  cases c <;> rfl

/-- A scalar is checked by itself. -/
private theorem validateSchema_scalar {limits : Limits} {value schema : PyVal}
    (hdef : checkSchemaDefinition limits schema = .ok ()) (hparts : parts value schema = [(value, schema)])
    (hmeets : meets limits value schema = (schemaValueMatches value (schemaType schema) && inEnum value schema &&
      (!(schemaType schema == chars "integer" || schemaType schema == chars "number") || meetsRange value schema)))
    (hrun : validateSchema limits value schema = (validateTop limits value schema >>= fun t =>
      if t = chars "integer" ∨ t = chars "number" then
        require (finiteNumber value) .invalidToolProposal >>= fun _ => validateRange value schema .invalidToolProposal
      else pure ())) :
    validateSchema limits value schema = require (conforms limits value schema) .invalidToolProposal := by
  have hspec := definition_spec hdef
  have hconforms : conforms limits value schema = meets limits value schema := by
    unfold conforms
    rw [hparts, List.all_cons, List.all_nil, Bool.and_true]
  rw [hrun, validateTop_eq hdef, require_bind_ok, hconforms, hmeets,
    ← require_and (schemaValueMatches value (schemaType schema) && inEnum value schema)]
  cases htop : schemaValueMatches value (schemaType schema) && inEnum value schema with
  | false => rfl
  | true =>
    show (if _ then _ else _) = require (_ || _) _
    by_cases ht : schemaType schema = chars "integer" ∨ schemaType schema = chars "number"
    · have hfinite := finite_of_matches (Bool.and_eq_true_iff.1 htop).1 ht
      have hnumeric : (schemaType schema == chars "integer" || schemaType schema == chars "number") = true := by
        rw [Bool.or_eq_true, beq_iff_eq, beq_iff_eq]
        exact ht
      rw [if_pos ht, hfinite, hnumeric]
      exact validateRange_eq hfinite hspec.bounds _
    · have hnumeric : (schemaType schema == chars "integer" || schemaType schema == chars "number") = false := by
        rw [Bool.eq_false_iff, Ne, Bool.or_eq_true, beq_iff_eq, beq_iff_eq]
        exact ht
      rw [if_neg ht, hnumeric]
      rfl

/-- A sequence is checked, and then its items. -/
private theorem validateSchema_sequence {limits : Limits} {value schema : PyVal} {items : List PyVal}
    (hdef : checkSchemaDefinition limits schema = .ok ()) (hvalue : value.sequence? = some items)
    (hparts : parts value schema = (value, schema) :: partsOfItems items (itemsOf schema))
    (hmeets : meets limits value schema = (schemaValueMatches value (schemaType schema) && inEnum value schema &&
      decide (items.length ≤ limits.objectArrayItems)))
    (hrun : validateSchema limits value schema = (validateTop limits value schema >>= fun _ =>
      require (items.length ≤ limits.objectArrayItems) .invalidToolProposal >>= fun _ =>
        validateSchemaItems limits items (itemsOf schema)))
    (hitems : checkSchemaDefinition limits (itemsOf schema) = .ok () → ∀ v ∈ items,
      validateSchema limits v (itemsOf schema) = require (conforms limits v (itemsOf schema)) .invalidToolProposal) :
    validateSchema limits value schema = require (conforms limits value schema) .invalidToolProposal := by
  unfold conforms
  rw [hrun, validateTop_eq hdef, require_bind_ok, hparts, List.all_cons, hmeets, Bool.and_assoc,
    ← require_and (schemaValueMatches value (schemaType schema) && inEnum value schema)]
  cases htop : schemaValueMatches value (schemaType schema) && inEnum value schema with
  | false => rfl
  | true =>
    have harray : schemaType schema = chars "array" := by
      have hmatches := (Bool.and_eq_true_iff.1 htop).1
      rw [schemaValueMatches_sequence (by rw [hvalue]; rfl)] at hmatches
      exact eq_of_beq hmatches
    have hchild := (checkSchemaDefinition_children hdef).2 harray
    rw [validateSchemaItems_eq (hitems hchild), require_and]

/-- A value is accepted if all of its parts meet their schemas, and refused with one class otherwise. -/
theorem validateSchema_eq {limits : Limits} {value schema : PyVal} (hdef : checkSchemaDefinition limits schema = .ok ())
    (hvalue : value.encodable = true) :
    validateSchema limits value schema = require (conforms limits value schema) .invalidToolProposal := by
  induction value using PyVal.induction generalizing schema with
  | dict frozen members ih =>
    unfold conforms
    have hrun : validateSchema limits (.dict frozen members) schema =
        (validateTop limits (.dict frozen members) schema >>= fun _ =>
          require (members.length ≤ limits.objectArrayItems &&
            members.all fun p => ((propertiesOf schema).lookup p.1).isSome) .invalidToolProposal >>= fun _ =>
          require ((requiredOf schema).all fun item => (item.text?.bind fun name => members.lookup name).isSome)
            .invalidToolProposal >>= fun _ => validateSchemaMembers limits members (propertiesOf schema)) := by
      rw [validateSchema]
      rfl
    rw [hrun, validateTop_eq hdef, require_bind_ok, parts, List.all_cons, meets, Bool.and_assoc,
      ← require_and (schemaValueMatches (.dict frozen members) (schemaType schema) && inEnum (.dict frozen members) schema)]
    cases htop : schemaValueMatches (.dict frozen members) (schemaType schema) && inEnum (.dict frozen members) schema with
    | false => rfl
    | true =>
      have hobject : schemaType schema = chars "object" := by
        have hmatches := (Bool.and_eq_true_iff.1 htop).1
        rw [schemaValueMatches_dict] at hmatches
        exact eq_of_beq hmatches
      have hchildren := (checkSchemaDefinition_children hdef).1 hobject
      cases hknown : decide (members.length ≤ limits.objectArrayItems) &&
          members.all fun p => ((propertiesOf schema).lookup p.1).isSome with
      | false => rfl
      | true =>
        have hmembers : ∀ p ∈ members, validateSchema limits p.2 (((propertiesOf schema).lookup p.1).getD .none) =
            require (conforms limits p.2 (((propertiesOf schema).lookup p.1).getD .none)) .invalidToolProposal := by
          intro p hp
          have hsome := List.all_eq_true.1 (Bool.and_eq_true_iff.1 hknown).2 p hp
          obtain ⟨child, hchild⟩ := Option.isSome_iff_exists.1 hsome
          rw [hchild]
          exact ih p hp (hchildren _ (mem_of_lookup_eq_some hchild)) (encodableMembers_iff.1 hvalue p hp)
        rw [validateSchemaMembers_eq hmembers, require_and, require_and]
        rfl
  | list items ih =>
    refine validateSchema_sequence hdef rfl rfl rfl rfl fun hitems v hv => ?_
    exact ih v hv hitems (encodableItems_iff.1 hvalue v hv)
  | tuple items ih =>
    refine validateSchema_sequence hdef rfl rfl rfl rfl fun hitems v hv => ?_
    exact ih v hv hitems (encodableItems_iff.1 hvalue v hv)
  | str s =>
    obtain ⟨size, hsize⟩ := Option.isSome_iff_exists.1 (show (encodedSize s).isSome = true from hvalue)
    have hrun : validateSchema limits (.str s) schema = (validateTop limits (.str s) schema >>= fun _ =>
        validateSize size limits.toolArgumentBytes schema .invalidToolProposal) := by
      unfold validateSchema
      rw [hsize]
    have hconforms : conforms limits (.str s) schema =
        (schemaValueMatches (.str s) (schemaType schema) && inEnum (.str s) schema && meetsLength limits size schema) := by
      have hparts : parts (.str s) schema = [(.str s, schema)] := rfl
      unfold conforms
      rw [hparts, List.all_cons, List.all_nil, Bool.and_true]
      unfold meets
      dsimp only
      rw [hsize, Option.any_some]
    rw [hrun, validateTop_eq hdef, require_bind_ok, hconforms,
      ← require_and (schemaValueMatches (.str s) (schemaType schema) && inEnum (.str s) schema),
      validateSize_eq (definition_spec hdef).lengths]
  | none | bool b | int i | float f | other =>
    exact validateSchema_scalar hdef rfl rfl rfl

end NativeMcp.Agent
