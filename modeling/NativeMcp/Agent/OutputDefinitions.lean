import NativeMcp.Agent.OutputValues

/-!
# Which output schemas the agent accepts

Of a schema `_validate_output_schema_definition` looks at the keywords, at the schemas below, and at what `_freeze_json`
bounds.  The order of the keywords does not matter (`SameDefinition.accepts`).
-/

namespace NativeMcp.Agent

def Freezable (limits : Limits) (depth : Nat) (v : PyVal) : Prop := ∃ s, freezeJson limits none depth v = .ok s

def AcceptsOutput (limits : Limits) (room : Nat) (v : PyVal) : Prop :=
  ∃ s, validateOutputSchemaDefinition limits room v = .ok s

section

variable {limits : Limits}

private theorem freezeMembers_ok_iff {depth : Nat} {members : List (Str × PyVal)} :
    (∃ s, freezeMembers limits none depth members = .ok s) ↔ ∀ p ∈ members, p.1 ≠ [] ∧ Freezable limits depth p.2 := by
  induction members with
  | nil => exact ⟨fun _ p hp => (by cases hp), fun _ => ⟨[], rfl⟩⟩
  | cons p members ih =>
    obtain ⟨name, v⟩ := p
    rw [List.forall_mem_cons, ← ih, freezeMembers]
    constructor
    · rintro ⟨s, h⟩
      obtain ⟨hname, h⟩ := require_bind_eq_ok.1 h
      obtain ⟨w, hw, h⟩ := ok_of_bind h
      obtain ⟨rest, hrest, h⟩ := ok_of_bind h
      exact ⟨⟨of_decide_eq_true hname, w, hw⟩, rest, hrest⟩
    · rintro ⟨⟨hname, w, hw⟩, rest, hrest⟩
      refine ⟨(name, w) :: rest, require_bind_eq_ok.2 ⟨decide_eq_true hname, ?_⟩⟩
      rw [hw, hrest]
      rfl

theorem freezable_dict {depth : Nat} {frozen : Bool} {members : List (Str × PyVal)} :
    Freezable limits depth (.dict frozen members) ↔ depth ≤ limits.jsonNestingDepth ∧
      members.length ≤ limits.objectArrayItems ∧ ∀ p ∈ members, p.1 ≠ [] ∧ Freezable limits (depth + 1) p.2 := by
  rw [← freezeMembers_ok_iff]
  unfold Freezable
  rw [freezeJson]
  constructor
  · rintro ⟨s, h⟩
    obtain ⟨hdepth, h⟩ := require_bind_eq_ok.1 h
    obtain ⟨hlength, h⟩ := require_bind_eq_ok.1 h
    obtain ⟨members', hmembers, h⟩ := ok_of_bind h
    exact ⟨of_decide_eq_true hdepth, of_decide_eq_true hlength, members', hmembers⟩
  · rintro ⟨hdepth, hlength, members', hmembers⟩
    refine ⟨.dict true members', require_bind_eq_ok.2 ⟨decide_eq_true hdepth,
      require_bind_eq_ok.2 ⟨decide_eq_true hlength, ?_⟩⟩⟩
    rw [hmembers]
    rfl

/-- The checks of `_validate_output_schema_definition` one after the other. -/
theorem acceptsOutput_iff {room : Nat} {schema : PyVal} : AcceptsOutput limits (room + 1) schema ↔
    ∃ members types, schema.members? = some members ∧ (∀ p ∈ members, isKey outputSchemaFields p.1 = true) ∧
      schemaTypesOf schema = .ok types ∧
      outputObject limits (validateOutputSchemaDefinition limits room) schema types = .ok () ∧
      outputArray limits (validateOutputSchemaDefinition limits room) schema types = .ok () ∧
      outputEnum limits schema types = .ok () ∧ outputBounds limits schema types = .ok () ∧ Freezable limits 0 schema := by
  unfold AcceptsOutput Freezable
  rw [validateOutputSchemaDefinition]
  cases schema.members? with
  | none => simp
  | some members =>
    dsimp only
    constructor
    · rintro ⟨s, h⟩
      obtain ⟨hkeys, h⟩ := require_bind_eq_ok.1 h
      obtain ⟨types, htypes, h⟩ := ok_of_bind h
      obtain ⟨hobject, h⟩ := bind_eq_ok_iff.1 h
      obtain ⟨harray, h⟩ := bind_eq_ok_iff.1 h
      obtain ⟨henum, h⟩ := bind_eq_ok_iff.1 h
      obtain ⟨hbounds, h⟩ := bind_eq_ok_iff.1 h
      exact ⟨members, types, rfl, List.all_eq_true.1 hkeys, htypes, hobject, harray, henum, hbounds, s, h⟩
    · rintro ⟨_, types, hsame, hkeys, htypes, hobject, harray, henum, hbounds, s, h⟩
      cases hsame
      refine ⟨s, require_bind_eq_ok.2 ⟨List.all_eq_true.2 hkeys, ?_⟩⟩
      rw [htypes]
      exact bind_eq_ok_iff.2 ⟨hobject, bind_eq_ok_iff.2 ⟨harray, bind_eq_ok_iff.2 ⟨henum, bind_eq_ok_iff.2 ⟨hbounds, h⟩⟩⟩⟩

theorem outputObject_ok_iff {room : Nat} {schema : PyVal} {types : List Str} :
    outputObject limits (validateOutputSchemaDefinition limits room) schema types = .ok () ↔
      if types.contains (chars "object") then
        isClosed schema = true ∧
          ∃ properties, ((schema.get? "properties").getD (.dict false [])).members? = some properties ∧
            properties.length ≤ limits.objectArrayItems ∧
            validRequired ((schema.get? "required").getD (.list [])) properties limits = true ∧
            ∀ p ∈ properties, p.1 ≠ [] ∧ AcceptsOutput limits room p.2
      else (["properties", "required", "additionalProperties"].all fun key => !schema.has key) = true := by
  unfold outputObject
  by_cases hobject : types.contains (chars "object") = true
  · rw [if_pos hobject, if_pos hobject, require_bind_eq_ok]
    refine and_congr_right fun _ => ?_
    cases ((schema.get? "properties").getD (.dict false [])).members? with
    | none => simp
    | some properties =>
      have hone : ∀ p : Str × PyVal, (require (decide (p.1 ≠ [])) .mcpProtocolFailure >>= fun _ =>
          validateOutputSchemaDefinition limits room p.2 >>= fun _ => (pure () : Except Raised Unit)) = .ok () ↔
          p.1 ≠ [] ∧ AcceptsOutput limits room p.2 := by
        intro p
        rw [require_bind_eq_ok, decide_eq_true_iff]
        refine and_congr_right fun _ => ?_
        constructor
        · intro h
          obtain ⟨s, hs, -⟩ := ok_of_bind h
          exact ⟨s, hs⟩
        · rintro ⟨s, hs⟩
          rw [hs]
          rfl
      dsimp only
      rw [require_bind_eq_ok, require_bind_eq_ok, decide_eq_true_iff]
      constructor
      · rintro ⟨hcount, hrequired, hforM⟩
        exact ⟨properties, rfl, hcount, hrequired, fun p hp => (hone p).1 (ok_of_forM hforM p hp)⟩
      · rintro ⟨_, hsame, hcount, hrequired, hchildren⟩
        cases hsame
        exact ⟨hcount, hrequired, forM_ok fun p hp => (hone p).2 (hchildren p hp)⟩
  · rw [if_neg hobject, if_neg hobject]
    exact require_eq_ok_iff

theorem outputArray_ok_iff {room : Nat} {schema : PyVal} {types : List Str} :
    outputArray limits (validateOutputSchemaDefinition limits room) schema types = .ok () ↔
      if types.contains (chars "array") then
        ((schema.get? "items").getD .none).isDict = true ∧
          ((schema.get? "maxItems").any (isIntWithin 0 limits.mcpEvidenceItems)) = true ∧
          AcceptsOutput limits room ((schema.get? "items").getD .none)
      else (["items", "maxItems"].all fun key => !schema.has key) = true := by
  unfold outputArray
  by_cases harray : types.contains (chars "array") = true
  · rw [if_pos harray, if_pos harray, require_bind_eq_ok, require_bind_eq_ok]
    refine and_congr_right fun _ => and_congr_right fun _ => ?_
    constructor
    · intro h
      obtain ⟨s, hs, -⟩ := ok_of_bind h
      exact ⟨s, hs⟩
    · rintro ⟨s, hs⟩
      rw [hs]
      rfl
  · rw [if_neg harray, if_neg harray]
    exact require_eq_ok_iff

def AcceptedTogether (limits : Limits) (schema twin : PyVal) : Prop :=
  schema.isDict = twin.isDict ∧ ∀ room, AcceptsOutput limits room schema ↔ AcceptsOutput limits room twin

/-- Two values of `properties`, with the same names in the same order where they are dictionaries. -/
def PropertiesTogether (limits : Limits) (properties twin : PyVal) : Prop :=
  Option.Rel (List.Forall₂ fun p q => p.1 = q.1 ∧ AcceptedTogether limits p.2 q.2) properties.members? twin.members?

def FrozenTogether (limits : Limits) (v twin : PyVal) : Prop :=
  ∀ depth, Freezable limits depth v ↔ Freezable limits depth twin

/-- Two schemas that differ in the order of their keywords only, and below in such a way that they are accepted together. -/
structure SameDefinition (limits : Limits) (schema twin : PyVal) : Prop where
  dicts : ∃ members members', schema.members? = some members ∧ twin.members? = some members' ∧
    ((∀ p ∈ members, isKey outputSchemaFields p.1 = true) ↔ ∀ p ∈ members', isKey outputSchemaFields p.1 = true)
  keyword : ∀ key, key ≠ "properties" → key ≠ "items" → twin.get? key = schema.get? key
  items : Option.Rel (AcceptedTogether limits) (schema.get? "items") (twin.get? "items")
  properties : Option.Rel (PropertiesTogether limits) (schema.get? "properties") (twin.get? "properties")
  freezable : FrozenTogether limits schema twin

section

variable {schema twin : PyVal} {room : Nat}

theorem SameDefinition.types (h : SameDefinition limits schema twin) : schemaTypesOf twin = schemaTypesOf schema := by
  unfold schemaTypesOf listedTypes
  rw [h.keyword "type" (by decide) (by decide)]

theorem SameDefinition.enum (h : SameDefinition limits schema twin) (types : List Str) :
    outputEnum limits twin types = outputEnum limits schema types := by
  unfold outputEnum
  rw [h.keyword "enum" (by decide) (by decide)]

theorem SameDefinition.bounds (h : SameDefinition limits schema twin) (types : List Str) :
    outputBounds limits twin types = outputBounds limits schema types := by
  have hall : ∀ (keys : List String) (f : PyVal → Bool), (∀ key ∈ keys, key ≠ "properties" ∧ key ≠ "items") →
      (keys.all fun key => (twin.get? key).all f) = keys.all fun key => (schema.get? key).all f := by
    intro keys f hkeys
    induction keys with
    | nil => rfl
    | cons key keys ih =>
      obtain ⟨hkey, hrest⟩ := List.forall_mem_cons.1 hkeys
      rw [List.all_cons, List.all_cons, ih hrest, h.keyword key hkey.1 hkey.2]
  unfold outputBounds boundsInOrder
  rw [hall _ _ (by decide), hall _ _ (by decide), h.keyword "minLength" (by decide) (by decide),
    h.keyword "maxLength" (by decide) (by decide), h.keyword "minimum" (by decide) (by decide),
    h.keyword "maximum" (by decide) (by decide)]

theorem SameDefinition.object (h : SameDefinition limits schema twin) (types : List Str) :
    outputObject limits (validateOutputSchemaDefinition limits room) schema types = .ok () ↔
      outputObject limits (validateOutputSchemaDefinition limits room) twin types = .ok () := by
  rw [outputObject_ok_iff, outputObject_ok_iff]
  by_cases hobject : types.contains (chars "object") = true
  · rw [if_pos hobject, if_pos hobject]
    have hclosed : isClosed twin = isClosed schema := by
      unfold isClosed
      rw [h.keyword "additionalProperties" (by decide) (by decide)]
    rw [hclosed, h.keyword "required" (by decide) (by decide)]
    refine and_congr_right fun _ => ?_
    have hrel : Option.Rel (List.Forall₂ fun p q => p.1 = q.1 ∧ AcceptedTogether limits p.2 q.2)
        ((schema.get? "properties").getD (.dict false [])).members?
        ((twin.get? "properties").getD (.dict false [])).members? := by
      rcases option_rel_cases h.properties with ⟨hs, ht⟩ | ⟨s, t, hs, ht, hst⟩
      · rw [hs, ht]
        exact .some .nil
      · rw [hs, ht]
        exact hst
    rcases option_rel_cases hrel with ⟨hps, hqs⟩ | ⟨ps, qs, hps, hqs, hpairs⟩
    · rw [hps, hqs]
    · have hlookup : ∀ name, (qs.lookup name).isSome = (ps.lookup name).isSome :=
        fun name => isSome_of_option_rel (lookup_forall₂ hpairs name)
      have hrequired : ∀ required, validRequired required qs limits = validRequired required ps limits := by
        intro required
        unfold validRequired
        cases required.sequence? with
        | none => rfl
        | some items => simp only [hlookup]
      have hchildren : (∀ p ∈ ps, p.1 ≠ [] ∧ AcceptsOutput limits room p.2) ↔
          ∀ q ∈ qs, q.1 ≠ [] ∧ AcceptsOutput limits room q.2 := by
        clear hps hqs hrequired hlookup hrel
        induction hpairs with
        | nil => simp
        | cons hpq _ ih => rw [List.forall_mem_cons, List.forall_mem_cons, ih, hpq.1, hpq.2.2 room]
      rw [hps, hqs]
      constructor
      · rintro ⟨_, hsame, hcount, hreq, hall⟩
        cases hsame
        exact ⟨qs, rfl, by rwa [← hpairs.length_eq], by rwa [hrequired], hchildren.1 hall⟩
      · rintro ⟨_, hsame, hcount, hreq, hall⟩
        cases hsame
        exact ⟨ps, rfl, by rwa [hpairs.length_eq], by rwa [← hrequired], hchildren.2 hall⟩
  · rw [if_neg hobject, if_neg hobject]
    have hhas : ∀ key ∈ ["properties", "required", "additionalProperties"], twin.has key = schema.has key := by
      intro key hkey
      unfold PyVal.has
      rcases List.mem_cons.1 hkey with rfl | hkey
      · exact isSome_of_option_rel h.properties
      rcases List.mem_cons.1 hkey with rfl | hkey
      · rw [h.keyword "required" (by decide) (by decide)]
      · rw [List.mem_singleton.1 hkey, h.keyword "additionalProperties" (by decide) (by decide)]
    rw [List.all_eq_true, List.all_eq_true]
    exact forall₂_congr fun key hkey => by rw [hhas key hkey]

theorem SameDefinition.array (h : SameDefinition limits schema twin) (types : List Str) :
    outputArray limits (validateOutputSchemaDefinition limits room) schema types = .ok () ↔
      outputArray limits (validateOutputSchemaDefinition limits room) twin types = .ok () := by
  rw [outputArray_ok_iff, outputArray_ok_iff, h.keyword "maxItems" (by decide) (by decide)]
  by_cases harray : types.contains (chars "array") = true
  · rw [if_pos harray, if_pos harray]
    rcases option_rel_cases h.items with ⟨hs, ht⟩ | ⟨s, t, hs, ht, hst⟩
    · rw [hs, ht]
    · rw [hs, ht, Option.getD_some, Option.getD_some, hst.1, hst.2 room]
  · rw [if_neg harray, if_neg harray]
    have hhas : ∀ key ∈ ["items", "maxItems"], twin.has key = schema.has key := by
      intro key hkey
      unfold PyVal.has
      rcases List.mem_cons.1 hkey with rfl | hkey
      · exact isSome_of_option_rel h.items
      · rw [List.mem_singleton.1 hkey, h.keyword "maxItems" (by decide) (by decide)]
    rw [List.all_eq_true, List.all_eq_true]
    exact forall₂_congr fun key hkey => by rw [hhas key hkey]

/-- Such schemas are accepted together. -/
theorem SameDefinition.accepts (h : SameDefinition limits schema twin) :
    AcceptsOutput limits room schema ↔ AcceptsOutput limits room twin := by
  cases room with
  | zero => exact ⟨fun ⟨_, h⟩ => (by cases h), fun ⟨_, h⟩ => (by cases h)⟩
  | succ room =>
    obtain ⟨members, members', hmembers, hmembers', hkeys⟩ := h.dicts
    rw [acceptsOutput_iff, acceptsOutput_iff, hmembers, hmembers', h.types]
    simp only [h.enum, h.bounds, ← h.object, ← h.array, ← h.freezable 0]
    constructor
    · rintro ⟨_, types, hsame, hfields, hrest⟩
      cases hsame
      exact ⟨members', types, rfl, hkeys.1 hfields, hrest⟩
    · rintro ⟨_, types, hsame, hfields, hrest⟩
      cases hsame
      exact ⟨members, types, rfl, hkeys.2 hfields, hrest⟩

end

end

end NativeMcp.Agent
