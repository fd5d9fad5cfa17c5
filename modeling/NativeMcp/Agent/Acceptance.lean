import NativeMcp.Agent.Normalization

/-!
# What a normalised schema accepts

`Defines` and `AcceptsIgnoring` say which arguments a schema accepts when some of its keywords are ignored; with none
ignored they are `_validate_schema_definition` and `_validate_schema`.  A schema and what the normalisation makes of it
`Mirrors` each other at every level, so that both define the same.
-/

namespace NativeMcp.Agent

/-! ### What a schema accepts -/

/-- The part of a definition about properties and items, given what is asked of the schemas below. -/
def DefinesShape (limits : Limits) (below : PyVal → Prop) (schema : PyVal) (t : Str) : Prop :=
  if t = chars "object" then
    ∃ properties, ((schema.get? "properties").getD (.dict false [])).members? = some properties ∧
      properties.length ≤ limits.objectArrayItems ∧ (∀ p ∈ properties, validPropertyName p.1 = true ∧ below p.2) ∧
      validRequired ((schema.get? "required").getD (.list [])) properties limits = true
  else if t = chars "array" then ((schema.get? "items").getD .none).isDict = true ∧ below (itemsOf schema)
  else (["properties", "required", "items", "additionalProperties"].all fun key => !schema.has key) = true

/-- A definition that `_validate_schema_definition` accepts when it ignores these keywords. -/
def Defines (ignored : List String) (limits : Limits) : Nat → PyVal → Prop
  | 0, _ => False
  | room + 1, schema => ∃ members t, schema.members? = some members ∧
      (∀ p ∈ members, isKey (schemaKeys ++ ignored) p.1 = true) ∧
      (schema.get? "type").bind PyVal.text? = some t ∧ isKey schemaTypes t = true ∧ closedOrAbsent schema = true ∧
      DefinesShape limits (Defines ignored limits room) schema t ∧
      checkEnum limits schema t = .ok () ∧ checkBounds schema t = .ok ()

/-- `_validate_schema` accepts the value when it ignores these keywords, at which it does not look in a value's check. -/
def AcceptsIgnoring (ignored : List String) (limits : Limits) (v schema : PyVal) : Prop :=
  Defines ignored limits (limits.jsonNestingDepth + 1) schema ∧ conforms limits v schema = true

theorem checkShape_iff {limits : Limits} {room : Nat} {schema : PyVal} {t : Str} {below : PyVal → Prop}
    (hbelow : ∀ child, validateSchemaDefinition limits room child = .ok () ↔ below child) :
    checkShape limits room schema t = .ok () ↔ DefinesShape limits below schema t := by
  unfold checkShape DefinesShape
  by_cases hobject : t = chars "object"
  · rw [if_pos hobject, if_pos hobject]
    cases ((schema.get? "properties").getD (.dict false [])).members? with
    | none => simp
    | some properties =>
      have hforM : (properties.forM fun p => require (validPropertyName p.1) .invalidToolProposal >>= fun _ =>
          validateSchemaDefinition limits room p.2) = .ok () ↔
          ∀ p ∈ properties, validPropertyName p.1 = true ∧ below p.2 := by
        have hone : ∀ p : Str × PyVal, (require (validPropertyName p.1) .invalidToolProposal >>= fun _ =>
            validateSchemaDefinition limits room p.2) = .ok () ↔ validPropertyName p.1 = true ∧ below p.2 := by
          intro p
          rw [require_bind_eq_ok, hbelow]
        exact ⟨fun h p hp => (hone p).1 (ok_of_forM h p hp), fun h => forM_ok fun p hp => (hone p).2 (h p hp)⟩
      dsimp only
      rw [require_bind_eq_ok, bind_eq_ok_iff, hforM, decide_eq_true_iff]
      have hrequire : ∀ c : Bool, require c .invalidToolProposal = .ok () ↔ c = true := by
        intro c
        cases c <;> simp [require]
      rw [hrequire]
      constructor
      · rintro ⟨hcount, hprops, hreq⟩
        exact ⟨properties, rfl, hcount, hprops, hreq⟩
      · rintro ⟨_, hsame, hcount, hprops, hreq⟩
        cases hsame
        exact ⟨hcount, hprops, hreq⟩
  · rw [if_neg hobject, if_neg hobject]
    by_cases harray : t = chars "array"
    · rw [if_pos harray, if_pos harray, require_bind_eq_ok, hbelow]
      rfl
    · rw [if_neg harray, if_neg harray]
      cases ["properties", "required", "items", "additionalProperties"].all fun key => !schema.has key <;>
        simp [require]

/-- With nothing to ignore, the definitions are those that the source accepts. -/
theorem defines_nil_iff {limits : Limits} {room : Nat} {schema : PyVal} :
    Defines [] limits room schema ↔ validateSchemaDefinition limits room schema = .ok () := by
  induction room generalizing schema with
  | zero => exact ⟨fun h => h.elim, fun h => by cases h⟩
  | succ room ih =>
    rw [validateSchemaDefinition_iff, Defines]
    have hshape : ∀ t, DefinesShape limits (Defines [] limits room) schema t ↔ checkShape limits room schema t = .ok () :=
      fun t => (checkShape_iff fun child => ih.symm).symm
    simp only [hshape, List.append_nil, List.all_eq_true, isKey]

theorem encodable_of_conforms {limits : Limits} {v schema : PyVal} (h : conforms limits v schema = true) :
    v.encodable = true := by
  induction v using PyVal.induction generalizing schema with
  | dict frozen members ih =>
    rw [conforms_iff, parts, List.forall_mem_cons, forall_partsOfMembers] at h
    exact encodableMembers_iff.2 fun p hp => ih p hp (conforms_iff.2 (h.2 p hp))
  | list items ih =>
    rw [conforms_iff, parts, List.forall_mem_cons, forall_partsOfItems] at h
    exact encodableItems_iff.2 fun v hv => ih v hv (conforms_iff.2 (h.2 v hv))
  | tuple items ih =>
    rw [conforms_iff, parts, List.forall_mem_cons, forall_partsOfItems] at h
    exact encodableItems_iff.2 fun v hv => ih v hv (conforms_iff.2 (h.2 v hv))
  | str s =>
    have hmeets := conforms_iff.1 h (.str s, schema) (List.mem_singleton.2 rfl)
    obtain ⟨size, hsize, -⟩ := (Option.any_eq_true _ _).1 (Bool.and_eq_true_iff.1 hmeets).2
    show (encodedSize s).isSome = true
    rw [hsize]
    rfl
  | _ => rfl

private theorem ok_of_validateSchemaItems {limits : Limits} {items : List PyVal} {schema : PyVal}
    (h : validateSchemaItems limits items schema = .ok ()) : ∀ v ∈ items, validateSchema limits v schema = .ok () := by
  induction items with
  | nil =>
    intro v hv
    cases hv
  | cons v items ih =>
    obtain ⟨hv, hitems⟩ := bind_eq_ok_iff.1 h
    exact List.forall_mem_cons.2 ⟨hv, ih hitems⟩

private theorem ok_of_validateSchemaMembers {limits : Limits} {members properties : List (Str × PyVal)}
    (h : validateSchemaMembers limits members properties = .ok ()) :
    ∀ p ∈ members, validateSchema limits p.2 ((properties.lookup p.1).getD .none) = .ok () := by
  induction members with
  | nil =>
    intro p hp
    cases hp
  | cons p members ih =>
    obtain ⟨hp, hmembers⟩ := bind_eq_ok_iff.1 h
    exact List.forall_mem_cons.2 ⟨hp, ih hmembers⟩

theorem encodable_of_validateSchema {limits : Limits} {v schema : PyVal} (h : validateSchema limits v schema = .ok ()) :
    v.encodable = true := by
  induction v using PyVal.induction generalizing schema with
  | dict frozen members ih =>
    rw [validateSchema] at h
    obtain ⟨_, -, h⟩ := ok_of_bind h
    obtain ⟨-, h⟩ := require_bind_eq_ok.1 h
    obtain ⟨-, h⟩ := require_bind_eq_ok.1 h
    exact encodableMembers_iff.2 fun p hp => ih p hp (ok_of_validateSchemaMembers h p hp)
  | list items ih =>
    rw [validateSchema] at h
    obtain ⟨_, -, h⟩ := ok_of_bind h
    obtain ⟨-, h⟩ := require_bind_eq_ok.1 h
    exact encodableItems_iff.2 fun v hv => ih v hv (ok_of_validateSchemaItems h v hv)
  | tuple items ih =>
    rw [validateSchema] at h
    obtain ⟨_, -, h⟩ := ok_of_bind h
    obtain ⟨-, h⟩ := require_bind_eq_ok.1 h
    exact encodableItems_iff.2 fun v hv => ih v hv (ok_of_validateSchemaItems h v hv)
  | str s =>
    rw [validateSchema] at h
    obtain ⟨_, -, h⟩ := ok_of_bind h
    show (encodedSize s).isSome = true
    cases hsize : encodedSize s with
    | none =>
      rw [hsize] at h
      cases h
    | some size => rfl
  | _ => rfl

/-- What `_validate_schema` accepts. -/
theorem validateSchema_ok_iff {limits : Limits} {v schema : PyVal} :
    validateSchema limits v schema = .ok () ↔ AcceptsIgnoring [] limits v schema := by
  unfold AcceptsIgnoring
  rw [defines_nil_iff]
  constructor
  · intro h
    cases hdef : checkSchemaDefinition limits schema with
    | error raised =>
      rw [validateSchema_of_definition_error hdef] at h
      cases h
    | ok u =>
      rw [validateSchema_eq hdef (encodable_of_validateSchema h)] at h
      exact ⟨hdef, require_eq_ok h⟩
  · rintro ⟨hdef, hconforms⟩
    rw [validateSchema_eq hdef (encodable_of_conforms hconforms), hconforms]
    rfl

/-! ### Keywords that hold values -/

def valueKeys : List String :=
  ["type", "required", "enum", "minLength", "maxLength", "minimum", "maximum", "additionalProperties"]

/-- Two schemas with the same keywords, those of the second frozen, and with properties of the same names. -/
structure Mirrors (schema result : PyVal) : Prop where
  keyword : ∀ key ∈ valueKeys, result.get? key = (schema.get? key).map frozenOf
  names : ∀ name, ((propertiesOf result).lookup name).isSome = ((propertiesOf schema).lookup name).isSome

theorem Rewrites.mirrors {below : PyVal → PyVal → Prop} {schema result : PyVal} (h : Rewrites below schema result) :
    Mirrors schema result := by
  refine ⟨?_, ?_⟩
  · have hplain : ∀ key ∈ valueKeys, key ≠ "properties" ∧ key ≠ "items" ∧ isKey annotationKeys (chars key) = false := by
      decide
    intro key hkey
    obtain ⟨hproperties, hitems, hannotation⟩ := hplain key hkey
    exact h.keyword key hproperties hitems hannotation
  · intro name
    exact isSome_of_option_rel (h.child (.property name))

section

variable {schema result : PyVal}

theorem Mirrors.text (h : Mirrors schema result) :
    (result.get? "type").bind PyVal.text? = (schema.get? "type").bind PyVal.text? := by
  rw [h.keyword "type" (by decide)]
  cases schema.get? "type" with
  | none => rfl
  | some v => exact text?_frozenOf v

theorem Mirrors.schemaType (h : Mirrors schema result) : schemaType result = schemaType schema := by
  unfold Agent.schemaType
  rw [h.text]

theorem Mirrors.closedOrAbsent (h : Mirrors schema result) : closedOrAbsent result = closedOrAbsent schema := by
  unfold Agent.closedOrAbsent
  rw [h.keyword "additionalProperties" (by decide)]
  cases schema.get? "additionalProperties" with
  | none => rfl
  | some v => cases v <;> rfl

theorem Mirrors.checkEnum (h : Mirrors schema result) (limits : Limits) (t : Str) :
    checkEnum limits result t = checkEnum limits schema t := by
  unfold Agent.checkEnum
  rw [h.keyword "enum" (by decide)]
  cases schema.get? "enum" with
  | none => rfl
  | some values =>
    rw [Option.map_some]
    dsimp only
    rw [sequence?_frozenOf, jsonValue_frozenOf]
    cases values.sequence? with
    | none => rfl
    | some items =>
      have hempty : (items.map frozenOf ≠ [] && decide ((items.map frozenOf).length ≤ limits.objectArrayItems)) =
          (items ≠ [] && decide (items.length ≤ limits.objectArrayItems)) := by
        rw [List.length_map]
        cases items <;> rfl
      have hmatches : ((items.map frozenOf).all fun v => schemaValueMatches v t) =
          items.all fun v => schemaValueMatches v t := by
        rw [List.all_map]
        exact congrArg items.all (funext fun v => schemaValueMatches_frozenOf v t)
      rw [Option.map_some]
      dsimp only
      rw [hempty, hmatches]

theorem Mirrors.boundsInOrder (h : Mirrors schema result) {low high : String} (hlow : low ∈ valueKeys)
    (hhigh : high ∈ valueKeys) : boundsInOrder result low high = boundsInOrder schema low high := by
  unfold Agent.boundsInOrder
  rw [h.keyword low hlow, h.keyword high hhigh]
  cases schema.get? low with
  | none => rfl
  | some a =>
    cases schema.get? high with
    | none => rfl
    | some b =>
      show ((frozenOf b).less (frozenOf a)).map _ = (b.less a).map _
      rw [less_frozenOf]

theorem Mirrors.all_keywords (h : Mirrors schema result) {f : PyVal → Bool} (hf : ∀ v, f (frozenOf v) = f v) {keys : List String}
    (hkeys : ∀ key ∈ keys, key ∈ valueKeys) :
    (keys.all fun key => (result.get? key).all f) = keys.all fun key => (schema.get? key).all f := by
  induction keys with
  | nil => rfl
  | cons key keys ih =>
    obtain ⟨hkey, hrest⟩ := List.forall_mem_cons.1 hkeys
    rw [List.all_cons, List.all_cons, ih hrest, h.keyword key hkey]
    cases schema.get? key with
    | none => rfl
    | some v => rw [Option.map_some, Option.all_some, Option.all_some, hf]

theorem Mirrors.checkBounds (h : Mirrors schema result) (t : Str) : checkBounds result t = checkBounds schema t := by
  have hlengths : (["minLength", "maxLength"].all fun key => (result.get? key).all fun v =>
      t == chars "string" && isIntWithin 0 hardLimits.toolArgumentBytes v) =
      ["minLength", "maxLength"].all fun key => (schema.get? key).all fun v =>
        t == chars "string" && isIntWithin 0 hardLimits.toolArgumentBytes v :=
    h.all_keywords (fun v => by rw [isIntWithin_frozenOf]) (by decide)
  have hbounds : (["minimum", "maximum"].all fun key => (result.get? key).all fun v =>
      (t == chars "integer" || t == chars "number") && finiteNumber v) =
      ["minimum", "maximum"].all fun key => (schema.get? key).all fun v =>
        (t == chars "integer" || t == chars "number") && finiteNumber v :=
    h.all_keywords (fun v => by rw [finiteNumber_frozenOf]) (by decide)
  unfold Agent.checkBounds
  rw [hlengths, hbounds, h.boundsInOrder (by decide) (by decide), h.boundsInOrder (by decide) (by decide)]

theorem Mirrors.required (h : Mirrors schema result) : requiredOf result = (requiredOf schema).map frozenOf := by
  unfold requiredOf
  rw [h.keyword "required" (by decide)]
  cases schema.get? "required" with
  | none => rfl
  | some v =>
    rw [Option.map_some, Option.bind_some, Option.bind_some, sequence?_frozenOf]
    cases v.sequence? <;> rfl

theorem Mirrors.intAt (h : Mirrors schema result) {key : String} (hkey : key ∈ valueKeys) :
    intAt result key = intAt schema key := by
  unfold Agent.intAt
  rw [h.keyword key hkey]
  cases schema.get? key with
  | none => rfl
  | some v => cases v <;> rfl

theorem Mirrors.numberAt (h : Mirrors schema result) {key : String} (hkey : key ∈ valueKeys) :
    numberAt result key = numberAt schema key := by
  unfold Agent.numberAt
  rw [h.keyword key hkey]
  cases schema.get? key with
  | none => rfl
  | some v => exact number?_frozenOf v

end

/-! ### The definition -/

section

variable {below : PyVal → PyVal → Prop} {schema result : PyVal} {limits : Limits}

private theorem validRequired_mirror {required : PyVal} {ps qs : List (Str × PyVal)}
    (hnames : ∀ name, (qs.lookup name).isSome = (ps.lookup name).isSome) :
    validRequired (frozenOf required) qs limits = validRequired required ps limits := by
  unfold validRequired
  rw [sequence?_frozenOf]
  cases required.sequence? with
  | none => rfl
  | some items =>
    have hnames' : (items.map frozenOf).filterMap PyVal.text? = items.filterMap PyVal.text? := by
      rw [List.filterMap_map]
      exact congrArg (fun f => items.filterMap f) (funext text?_frozenOf)
    rw [Option.map_some]
    dsimp only
    rw [hnames', List.length_map]
    simp only [hnames]

theorem Rewrites.has (h : Rewrites below schema result) {key : String}
    (hkey : key ∈ ["properties", "required", "items", "additionalProperties"]) : result.has key = schema.has key := by
  have hvalue : key ∈ valueKeys → result.has key = schema.has key := by
    intro hmem
    unfold PyVal.has
    rw [h.mirrors.keyword key hmem, Option.isSome_map]
  rcases List.mem_cons.1 hkey with rfl | hkey
  · exact isSome_of_option_rel h.properties
  rcases List.mem_cons.1 hkey with rfl | hkey
  · exact hvalue (by decide)
  rcases List.mem_cons.1 hkey with rfl | hkey
  · exact isSome_of_option_rel h.items
  · rw [List.mem_singleton.1 hkey] at hvalue ⊢
    exact hvalue (by decide)

/-- The properties and items of both are defined together, if those of the schemas below are. -/
theorem Rewrites.shape (h : Rewrites below schema result) {P Q : PyVal → Prop} (hdicts : ∀ s r, below s r → s.isDict = r.isDict)
    (hbelow : ∀ s r, below s r → (P s ↔ Q r)) (hnone : ¬ P .none ∧ ¬ Q .none) (t : Str) :
    DefinesShape limits P schema t ↔ DefinesShape limits Q result t := by
  unfold DefinesShape
  by_cases hobject : t = chars "object"
  · rw [if_pos hobject, if_pos hobject]
    have hrequired : ∀ ps qs : List (Str × PyVal),
        List.Forall₂ (fun p q => p.1 = q.1 ∧ below p.2 q.2) ps qs →
        validRequired ((result.get? "required").getD (.list [])) qs limits =
          validRequired ((schema.get? "required").getD (.list [])) ps limits := by
      intro ps qs hpairs
      have hnames : ∀ name, (qs.lookup name).isSome = (ps.lookup name).isSome :=
        fun name => isSome_of_option_rel (lookup_forall₂ hpairs name)
      rw [h.mirrors.keyword "required" (by decide)]
      cases schema.get? "required" with
      | none => rfl
      | some v => exact validRequired_mirror hnames
    have hforall : ∀ ps qs : List (Str × PyVal), List.Forall₂ (fun p q => p.1 = q.1 ∧ below p.2 q.2) ps qs →
        ((∀ p ∈ ps, validPropertyName p.1 = true ∧ P p.2) ↔ ∀ q ∈ qs, validPropertyName q.1 = true ∧ Q q.2) := by
      intro ps qs hpairs
      induction hpairs with
      | nil => simp
      | cons hpq _ ih => rw [List.forall_mem_cons, List.forall_mem_cons, ih, hpq.1, hbelow _ _ hpq.2]
    have hboth : ∀ v w : PyVal, (∃ ps qs, v.members? = some ps ∧ w.members? = some qs ∧
        List.Forall₂ (fun p q => p.1 = q.1 ∧ below p.2 q.2) ps qs) →
        ((∃ ps, v.members? = some ps ∧ ps.length ≤ limits.objectArrayItems ∧
            (∀ p ∈ ps, validPropertyName p.1 = true ∧ P p.2) ∧
            validRequired ((schema.get? "required").getD (.list [])) ps limits = true) ↔
          ∃ qs, w.members? = some qs ∧ qs.length ≤ limits.objectArrayItems ∧
            (∀ q ∈ qs, validPropertyName q.1 = true ∧ Q q.2) ∧
            validRequired ((result.get? "required").getD (.list [])) qs limits = true) := by
      rintro v w ⟨ps, qs, hps, hqs, hpairs⟩
      rw [hps, hqs]
      constructor
      · rintro ⟨ps', hsame, hcount, hchildren, hreq⟩
        cases hsame
        exact ⟨qs, rfl, by rwa [← hpairs.length_eq], (hforall _ _ hpairs).1 hchildren, by rwa [hrequired _ _ hpairs]⟩
      · rintro ⟨qs', hsame, hcount, hchildren, hreq⟩
        cases hsame
        exact ⟨ps, rfl, by rwa [hpairs.length_eq], (hforall _ _ hpairs).2 hchildren, by rwa [← hrequired _ _ hpairs]⟩
    apply hboth
    have hrel := h.properties
    cases hs : schema.get? "properties" with
    | none =>
      cases hr : result.get? "properties" with
      | none => exact ⟨[], [], rfl, rfl, .nil⟩
      | some w =>
        rw [hs, hr] at hrel
        cases hrel
    | some v =>
      cases hr : result.get? "properties" with
      | none =>
        rw [hs, hr] at hrel
        cases hrel
      | some w =>
        rw [hs, hr] at hrel
        cases hrel with
        | some hvalue =>
          obtain ⟨ps, qs, hps, rfl, hpairs⟩ := hvalue
          exact ⟨ps, qs, hps, rfl, hpairs⟩
  · rw [if_neg hobject, if_neg hobject]
    by_cases harray : t = chars "array"
    · rw [if_pos harray, if_pos harray]
      have hrel := h.items
      unfold itemsOf
      cases hs : schema.get? "items" with
      | none =>
        cases hr : result.get? "items" with
        | none => exact iff_of_false (fun h => hnone.1 h.2) fun h => hnone.2 h.2
        | some r =>
          rw [hs, hr] at hrel
          cases hrel
      | some s =>
        cases hr : result.get? "items" with
        | none =>
          rw [hs, hr] at hrel
          cases hrel
        | some r =>
          rw [hs, hr] at hrel
          cases hrel with
          | some hsr =>
            rw [Option.getD_some, Option.getD_some, hdicts _ _ hsr, hbelow _ _ hsr]
    · rw [if_neg harray, if_neg harray]
      have hall : (["properties", "required", "items", "additionalProperties"].all fun key => !result.has key) =
          ["properties", "required", "items", "additionalProperties"].all fun key => !schema.has key := by
        rw [Bool.eq_iff_iff, List.all_eq_true, List.all_eq_true]
        exact forall₂_congr fun key hkey => by rw [h.has hkey]
      rw [hall]

end

/-- A schema is a definition, its annotations aside, exactly if its normalisation is one. -/
theorem defines_normalized {limits : Limits} {room levels : Nat} {schema result : PyVal}
    (h : normalizeInputSchema limits room schema = .ok result) :
    Defines annotationKeys limits levels schema ↔ Defines [] limits levels result := by
  induction levels generalizing room schema result with
  | zero => exact Iff.rfl
  | succ levels ih =>
    cases room with
    | zero => cases h
    | succ room =>
      have hrewrites := normalizeInputSchema_spec h
      have hnone : ∀ ignored, ¬ Defines ignored limits levels .none := by
        intro ignored hdef
        cases levels with
        | zero => exact hdef
        | succ levels =>
          obtain ⟨members, t, hmembers, -⟩ := hdef
          cases hmembers
      have hdicts : ∀ s r, normalizeInputSchema limits room s = .ok r → s.isDict = r.isDict := by
        intro s r hsr
        cases room with
        | zero => cases hsr
        | succ room =>
          obtain ⟨hs, hr⟩ := (normalizeInputSchema_spec hsr).dicts
          rw [hs, hr]
      have hshape : ∀ t, DefinesShape limits (Defines annotationKeys limits levels) schema t ↔
          DefinesShape limits (Defines [] limits levels) result t :=
        fun t => hrewrites.shape hdicts (fun s r hsr => ih hsr) ⟨hnone _, hnone _⟩ t
      obtain ⟨hdict, hdict'⟩ := hrewrites.dicts
      have hmembers : ∀ v : PyVal, v.isDict = true → ∃ members, v.members? = some members := by
        intro v hv
        cases v with
        | dict frozen members => exact ⟨members, rfl⟩
        | _ => cases hv
      obtain ⟨members, hmembers₁⟩ := hmembers schema hdict
      obtain ⟨members', hmembers₂⟩ := hmembers result hdict'
      have hmirrors := hrewrites.mirrors
      rw [Defines, Defines, hmembers₁, hmembers₂, hmirrors.text, hmirrors.closedOrAbsent]
      constructor
      · rintro ⟨_, t, -, -, htype, htypes, hclosed, hdef, henum, hbounds⟩
        refine ⟨members', t, rfl, ?_, htype, htypes, hclosed, (hshape t).1 hdef, ?_, ?_⟩
        · exact hrewrites.keys members' hmembers₂
        · rw [hmirrors.checkEnum]
          exact henum
        · rw [hmirrors.checkBounds]
          exact hbounds
      · rintro ⟨_, t, -, -, htype, htypes, hclosed, hdef, henum, hbounds⟩
        refine ⟨members, t, rfl, ?_, htype, htypes, hclosed, (hshape t).2 hdef, ?_, ?_⟩
        · exact hrewrites.fields members hmembers₁
        · rw [← hmirrors.checkEnum limits t]
          exact henum
        · rw [← hmirrors.checkBounds t]
          exact hbounds

/-! ### Equality of frozen values -/

private theorem equalItems_frozen {items items' : List PyVal}
    (h : ∀ v ∈ items, ∀ w, w.isParsed = true → (frozenOf v).equal (frozenOf w) = v.equal w)
    (hparsed : PyVal.areParsedItems items' = true) :
    PyVal.equalItems (frozenItems items) (frozenItems items') = PyVal.equalItems items items' := by
  induction items generalizing items' with
  | nil => cases items' <;> rfl
  | cons v items ih =>
    obtain ⟨hv, hitems⟩ := List.forall_mem_cons.1 h
    cases items' with
    | nil => rfl
    | cons w items' =>
      obtain ⟨hw, hrest⟩ := Bool.and_eq_true_iff.1 hparsed
      rw [frozenItems, frozenItems, PyVal.equalItems, PyVal.equalItems, hv w hw, ih hitems hrest]

private theorem equalMembers_frozen {members members' : List (Str × PyVal)}
    (h : ∀ p ∈ members, ∀ w, w.isParsed = true → (frozenOf p.2).equal (frozenOf w) = p.2.equal w)
    (hparsed : PyVal.areParsedMembers members' = true) :
    PyVal.equalMembers (frozenMembers members) (frozenMembers members') = PyVal.equalMembers members members' := by
  induction members with
  | nil => rfl
  | cons p members ih =>
    obtain ⟨name, v⟩ := p
    obtain ⟨hv, hmembers⟩ := List.forall_mem_cons.1 h
    rw [frozenMembers, PyVal.equalMembers, PyVal.equalMembers, lookup_frozenMembers, ih hmembers]
    cases hlookup : members'.lookup name with
    | none => rfl
    | some w =>
      have hw := areParsedMembers_iff.1 hparsed _ (mem_of_lookup_eq_some hlookup)
      rw [Option.map_some]
      dsimp only
      rw [hv w hw]

/-- Values that were parsed are equal exactly if they are equal frozen. -/
theorem equal_frozenOf {v w : PyVal} (hv : v.isParsed = true) (hw : w.isParsed = true) :
    (frozenOf v).equal (frozenOf w) = v.equal w := by
  induction v using PyVal.induction generalizing w with
  | dict frozen members ih =>
    have hmembers := areParsedMembers_iff.1 (Bool.and_eq_true_iff.1 hv).2
    cases w with
    | dict frozen' members' =>
      rw [frozenOf, frozenOf, PyVal.equal, PyVal.equal, length_frozenMembers, length_frozenMembers,
        equalMembers_frozen (fun p hp w hw => ih p hp (hmembers p hp) hw) (Bool.and_eq_true_iff.1 hw).2]
    | tuple items => cases hw
    | _ => rfl
  | list items ih =>
    have hitems := areParsedItems_iff.1 (show PyVal.areParsedItems items = true from hv)
    cases w with
    | list items' =>
      rw [frozenOf, frozenOf, PyVal.equal, PyVal.equal,
        equalItems_frozen (fun v hv w hw => ih v hv (hitems v hv) hw) hw]
    | tuple items' => cases hw
    | _ => rfl
  | tuple items ih => cases hv
  | _ =>
    cases w with
    | tuple items' => cases hw
    | _ => rfl

theorem sameType_frozenOf {v w : PyVal} (hv : v.isParsed = true) (hw : w.isParsed = true) :
    (frozenOf v).sameType (frozenOf w) = v.sameType w := by
  cases v with
  | tuple items => cases hv
  | dict frozen members =>
    have hplain : frozen = false := by simpa using (Bool.and_eq_true_iff.1 hv).1
    subst hplain
    cases w with
    | dict frozen' members' =>
      have hplain' : frozen' = false := by simpa using (Bool.and_eq_true_iff.1 hw).1
      subst hplain'
      rfl
    | tuple items => cases hw
    | _ => rfl
  | _ =>
    cases w with
    | tuple items => cases hw
    | _ => rfl

/-! ### The value -/

section

variable {schema result : PyVal} {limits : Limits}

theorem isParsed_get? {v : PyVal} {key : String} (h : schema.isParsed = true) (hv : schema.get? key = some v) :
    v.isParsed = true := by
  cases schema with
  | dict frozen members => exact areParsedMembers_iff.1 (Bool.and_eq_true_iff.1 h).2 _ (mem_of_lookup_eq_some hv)
  | _ => cases hv

/-- A parsed value is in the `enum` of a parsed schema exactly if it is in the frozen one when it is frozen. -/
theorem Mirrors.inEnum (h : Mirrors schema result) {w : PyVal} (hw : w.isParsed = true) (hschema : schema.isParsed = true) :
    inEnum (frozenOf w) result = inEnum w schema := by
  unfold Agent.inEnum
  rw [h.keyword "enum" (by decide)]
  cases hget : schema.get? "enum" with
  | none => rfl
  | some values =>
    have hvalues := isParsed_get? hschema hget
    rw [Option.map_some, Option.all_some, Option.all_some, sequence?_frozenOf]
    cases values with
    | list items =>
      show ((items.map frozenOf).any fun item => _) = items.any fun item => _
      rw [List.any_map, Bool.eq_iff_iff, List.any_eq_true, List.any_eq_true]
      refine exists_congr fun item => and_congr_right fun hitem => ?_
      have hparsed := areParsedItems_iff.1 (show PyVal.areParsedItems items = true from hvalues) item hitem
      rw [Function.comp_apply, sameType_frozenOf hw hparsed, equal_frozenOf hw hparsed]
    | tuple items => cases hvalues
    | _ => rfl

/-- What is asked of one value is the same, once the value is frozen as the normalised schema is. -/
theorem Mirrors.meets (h : Mirrors schema result) {w : PyVal} (hw : w.isParsed = true) (hschema : schema.isParsed = true) :
    meets limits (frozenOf w) result = meets limits w schema := by
  have htype : schemaValueMatches (frozenOf w) (Agent.schemaType result) = schemaValueMatches w (Agent.schemaType schema) := by
    rw [schemaValueMatches_frozenOf, h.schemaType]
  have henum := h.inEnum hw hschema
  have hrange : ∀ v, meetsRange v result = meetsRange v schema := by
    intro v
    unfold meetsRange
    rw [h.numberAt (by decide), h.numberAt (by decide)]
  have hlength : ∀ size, meetsLength limits size result = meetsLength limits size schema := by
    intro size
    unfold meetsLength
    rw [h.intAt (by decide), h.intAt (by decide)]
  unfold Agent.meets
  rw [htype, henum]
  congr 1
  cases w with
  | dict frozen members =>
    rw [frozenOf]
    dsimp only
    have hnames : (frozenMembers members).all (fun p => ((propertiesOf result).lookup p.1).isSome) =
        members.all fun p => ((propertiesOf schema).lookup p.1).isSome := by
      rw [frozenMembers_eq, List.all_map]
      exact congrArg members.all (funext fun p => h.names p.1)
    have hrequired : ((requiredOf result).all fun item =>
        (item.text?.bind fun name => (frozenMembers members).lookup name).isSome) =
        (requiredOf schema).all fun item => (item.text?.bind fun name => members.lookup name).isSome := by
      rw [h.required, List.all_map]
      refine congrArg (requiredOf schema).all (funext fun item => ?_)
      rw [Function.comp_apply, text?_frozenOf]
      cases item.text? with
      | none => rfl
      | some name => rw [Option.bind_some, Option.bind_some, lookup_frozenMembers, Option.isSome_map]
    rw [length_frozenMembers, hnames, hrequired]
  | list items =>
    show decide ((frozenItems items).length ≤ _) = decide (items.length ≤ _)
    rw [frozenItems_eq, List.length_map]
  | tuple items => cases hw
  | str s =>
    show (encodedSize s).any _ = (encodedSize s).any _
    simp only [hlength]
  | _ =>
    show (!(Agent.schemaType result == _ || Agent.schemaType result == _) || _) = (!(Agent.schemaType schema == _ || _) || _)
    rw [h.schemaType, ← hrange]
    rfl

end

/-! ### The parts of a value under both schemas -/

/-- A schema and its normalisation, or the absence of both. -/
def Normalized (limits : Limits) (schema result : PyVal) : Prop :=
  (∃ room, normalizeInputSchema limits (room + 1) schema = .ok result) ∨ (schema = .none ∧ result = .none)

section

variable {limits : Limits} {schema result : PyVal}

theorem normalized_of_ok {room : Nat} (h : normalizeInputSchema limits room schema = .ok result) :
    Normalized limits schema result := by
  cases room with
  | zero => cases h
  | succ room => exact .inl ⟨room, h⟩

theorem Normalized.mirrors (h : Normalized limits schema result) : Mirrors schema result := by
  rcases h with ⟨room, h⟩ | ⟨rfl, rfl⟩
  · exact (normalizeInputSchema_spec h).mirrors
  · exact ⟨fun key _ => rfl, fun name => rfl⟩

theorem Normalized.child (h : Normalized limits schema result) (d : Descent) :
    Normalized limits ((child? schema d).getD .none) ((child? result d).getD .none) := by
  rcases h with ⟨room, h⟩ | ⟨rfl, rfl⟩
  · have hrel := (normalizeInputSchema_spec h).child d
    cases hs : child? schema d <;> cases hr : child? result d <;> rw [hs, hr] at hrel <;> cases hrel
    · exact .inr ⟨rfl, rfl⟩
    · rename_i hsr
      exact normalized_of_ok hsr
  · cases d with
    | property name => exact .inr ⟨rfl, rfl⟩
    | items => exact .inr ⟨rfl, rfl⟩

theorem parts_normalized (v : PyVal) (h : Normalized limits schema result) :
    List.Forall₂ (fun q q' => q.1 = q'.1 ∧ Normalized limits q.2 q'.2) (parts v schema) (parts v result) := by
  have hitems : ∀ (items : List PyVal) (s r : PyVal), Normalized limits s r →
      (∀ v ∈ items, ∀ s r, Normalized limits s r →
        List.Forall₂ (fun q q' => q.1 = q'.1 ∧ Normalized limits q.2 q'.2) (parts v s) (parts v r)) →
      List.Forall₂ (fun q q' => q.1 = q'.1 ∧ Normalized limits q.2 q'.2) (partsOfItems items s) (partsOfItems items r) := by
    intro items s r hsr hall
    induction items with
    | nil => exact .nil
    | cons v items ih =>
      obtain ⟨hv, hrest⟩ := List.forall_mem_cons.1 hall
      rw [partsOfItems, partsOfItems]
      exact List.rel_append (hv s r hsr) (ih hrest)
  induction v using PyVal.induction generalizing schema result with
  | dict frozen members ih =>
    rw [parts, parts]
    refine .cons ⟨rfl, h⟩ ?_
    have hnames : ∀ name, Normalized limits (((propertiesOf schema).lookup name).getD .none)
        (((propertiesOf result).lookup name).getD .none) := fun name => h.child (.property name)
    clear h
    induction members with
    | nil => exact .nil
    | cons p members ihl =>
      obtain ⟨hp, hrest⟩ := List.forall_mem_cons.1 ih
      rw [partsOfMembers, partsOfMembers]
      exact List.rel_append (hp (hnames p.1)) (ihl hrest)
  | list items ih =>
    rw [parts, parts]
    exact .cons ⟨rfl, h⟩ (hitems items _ _ (h.child .items) fun v hv s r hsr => ih v hv hsr)
  | tuple items ih =>
    rw [parts, parts]
    exact .cons ⟨rfl, h⟩ (hitems items _ _ (h.child .items) fun v hv s r hsr => ih v hv hsr)
  | _ => exact .cons ⟨rfl, h⟩ .nil

theorem parts_schema_isParsed {v : PyVal} (h : schema.isParsed = true) : ∀ q ∈ parts v schema, q.2.isParsed = true := by
  refine parts_schema_induction (P := fun schema => schema.isParsed = true) rfl ?_ h
  intro frozen members hdict
  exact areParsedMembers_iff.1 (Bool.and_eq_true_iff.1 hdict).2

theorem conforms_normalized {v : PyVal} (hv : v.isParsed = true) (hschema : schema.isParsed = true)
    (h : Normalized limits schema result) : conforms limits (frozenOf v) result = conforms limits v schema := by
  have hparts := parts_normalized v h
  have hvalues := @parts_isParsed v schema hv
  have hschemas := @parts_schema_isParsed schema v hschema
  unfold conforms
  rw [parts_frozenOf, List.all_map]
  generalize parts v schema = l, parts v result = l' at hparts hvalues hschemas
  induction hparts with
  | nil => rfl
  | @cons q q' l l' hqq' _ ih =>
    obtain ⟨hq, hvalues⟩ := List.forall_mem_cons.1 hvalues
    obtain ⟨hs, hschemas⟩ := List.forall_mem_cons.1 hschemas
    rw [List.all_cons, List.all_cons, ih hvalues hschemas, Function.comp_apply]
    dsimp only
    rw [← hqq'.1, hqq'.2.mirrors.meets hq hs]

/-- Immutable arguments are accepted by the normalised schema exactly if the schema accepts them as they were parsed. -/
theorem validateSchema_frozen_normalized {room : Nat} {v : PyVal} (h : normalizeInputSchema limits room schema = .ok result)
    (hschema : schema.isParsed = true) (hv : v.isParsed = true) :
    validateSchema limits (frozenOf v) result = .ok () ↔ AcceptsIgnoring annotationKeys limits v schema := by
  rw [validateSchema_ok_iff]
  unfold AcceptsIgnoring
  rw [defines_normalized h, conforms_normalized hv hschema (normalized_of_ok h)]

theorem enum_normalized {v : PyVal} (h : Normalized limits schema result) :
    (∀ q ∈ parts v result, q.1.isContainer = true → q.2.has "enum" = false) ↔
      ∀ q ∈ parts v schema, q.1.isContainer = true → q.2.has "enum" = false := by
  have hparts := parts_normalized v h
  generalize parts v schema = l, parts v result = l' at hparts
  induction hparts with
  | nil => simp
  | @cons q q' l l' hqq' _ ih =>
    have hhas : q'.2.has "enum" = q.2.has "enum" := by
      unfold PyVal.has
      rw [hqq'.2.mirrors.keyword "enum" (by decide), Option.isSome_map]
    rw [List.forall_mem_cons, List.forall_mem_cons, hhas, hqq'.1]
    exact and_congr_right fun _ => ih

end

/-! ### The normalisation -/

/-- The normalised schema has no annotations, keeps the properties and is a fixed point.  Immutable arguments are accepted
as the schema accepts them; arguments as they were parsed are too, unless the schema accepts them with an object or
array under an `enum`. -/
theorem normalization_correct_iff (limits : Limits) (schema result : PyVal)
    (h : normalizedInputSchema limits schema = .ok result) :
    (∀ path sub, subschemaAt result path = some sub → ∀ key ∈ annotationKeys, sub.has key = false) ∧
    (∀ path, (subschemaAt result path).map propertyNames = (subschemaAt schema path).map propertyNames) ∧
    normalizedInputSchema limits result = .ok result ∧
    ∀ v, schema.isParsed = true → v.isParsed = true →
      (validateSchema limits (frozenOf v) result = .ok () ↔ AcceptsIgnoring annotationKeys limits v schema) ∧
      ((validateSchema limits v result = .ok () ↔ AcceptsIgnoring annotationKeys limits v schema) ↔
        (AcceptsIgnoring annotationKeys limits v schema →
          ∀ q ∈ parts v schema, q.1.isContainer = true → q.2.has "enum" = false)) := by
  refine ⟨?_, ?_, normalizeInputSchema_fixed h, ?_⟩
  · intro path sub hsub
    have hrel := subschemaAt_normalized h path
    rw [hsub] at hrel
    cases hs : subschemaAt schema path with
    | none =>
      rw [hs] at hrel
      cases hrel
    | some s =>
      rw [hs] at hrel
      cases hrel with
      | some hnormalized =>
        obtain ⟨room, hroom⟩ := hnormalized
        exact (normalizeInputSchema_spec hroom).unannotated
  · intro path
    refine (map_eq_of_option_rel (subschemaAt_normalized h path) ?_).symm
    rintro sub sub' ⟨room, hroom⟩
    exact (normalizeInputSchema_spec hroom).propertyNames.symm
  · intro v hschema hv
    have hfrozen := validateSchema_frozen_normalized h hschema hv
    refine ⟨hfrozen, ?_⟩
    have hparsed : validateSchema limits v result = .ok () ↔ validateSchema limits (frozenOf v) result = .ok () ∧
        ∀ q ∈ parts v schema, q.1.isContainer = true → q.2.has "enum" = false := by
      rw [validateSchema_ok_iff, validateSchema_ok_iff, ← enum_normalized (normalized_of_ok h)]
      unfold AcceptsIgnoring
      rw [conforms_iff_frozen hv (isFrozen_normalizeInputSchema h), and_assoc]
    rw [hparsed, hfrozen]
    constructor
    · intro hiff haccepts
      exact (hiff.2 haccepts).2
    · intro hcondition
      exact ⟨And.left, fun haccepts => ⟨haccepts, hcondition haccepts⟩⟩

/-- A schema with annotations, and with properties of their names. -/
def sampleInputSchema : PyVal :=
  .dict false [(chars "type", .str (chars "object")), (chars "title", .str (chars "t")),
    (chars "properties", .dict false [
      (chars "title", .dict false [(chars "type", .str (chars "string")), (chars "default", .str [])]),
      (chars "default", .dict false [(chars "type", .str (chars "array")), (chars "description", .none),
        (chars "items", .dict false [(chars "type", .str (chars "integer")), (chars "default", .int 0)]),
        (chars "enum", .list [.list [.int 1, .int 2]])])]),
    (chars "required", .list [.str (chars "title")])]

def sampleNormalizedSchema : PyVal :=
  .dict true [(chars "type", .str (chars "object")),
    (chars "properties", .dict true [
      (chars "title", .dict true [(chars "type", .str (chars "string"))]),
      (chars "default", .dict true [(chars "type", .str (chars "array")),
        (chars "items", .dict true [(chars "type", .str (chars "integer"))]),
        (chars "enum", .tuple [.tuple [.int 1, .int 2]])])]),
    (chars "required", .tuple [.str (chars "title")])]

private theorem sample_normalized : normalizedInputSchema defaultLimits sampleInputSchema = .ok sampleNormalizedSchema := by
  rfl

theorem normalization_correct_iff_sample :
    (∀ path sub, subschemaAt sampleNormalizedSchema path = some sub → ∀ key ∈ annotationKeys, sub.has key = false) ∧
    (∀ path, (subschemaAt sampleNormalizedSchema path).map propertyNames =
      (subschemaAt sampleInputSchema path).map propertyNames) ∧
    normalizedInputSchema defaultLimits sampleNormalizedSchema = .ok sampleNormalizedSchema ∧
    ∀ v, sampleInputSchema.isParsed = true → v.isParsed = true →
      (validateSchema defaultLimits (frozenOf v) sampleNormalizedSchema = .ok () ↔
        AcceptsIgnoring annotationKeys defaultLimits v sampleInputSchema) ∧
      ((validateSchema defaultLimits v sampleNormalizedSchema = .ok () ↔
        AcceptsIgnoring annotationKeys defaultLimits v sampleInputSchema) ↔
        (AcceptsIgnoring annotationKeys defaultLimits v sampleInputSchema →
          ∀ q ∈ parts v sampleInputSchema, q.1.isContainer = true → q.2.has "enum" = false)) :=
  normalization_correct_iff defaultLimits sampleInputSchema sampleNormalizedSchema sample_normalized

/-- Arguments that the schema accepts are refused as they were parsed once the schema is normalised. -/
theorem normalization_refuses_array :
    ∃ schema result v, schema.isParsed = true ∧ v.isParsed = true ∧
      normalizedInputSchema defaultLimits schema = .ok result ∧
      AcceptsIgnoring annotationKeys defaultLimits v schema ∧
      validateSchema defaultLimits v result = .error (.provider .invalidToolProposal) := by
  refine ⟨sampleInputSchema, sampleNormalizedSchema,
    .dict false [(chars "title", .str []), (chars "default", .list [.int 1, .int 2])], rfl, rfl, sample_normalized, ?_,
    by decide +kernel⟩
  exact (validateSchema_frozen_normalized sample_normalized rfl rfl).1 (by decide +kernel)

end NativeMcp.Agent
