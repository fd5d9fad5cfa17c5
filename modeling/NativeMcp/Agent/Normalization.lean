import Mathlib.Data.List.Forall2
import NativeMcp.Agent.Revalidation
import NativeMcp.Agent.ToolSchemas

/-!
# The normalised schema of a tool's arguments

`_normalize_input_schema` drops `description`, `default` and `title` from a schema and from the schemas below it.
Below a schema are the values of its `properties` and its `items`; what other keywords hold are values.  `Rewrites` says
what one level of the rewriting does, and everything else is shown from it by induction over the levels.
-/

namespace NativeMcp.Agent

/-! ### Frozen values -/

@[simp] theorem text?_frozenOf (v : PyVal) : (frozenOf v).text? = v.text? := by cases v <;> rfl

@[simp] theorem number?_frozenOf (v : PyVal) : (frozenOf v).number? = v.number? := by cases v <;> rfl

theorem less_frozenOf (v w : PyVal) : (frozenOf v).less (frozenOf w) = v.less w := by
  unfold PyVal.less
  rw [number?_frozenOf, number?_frozenOf]

theorem sequence?_frozenOf (v : PyVal) : (frozenOf v).sequence? = v.sequence?.map (List.map frozenOf) := by
  cases v with
  | list items | tuple items =>
    show some (frozenItems items) = some (items.map frozenOf)
    rw [frozenItems_eq]
  | _ => rfl

theorem schemaValueMatches_frozenOf (v : PyVal) (t : Str) : schemaValueMatches (frozenOf v) t = schemaValueMatches v t := by
  cases v <;> rfl

theorem isIntWithin_frozenOf (low high : Int) (v : PyVal) : isIntWithin low high (frozenOf v) = isIntWithin low high v := by
  cases v <;> rfl

theorem finiteNumber_frozenOf (v : PyVal) : finiteNumber (frozenOf v) = finiteNumber v := by
  cases v <;> rfl

theorem jsonValue_frozenOf {limits : Limits} {stringBytes : Option Nat} (v : PyVal) (depth : Nat) :
    jsonValue limits stringBytes depth (frozenOf v) = jsonValue limits stringBytes depth v := by
  have hitems : ∀ (items : List PyVal) (depth : Nat),
      (∀ v ∈ items, ∀ depth, jsonValue limits stringBytes depth (frozenOf v) = jsonValue limits stringBytes depth v) →
      jsonItems limits stringBytes depth (frozenItems items) = jsonItems limits stringBytes depth items := by
    intro items depth hitems
    induction items with
    | nil => rfl
    | cons v items ih =>
      obtain ⟨hv, hrest⟩ := List.forall_mem_cons.1 hitems
      rw [frozenItems, jsonItems, jsonItems, hv, ih hrest]
  have hlength : ∀ items, (frozenItems items).length = items.length := by
    intro items
    rw [frozenItems_eq, List.length_map]
  induction v using PyVal.induction generalizing depth with
  | dict frozen members ih =>
    have hmembers : ∀ l : List (Str × PyVal), (∀ p ∈ l, ∀ depth,
        jsonValue limits stringBytes depth (frozenOf p.2) = jsonValue limits stringBytes depth p.2) →
        jsonMembers limits stringBytes (depth + 1) (frozenMembers l) = jsonMembers limits stringBytes (depth + 1) l := by
      intro l hl
      induction l with
      | nil => rfl
      | cons p l ihl =>
        obtain ⟨hp, hrest⟩ := List.forall_mem_cons.1 hl
        rw [frozenMembers, jsonMembers, jsonMembers, hp, ihl hrest]
    rw [frozenOf, jsonValue, jsonValue, length_frozenMembers, hmembers members fun p hp depth => ih p hp depth]
  | list items ih => rw [frozenOf, jsonValue, jsonValue, hlength, hitems items _ fun v hv depth => ih v hv depth]
  | tuple items ih => rw [frozenOf, jsonValue, jsonValue, hlength, hitems items _ fun v hv depth => ih v hv depth]
  | _ => rfl

theorem frozenOf_of_isFrozen {v : PyVal} (h : v.isFrozen = true) : frozenOf v = v := by
  induction v using PyVal.induction with
  | dict frozen members ih =>
    obtain ⟨hfrozen, hmembers⟩ := Bool.and_eq_true_iff.1 h
    have hsame : ∀ p ∈ members, (p.1, frozenOf p.2) = id p := by
      intro p hp
      rw [ih p hp (areFrozenMembers_iff.1 hmembers p hp)]
      rfl
    rw [frozenOf, frozenMembers_eq, List.map_congr_left hsame, List.map_id, hfrozen]
  | list items ih => cases h
  | tuple items ih =>
    have hsame : ∀ v ∈ items, frozenOf v = id v := fun v hv => ih v hv (areFrozenItems_iff.1 h v hv)
    rw [frozenOf, frozenItems_eq, List.map_congr_left hsame, List.map_id]
  | _ => rfl

section

variable {limits : Limits} {stringBytes : Option Nat}

private theorem freezeItems_frozenItems {depth : Nat} {items : List PyVal}
    (ih : ∀ v ∈ items, ∀ depth, freezeJson limits stringBytes depth (frozenOf v) = freezeJson limits stringBytes depth v) :
    freezeItems limits stringBytes depth (frozenItems items) = freezeItems limits stringBytes depth items := by
  induction items with
  | nil => rfl
  | cons v items ihl =>
    obtain ⟨hv, hitems⟩ := List.forall_mem_cons.1 ih
    rw [frozenItems, freezeItems, freezeItems, hv, ihl hitems]

private theorem freezeMembers_frozenMembers {depth : Nat} {members : List (Str × PyVal)}
    (ih : ∀ p ∈ members, ∀ depth,
      freezeJson limits stringBytes depth (frozenOf p.2) = freezeJson limits stringBytes depth p.2) :
    freezeMembers limits stringBytes depth (frozenMembers members) = freezeMembers limits stringBytes depth members := by
  induction members with
  | nil => rfl
  | cons p members ihl =>
    obtain ⟨hp, hmembers⟩ := List.forall_mem_cons.1 ih
    rw [frozenMembers, freezeMembers, freezeMembers, hp, ihl hmembers]

/-- `_freeze_json` makes the same of a value that is frozen already. -/
theorem freezeJson_frozenOf (v : PyVal) (depth : Nat) :
    freezeJson limits stringBytes depth (frozenOf v) = freezeJson limits stringBytes depth v := by
  induction v using PyVal.induction generalizing depth with
  | dict frozen members ih =>
    rw [frozenOf, freezeJson, freezeJson, length_frozenMembers, freezeMembers_frozenMembers fun p hp depth => ih p hp depth]
  | list items ih =>
    have hlength : (frozenItems items).length = items.length := by rw [frozenItems_eq, List.length_map]
    rw [frozenOf, freezeJson, freezeJson, hlength, freezeItems_frozenItems fun v hv depth => ih v hv depth]
  | tuple items ih =>
    have hlength : (frozenItems items).length = items.length := by rw [frozenItems_eq, List.length_map]
    rw [frozenOf, freezeJson, freezeJson, hlength, freezeItems_frozenItems fun v hv depth => ih v hv depth]
  | _ => rfl

end

/-! ### One level -/

theorem chars_inj {s t : String} (h : chars s = chars t) : s = t := by
  have hlist : s.toList = t.toList := List.map_injective_iff.2 (fun a b hab => Char.toNat_inj.1 hab) h
  exact String.toList_inj.1 hlist

theorem isKey_inputSchemaFields (key : Str) :
    isKey inputSchemaFields key = (isKey schemaKeys key || isKey annotationKeys key) := List.any_append

/-- What one level of the normalisation makes of a schema, when `below` is what it makes of the schemas below. -/
structure Rewrites (below : PyVal → PyVal → Prop) (schema result : PyVal) : Prop where
  dicts : schema.isDict = true ∧ result.isDict = true
  fields : ∀ members, schema.members? = some members → ∀ p ∈ members, isKey inputSchemaFields p.1 = true
  keys : ∀ members, result.members? = some members → ∀ p ∈ members, isKey schemaKeys p.1 = true
  frozen : result.isFrozen = true
  keyword : ∀ key, key ≠ "properties" → key ≠ "items" → isKey annotationKeys (chars key) = false →
    result.get? key = (schema.get? key).map frozenOf
  properties : Option.Rel (fun v w => ∃ ps qs, v.members? = some ps ∧ w = .dict true qs ∧
    List.Forall₂ (fun p q => p.1 = q.1 ∧ below p.2 q.2) ps qs) (schema.get? "properties") (result.get? "properties")
  items : Option.Rel below (schema.get? "items") (result.get? "items")

section

variable {limits : Limits} {normalize : PyVal → Except Raised PyVal}

theorem normalizeProperties_spec {properties children : List (Str × PyVal)}
    (h : normalizeProperties normalize properties = .ok children) :
    List.Forall₂ (fun p q => p.1 = q.1 ∧ normalize p.2 = .ok q.2) properties children := by
  induction properties generalizing children with
  | nil =>
    cases h
    exact .nil
  | cons p properties ih =>
    obtain ⟨name, child⟩ := p
    rw [normalizeProperties] at h
    obtain ⟨normalized, hchild, h⟩ := ok_of_bind h
    obtain ⟨others, hothers, h⟩ := ok_of_bind h
    cases h
    exact .cons ⟨rfl, hchild⟩ (ih hothers)

/-- The loop keeps every keyword that is no annotation. -/
theorem normalizeKeywords_spec {members kept : List (Str × PyVal)}
    (h : normalizeKeywords limits normalize members = .ok kept) :
    (∀ p ∈ kept, isKey annotationKeys p.1 = false ∧ ∃ v, (p.1, v) ∈ members) ∧
      ∀ key, isKey annotationKeys key = false →
        Option.Rel (fun v w => normalizeKeyword limits normalize key v = .ok w) (members.lookup key) (kept.lookup key) := by
  induction members generalizing kept with
  | nil =>
    cases h
    refine ⟨fun p hp => (by cases hp), fun key _ => .none⟩
  | cons p members ih =>
    obtain ⟨name, value⟩ := p
    rw [normalizeKeywords] at h
    by_cases hname : isKey annotationKeys name = true
    · rw [if_pos hname] at h
      obtain ⟨hkept, hlookup⟩ := ih h
      constructor
      · intro p hp
        obtain ⟨hkey, v, hv⟩ := hkept p hp
        exact ⟨hkey, v, List.mem_cons_of_mem _ hv⟩
      · intro key hkey
        have hne : (key == name) = false := by
          rw [beq_eq_false_iff_ne]
          rintro rfl
          rw [hkey] at hname
          cases hname
        rw [List.lookup_cons, hne]
        exact hlookup key hkey
    · rw [if_neg hname] at h
      obtain ⟨keptValue, hvalue, h⟩ := ok_of_bind h
      obtain ⟨others, hothers, h⟩ := ok_of_bind h
      cases h
      obtain ⟨hkept, hlookup⟩ := ih hothers
      constructor
      · refine List.forall_mem_cons.2 ⟨⟨by simpa using hname, value, List.mem_cons_self⟩, ?_⟩
        intro p hp
        obtain ⟨hkey, v, hv⟩ := hkept p hp
        exact ⟨hkey, v, List.mem_cons_of_mem _ hv⟩
      · intro key hkey
        rw [List.lookup_cons, List.lookup_cons]
        cases hsame : key == name with
        | true =>
          rw [eq_of_beq hsame]
          exact .some hvalue
        | false => exact hlookup key hkey

end

private theorem option_rel_map {α β γ : Type} {R : α → β → Prop} {S : α → γ → Prop} {f : β → γ} {a : Option α}
    {b : Option β} (h : Option.Rel R a b) (hRS : ∀ a b, R a b → S a (f b)) : Option.Rel S a (b.map f) := by
  cases h with
  | none => exact .none
  | some hab => exact .some (hRS _ _ hab)

theorem map_eq_of_option_rel {α β γ : Type} {R : α → β → Prop} {f : α → γ} {g : β → γ} {a : Option α} {b : Option β}
    (h : Option.Rel R a b) (hR : ∀ a b, R a b → f a = g b) : a.map f = b.map g := by
  cases h with
  | none => rfl
  | some hab => rw [Option.map_some, Option.map_some, hR _ _ hab]

theorem option_rel_cases {α β : Type} {R : α → β → Prop} {a : Option α} {b : Option β} (h : Option.Rel R a b) :
    (a = none ∧ b = none) ∨ ∃ x y, a = some x ∧ b = some y ∧ R x y := by
  cases h with
  | none => exact .inl ⟨rfl, rfl⟩
  | some hxy => exact .inr ⟨_, _, rfl, rfl, hxy⟩

theorem isSome_of_option_rel {α β : Type} {R : α → β → Prop} {a : Option α} {b : Option β} (h : Option.Rel R a b) :
    b.isSome = a.isSome := by
  cases h with
  | none => rfl
  | some _ => rfl

private theorem forall₂_frozenMembers {below : PyVal → PyVal → Prop} {ps qs : List (Str × PyVal)}
    (hfrozen : ∀ s r, below s r → r.isFrozen = true) (h : List.Forall₂ (fun p q => p.1 = q.1 ∧ below p.2 q.2) ps qs) :
    List.Forall₂ (fun p q => p.1 = q.1 ∧ below p.2 q.2) ps (frozenMembers qs) := by
  induction h with
  | nil => exact .nil
  | cons hpq _ ih =>
    rw [frozenMembers, frozenOf_of_isFrozen (hfrozen _ _ hpq.2)]
    exact .cons hpq ih

theorem isFrozen_normalizeInputSchema {limits : Limits} {room : Nat} {schema result : PyVal}
    (h : normalizeInputSchema limits room schema = .ok result) : result.isFrozen = true := by
  cases room with
  | zero => cases h
  | succ room =>
    rw [normalizeInputSchema] at h
    split at h
    · cases h
    · obtain ⟨_, -, h⟩ := ok_of_bind h
      obtain ⟨kept, -, h⟩ := ok_of_bind h
      rw [(freezeJson_spec h).1]
      exact isFrozen_frozenOf _

theorem normalizeInputSchema_spec {limits : Limits} {room : Nat} {schema result : PyVal}
    (h : normalizeInputSchema limits (room + 1) schema = .ok result) :
    Rewrites (fun s r => normalizeInputSchema limits room s = .ok r) schema result := by
  have hfrozen := isFrozen_normalizeInputSchema h
  cases schema with
  | dict frozen members =>
    rw [normalizeInputSchema] at h
    dsimp only [PyVal.members?] at h
    obtain ⟨hfields, h⟩ := require_bind_eq_ok.1 h
    obtain ⟨kept, hkept, h⟩ := ok_of_bind h
    obtain ⟨rfl, -⟩ := freezeJson_spec h
    obtain ⟨hmem, hlookup⟩ := normalizeKeywords_spec hkept
    have hfields : ∀ p ∈ members, isKey inputSchemaFields p.1 = true := List.all_eq_true.1 hfields
    have hget : ∀ key, (frozenOf (.dict false kept)).get? key = (kept.lookup (chars key)).map frozenOf :=
      fun key => lookup_frozenMembers kept (chars key)
    refine ⟨⟨rfl, rfl⟩, ?_, ?_, hfrozen, ?_, ?_, ?_⟩
    · intro members' hmembers'
      cases hmembers'
      exact hfields
    · intro members' hmembers' p hp
      cases hmembers'
      rw [frozenMembers_eq] at hp
      obtain ⟨q, hq, rfl⟩ := List.mem_map.1 hp
      obtain ⟨hkey, v, hv⟩ := hmem q hq
      have hfield := hfields _ hv
      rw [isKey_inputSchemaFields, hkey, Bool.or_false] at hfield
      exact hfield
    · intro key hproperties hitems hkey
      have hchars : ∀ name : String, key ≠ name → chars key ≠ chars name := fun name hne h => hne (chars_inj h)
      have hrel := hlookup (chars key) hkey
      rw [hget]
      refine (map_eq_of_option_rel hrel ?_).symm
      intro v w hvalue
      unfold normalizeKeyword at hvalue
      rw [if_neg (hchars _ hproperties), if_neg (hchars _ hitems)] at hvalue
      cases hvalue
      rfl
    · have hrel := hlookup (chars "properties") (by decide)
      rw [hget]
      refine option_rel_map hrel ?_
      intro v w hvalue
      unfold normalizeKeyword at hvalue
      rw [if_pos rfl] at hvalue
      split at hvalue
      · cases hvalue
      · rename_i properties hproperties
        obtain ⟨_, hvalue⟩ := require_bind_eq_ok.1 hvalue
        obtain ⟨children, hchildren, hvalue⟩ := ok_of_bind hvalue
        cases hvalue
        have hbelow : ∀ s r, normalizeInputSchema limits room s = .ok r → r.isFrozen = true :=
          fun s r => isFrozen_normalizeInputSchema
        exact ⟨properties, frozenMembers children, hproperties, rfl,
          forall₂_frozenMembers hbelow (normalizeProperties_spec hchildren)⟩
    · have hrel := hlookup (chars "items") (by decide)
      rw [hget]
      refine option_rel_map hrel ?_
      intro v w hvalue
      unfold normalizeKeyword at hvalue
      rw [if_neg (by decide), if_pos rfl] at hvalue
      rw [frozenOf_of_isFrozen (isFrozen_normalizeInputSchema hvalue)]
      exact hvalue
  | _ => cases h

/-! ### The schemas below a schema -/

/-- How a schema below another one is reached. -/
inductive Descent where
  | property (name : Str)
  | items
  deriving DecidableEq, Repr

def child? (schema : PyVal) : Descent → Option PyVal
  | .property name => (propertiesOf schema).lookup name
  | .items => schema.get? "items"

/-- The schema that a path leads to. -/
def subschemaAt : PyVal → List Descent → Option PyVal
  | schema, [] => some schema
  | schema, d :: path => (child? schema d).bind fun child => subschemaAt child path

/-- The names of the properties. -/
def propertyNames (schema : PyVal) : List Str := (propertiesOf schema).map Prod.fst

section

variable {below : PyVal → PyVal → Prop} {schema result : PyVal}

theorem Rewrites.propertiesOf (h : Rewrites below schema result) :
    List.Forall₂ (fun p q => p.1 = q.1 ∧ below p.2 q.2) (propertiesOf schema) (propertiesOf result) := by
  have hrel := h.properties
  unfold Agent.propertiesOf
  cases hs : schema.get? "properties" with
  | none =>
    rw [hs] at hrel
    cases hr : result.get? "properties" with
    | none => exact .nil
    | some w =>
      rw [hr] at hrel
      cases hrel
  | some v =>
    rw [hs] at hrel
    cases hr : result.get? "properties" with
    | none =>
      rw [hr] at hrel
      cases hrel
    | some w =>
      rw [hr] at hrel
      cases hrel with
      | some hvalue =>
        obtain ⟨ps, qs, hps, rfl, hchildren⟩ := hvalue
        rw [Option.bind_some, hps]
        exact hchildren

theorem lookup_forall₂ {ps qs : List (Str × PyVal)}
    (h : List.Forall₂ (fun p q => p.1 = q.1 ∧ below p.2 q.2) ps qs) (name : Str) :
    Option.Rel below (ps.lookup name) (qs.lookup name) := by
  induction h with
  | nil => exact .none
  | @cons p q ps qs hpq _ ih =>
    obtain ⟨hname, hbelow⟩ := hpq
    rw [List.lookup_cons, List.lookup_cons, ← hname]
    cases name == p.1 with
    | true => exact .some hbelow
    | false => exact ih

theorem Rewrites.child (h : Rewrites below schema result) (d : Descent) :
    Option.Rel below (child? schema d) (child? result d) := by
  cases d with
  | property name => exact lookup_forall₂ h.propertiesOf name
  | items => exact h.items

theorem Rewrites.propertyNames (h : Rewrites below schema result) : propertyNames result = propertyNames schema := by
  have hmap : ∀ ps qs : List (Str × PyVal), List.Forall₂ (fun p q => p.1 = q.1 ∧ below p.2 q.2) ps qs →
      qs.map Prod.fst = ps.map Prod.fst := by
    intro ps qs hpq
    induction hpq with
    | nil => rfl
    | cons hpq _ ih => rw [List.map_cons, List.map_cons, ih, hpq.1]
  exact hmap _ _ h.propertiesOf

theorem Rewrites.unannotated (h : Rewrites below schema result) : ∀ key ∈ annotationKeys, result.has key = false := by
  intro key hkey
  have hforeign : isKey schemaKeys (chars key) = false := by
    have hall : ∀ key ∈ annotationKeys, isKey schemaKeys (chars key) = false := by decide
    exact hall key hkey
  unfold PyVal.has
  cases hget : result.get? key with
  | none => rfl
  | some v =>
    cases result with
    | dict frozen members =>
      have hknown := h.keys members rfl _ (mem_of_lookup_eq_some hget)
      rw [hforeign] at hknown
      cases hknown
    | _ => cases hget

end

/-- Wherever a path leads, it leads to a schema and to what the normalisation makes of it. -/
theorem subschemaAt_normalized {limits : Limits} {room : Nat} {schema result : PyVal}
    (h : normalizeInputSchema limits room schema = .ok result) (path : List Descent) :
    Option.Rel (fun s r => ∃ room, normalizeInputSchema limits (room + 1) s = .ok r) (subschemaAt schema path)
      (subschemaAt result path) := by
  induction path generalizing room schema result with
  | nil =>
    cases room with
    | zero => cases h
    | succ room => exact .some ⟨room, h⟩
  | cons d path ih =>
    cases room with
    | zero => cases h
    | succ room =>
      have hchild := (normalizeInputSchema_spec h).child d
      rw [subschemaAt, subschemaAt]
      cases hs : child? schema d with
      | none =>
        rw [hs] at hchild
        cases hr : child? result d with
        | none => exact .none
        | some r =>
          rw [hr] at hchild
          cases hchild
      | some s =>
        rw [hs] at hchild
        cases hr : child? result d with
        | none =>
          rw [hr] at hchild
          cases hchild
        | some r =>
          rw [hr] at hchild
          cases hchild with
          | some hbelow => exact ih hbelow

/-! ### Normalising twice -/

private theorem normalizeProperties_fixed {normalize : PyVal → Except Raised PyVal} {properties children : List (Str × PyVal)}
    (hfixed : ∀ s r, normalize s = .ok r → normalize r = .ok r)
    (h : List.Forall₂ (fun p q => p.1 = q.1 ∧ normalize p.2 = .ok q.2) properties children) :
    normalizeProperties normalize children = .ok children := by
  induction h with
  | nil => rfl
  | @cons p q ps qs hpq _ ih =>
    obtain ⟨name, child⟩ := q
    rw [normalizeProperties, hfixed _ _ hpq.2, ih]
    rfl

private theorem frozenMembers_fixed {properties children : List (Str × PyVal)} {normalize : PyVal → Except Raised PyVal}
    (hfrozen : ∀ s r, normalize s = .ok r → r.isFrozen = true)
    (h : List.Forall₂ (fun p q => p.1 = q.1 ∧ normalize p.2 = .ok q.2) properties children) :
    frozenMembers children = children := by
  induction h with
  | nil => rfl
  | @cons p q ps qs hpq _ ih => rw [frozenMembers, frozenOf_of_isFrozen (hfrozen _ _ hpq.2), ih]

/-- The loop makes nothing new of what it has made, once that is frozen. -/
private theorem normalizeKeywords_fixed {limits : Limits} {normalize : PyVal → Except Raised PyVal}
    (hfrozen : ∀ s r, normalize s = .ok r → r.isFrozen = true)
    (hfixed : ∀ s r, normalize s = .ok r → normalize r = .ok r) {members kept : List (Str × PyVal)}
    (h : normalizeKeywords limits normalize members = .ok kept) :
    ∃ again, normalizeKeywords limits normalize (frozenMembers kept) = .ok again ∧
      frozenMembers again = frozenMembers kept := by
  induction members generalizing kept with
  | nil =>
    cases h
    exact ⟨[], rfl, rfl⟩
  | cons p members ih =>
    obtain ⟨name, value⟩ := p
    rw [normalizeKeywords] at h
    by_cases hname : isKey annotationKeys name = true
    · rw [if_pos hname] at h
      exact ih h
    · rw [if_neg hname] at h
      obtain ⟨w, hvalue, h⟩ := ok_of_bind h
      obtain ⟨others, hothers, h⟩ := ok_of_bind h
      cases h
      obtain ⟨again, hagain, hsame⟩ := ih hothers
      have hkeyword : ∃ w', normalizeKeyword limits normalize name (frozenOf w) = .ok w' ∧ frozenOf w' = frozenOf w := by
        unfold normalizeKeyword at hvalue ⊢
        by_cases hproperties : name = chars "properties"
        · rw [if_pos hproperties] at hvalue ⊢
          split at hvalue
          · cases hvalue
          · rename_i properties _
            obtain ⟨hcount, hvalue⟩ := require_bind_eq_ok.1 hvalue
            obtain ⟨children, hchildren, hvalue⟩ := ok_of_bind hvalue
            cases hvalue
            have hpairs := normalizeProperties_spec hchildren
            rw [List.Forall₂.length_eq hpairs] at hcount
            refine ⟨.dict false children, ?_, rfl⟩
            rw [frozenOf, frozenMembers_fixed hfrozen hpairs]
            dsimp only [PyVal.members?]
            rw [hcount, normalizeProperties_fixed hfixed hpairs]
            rfl
        · rw [if_neg hproperties] at hvalue ⊢
          by_cases hitems : name = chars "items"
          · rw [if_pos hitems] at hvalue ⊢
            rw [frozenOf_of_isFrozen (hfrozen _ _ hvalue)]
            exact ⟨w, hfixed _ _ hvalue, frozenOf_of_isFrozen (hfrozen _ _ hvalue)⟩
          · rw [if_neg hitems] at hvalue ⊢
            exact ⟨frozenOf w, rfl, frozenOf_of_isFrozen (isFrozen_frozenOf w)⟩
      obtain ⟨w', hw', hsame'⟩ := hkeyword
      refine ⟨(name, w') :: again, ?_, ?_⟩
      · rw [frozenMembers, normalizeKeywords, if_neg hname, hw', hagain]
        rfl
      · rw [frozenMembers, frozenMembers, hsame', hsame]

/-- A normalised schema is a fixed point. -/
theorem normalizeInputSchema_fixed {limits : Limits} {room : Nat} {schema result : PyVal}
    (h : normalizeInputSchema limits room schema = .ok result) : normalizeInputSchema limits room result = .ok result := by
  induction room generalizing schema result with
  | zero => cases h
  | succ room ih =>
    have hrewrites := normalizeInputSchema_spec h
    rw [normalizeInputSchema] at h
    split at h
    · cases h
    · rename_i members hmembers
      obtain ⟨hfields, h⟩ := require_bind_eq_ok.1 h
      obtain ⟨kept, hkept, h⟩ := ok_of_bind h
      obtain ⟨again, hagain, hsame⟩ := normalizeKeywords_fixed (fun s r => isFrozen_normalizeInputSchema)
        (fun s r hs => ih hs) hkept
      obtain ⟨rfl, -⟩ := freezeJson_spec h
      have hallowed : ((frozenMembers kept).all fun p => isKey inputSchemaFields p.1) = true := by
        rw [List.all_eq_true]
        intro p hp
        rw [isKey_inputSchemaFields, hrewrites.keys _ rfl p hp, Bool.true_or]
      have hfrozen : frozenOf (.dict false again) = frozenOf (.dict false kept) := by
        rw [frozenOf, frozenOf, hsame]
      rw [normalizeInputSchema]
      show (require ((frozenMembers kept).all fun p => isKey inputSchemaFields p.1) .mcpProtocolFailure >>= fun _ =>
        normalizeKeywords limits (normalizeInputSchema limits room) (frozenMembers kept) >>= fun normalized =>
          freezeJson limits none 0 (.dict false normalized)) = _
      rw [hallowed, hagain]
      show freezeJson limits none 0 (.dict false again) = _
      rw [← freezeJson_frozenOf, hfrozen, freezeJson_frozenOf]
      exact h

end NativeMcp.Agent
