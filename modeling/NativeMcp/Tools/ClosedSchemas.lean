import NativeMcp.Tools.Definitions

/-!
# Closing an output schema

What `close_output_schema_objects` does to a schema: at every schema that `properties` and `items` lead to, it sets
`additionalProperties` if the type permits objects, and changes nothing else (`closed_at`).  Doing it twice is doing it once
(`close_close`).
-/

namespace NativeMcp

open Json

/-- Induction over a value, its items and its members. -/
theorem Json.induction {motive : Json → Prop} (null : motive .null) (boolean : ∀ b, motive (.boolean b))
    (numberInteger : ∀ i, motive (.numberInteger i)) (numberUnsigned : ∀ n, motive (.numberUnsigned n))
    (numberFloat : ∀ t, motive (.numberFloat t)) (string : ∀ s, motive (.string s))
    (array : ∀ items, (∀ v ∈ items, motive v) → motive (.array items))
    (object : ∀ members, (∀ p ∈ members, motive p.2) → motive (.object members)) : ∀ v, motive v := by
  refine @Json.rec motive (fun items => ∀ v ∈ items, motive v) (fun members => ∀ p ∈ members, motive p.2)
    (fun p => motive p.2) null boolean numberInteger numberUnsigned numberFloat string array object ?_ ?_ ?_ ?_ ?_
  · intro v hv
    cases hv
  · intro v items hv hitems
    exact List.forall_mem_cons.2 ⟨hv, hitems⟩
  · intro p hp
    cases hp
  · intro p members hp hmembers
    exact List.forall_mem_cons.2 ⟨hp, hmembers⟩
  · intro name v hv
    exact hv

/-- Every object is a map: its members are in key order. -/
inductive Json.Ordered : Json → Prop where
  | null : Ordered .null
  | boolean (b : Bool) : Ordered (.boolean b)
  | numberInteger (i : Int) : Ordered (.numberInteger i)
  | numberUnsigned (n : Nat) : Ordered (.numberUnsigned n)
  | numberFloat (t : String) : Ordered (.numberFloat t)
  | string (s : Bytes) : Ordered (.string s)
  | array {items : List Json} (h : ∀ v ∈ items, Ordered v) : Ordered (.array items)
  | object {members : List (Bytes × Json)} (hs : Sorted members) (h : ∀ p ∈ members, Ordered p.2) :
      Ordered (.object members)

/-! ### One level -/

/-- The string `name`. -/
def Json.isText (name : String) : Json → Bool
  | .string s => s == bytes name
  | _ => false

theorem permitsObject_string {schema : Json} {s : Bytes} (h : schema.find? "type" = some (.string s)) :
    permitsObject schema = (s == bytes "object") := by
  unfold permitsObject
  rw [h]

theorem permitsObject_array {schema : Json} {items : List Json} (h : schema.find? "type" = some (.array items)) :
    permitsObject schema = items.any (Json.isText "object") := by
  unfold permitsObject
  rw [h]
  refine congrArg items.any (funext fun item => ?_)
  cases item <;> rfl

theorem permitsObject_other {schema : Json} (hstring : ∀ s, schema.find? "type" ≠ some (.string s))
    (harray : ∀ items, schema.find? "type" ≠ some (.array items)) : permitsObject schema = false := by
  unfold permitsObject
  split
  · rename_i s hs
    exact absurd hs (hstring s)
  · rename_i items hitems
    exact absurd hitems (harray items)
  · rfl

theorem lookup_assign (k : Bytes) (v : Json) (m : List (Bytes × Json)) (x : Bytes) :
    (assign k v m).lookup x = if x = k then some v else m.lookup x := by
  induction m with
  | nil =>
    by_cases hx : x = k
    · simp [assign, hx]
    · simp [assign, List.lookup_cons, hx, beq_false_of_ne hx]
  | cons p m ih =>
    obtain ⟨k', v'⟩ := p
    unfold assign
    split
    · rename_i hk
      subst hk
      by_cases hx : x = k
      · simp [hx]
      · rw [if_neg hx, List.lookup_cons, List.lookup_cons, beq_false_of_ne hx]
    split
    · by_cases hx : x = k
      · simp [hx]
      · rw [if_neg hx, List.lookup_cons, beq_false_of_ne hx]
    · rename_i hk _
      rw [List.lookup_cons, List.lookup_cons, ih]
      by_cases hx : x = k
      · rw [if_pos hx, if_pos hx, hx, beq_false_of_ne hk]
      · rw [if_neg hx, if_neg hx]

/-- In a map, assigning to a key removes its old member. -/
theorem assign_perm (k : Bytes) (v : Json) {m : List (Bytes × Json)} (hm : Sorted m) :
    (assign k v m).Perm ((k, v) :: m.filter fun p => p.1 ≠ k) := by
  induction m with
  | nil => exact .refl _
  | cons p m ih =>
    obtain ⟨k', v'⟩ := p
    obtain ⟨hp, hm'⟩ := List.pairwise_cons.1 hm
    unfold assign
    split
    · rename_i hk
      subst hk
      have hrest : m.filter (fun p => p.1 ≠ k) = m := by
        refine List.filter_eq_self.2 fun q hq => decide_eq_true ?_
        intro he
        have hlt : k < q.1 := hp q hq
        rw [he] at hlt
        exact List.lt_irrefl _ hlt
      rw [List.filter_cons_of_neg (by simp), hrest]
    split
    · rename_i hk hlt
      have hlt' : k < k' := keyLess_iff.1 hlt
      have hall : ((k', v') :: m).filter (fun p => p.1 ≠ k) = (k', v') :: m := by
        refine List.filter_eq_self.2 fun q hq => decide_eq_true ?_
        intro he
        rcases List.mem_cons.1 hq with rfl | hq
        · exact hk he.symm
        · have hgt := List.lt_trans hlt' (hp q hq)
          rw [he] at hgt
          exact List.lt_irrefl _ hgt
      rw [hall]
    · rename_i hk _
      rw [List.filter_cons_of_pos (by simpa using Ne.symm hk)]
      exact ((ih hm').cons (k', v')).trans (.swap _ _ _)

theorem assign_assign (k : Bytes) (v w : Json) (m : List (Bytes × Json)) :
    assign k v (assign k w m) = assign k v m := by
  induction m with
  | nil => simp [assign]
  | cons p m ih =>
    obtain ⟨k', v'⟩ := p
    by_cases hk : k = k'
    · simp [assign, hk]
    · cases hlt : keyLess k k' with
      | true => simp [assign, hk, hlt]
      | false =>
        have hstep : ∀ (u : Json) (l : List (Bytes × Json)), assign k u ((k', v') :: l) = (k', v') :: assign k u l := by
          intro u l
          rw [assign, if_neg hk, hlt]
          rfl
        rw [hstep, hstep, hstep, ih]

/-- What becomes of the value of a keyword. -/
def closeMember (k : Bytes) (v : Json) : Json :=
  if k = bytes "properties" then closeProperties v
  else if k = bytes "items" then closeOutputSchemaObjects v
  else v

theorem closeMembers_eq (m : List (Bytes × Json)) : closeMembers m = m.map fun p => (p.1, closeMember p.1 p.2) := by
  induction m with
  | nil => rfl
  | cons p m ih =>
    obtain ⟨k, v⟩ := p
    rw [closeMembers, ih]
    rfl

theorem closeEach_eq (m : List (Bytes × Json)) : closeEach m = m.map fun p => (p.1, closeOutputSchemaObjects p.2) := by
  induction m with
  | nil => rfl
  | cons p m ih =>
    obtain ⟨k, v⟩ := p
    rw [closeEach, ih]
    rfl

private theorem lookup_map_members {f : Bytes → Json → Json} (m : List (Bytes × Json)) (k : Bytes) :
    (m.map fun p => (p.1, f p.1 p.2)).lookup k = (m.lookup k).map (f k) := by
  induction m with
  | nil => rfl
  | cons p m ih =>
    rw [List.map_cons, List.lookup_cons, List.lookup_cons, ih]
    cases hk : k == p.1 with
    | true =>
      rw [eq_of_beq hk]
      rfl
    | false => rfl

theorem lookup_closeMembers (m : List (Bytes × Json)) (k : Bytes) :
    (closeMembers m).lookup k = (m.lookup k).map (closeMember k) := by
  rw [closeMembers_eq]
  exact lookup_map_members m k

theorem lookup_closeEach (m : List (Bytes × Json)) (k : Bytes) :
    (closeEach m).lookup k = (m.lookup k).map closeOutputSchemaObjects := by
  rw [closeEach_eq]
  exact @lookup_map_members (fun _ => closeOutputSchemaObjects) m k

/-- The keywords of a closed schema. -/
theorem member?_close (schema : Json) (k : Bytes) : (closeOutputSchemaObjects schema).member? k =
    if permitsObject schema = true ∧ k = bytes "additionalProperties" then some (.boolean false)
    else (schema.member? k).map (closeMember k) := by
  cases schema with
  | object m =>
    unfold closeOutputSchemaObjects
    cases permitsObject (.object m) with
    | true =>
      show (assign _ _ (closeMembers m)).lookup k = _
      rw [lookup_assign, lookup_closeMembers]
      by_cases hk : k = bytes "additionalProperties"
      · rw [if_pos hk, if_pos ⟨rfl, hk⟩]
      · rw [if_neg hk, if_neg fun h => hk h.2]
        rfl
    | false =>
      rw [if_neg (by simp), if_neg (by simp)]
      exact lookup_closeMembers m k
  | _ => rfl

theorem find?_close_map {key : String} (schema : Json) (hadditional : key ≠ "additionalProperties") :
    (closeOutputSchemaObjects schema).find? key = (schema.find? key).map (closeMember (bytes key)) := by
  rw [find?_eq_member?, find?_eq_member?, member?_close, if_neg fun h => hadditional (Utf8.bytes_inj.1 h.2)]

theorem closeMember_other {k : Bytes} (hproperties : k ≠ bytes "properties") (hitems : k ≠ bytes "items") :
    closeMember k = id := by
  funext v
  unfold closeMember
  rw [if_neg hproperties, if_neg hitems]
  rfl

theorem closeMember_items : closeMember (bytes "items") = closeOutputSchemaObjects := by
  funext v
  unfold closeMember
  rw [if_neg fun h => absurd (Utf8.bytes_inj.1 h) (by decide), if_pos rfl]

theorem find?_close {key : String} (schema : Json) (hadditional : key ≠ "additionalProperties")
    (hproperties : key ≠ "properties") (hitems : key ≠ "items") :
    (closeOutputSchemaObjects schema).find? key = schema.find? key := by
  rw [find?_close_map schema hadditional, closeMember_other (fun h => hproperties (Utf8.bytes_inj.1 h))
    fun h => hitems (Utf8.bytes_inj.1 h), Option.map_id_fun]
  rfl

theorem permitsObject_close (schema : Json) : permitsObject (closeOutputSchemaObjects schema) = permitsObject schema := by
  unfold permitsObject
  rw [find?_close schema (by decide) (by decide) (by decide)]

/-! ### Closing twice -/

theorem closeProperties_twice {v : Json}
    (h : ∀ members, v = .object members →
      ∀ p ∈ members, closeOutputSchemaObjects (closeOutputSchemaObjects p.2) = closeOutputSchemaObjects p.2) :
    closeProperties (closeProperties v) = closeProperties v := by
  cases v with
  | object members =>
    show Json.object (closeEach (closeEach members)) = .object (closeEach members)
    rw [closeEach_eq, closeEach_eq, List.map_map]
    refine congrArg Json.object (List.map_congr_left fun p hp => ?_)
    exact congrArg (Prod.mk p.1) (h members rfl p hp)
  | _ => rfl

private theorem closeMembers_assign (m : List (Bytes × Json)) :
    closeMembers (assign (bytes "additionalProperties") (.boolean false) m) =
      assign (bytes "additionalProperties") (.boolean false) (closeMembers m) := by
  have hvalue : closeMember (bytes "additionalProperties") (.boolean false) = .boolean false := rfl
  rw [closeMembers_eq, closeMembers_eq]
  induction m with
  | nil => simp [assign, hvalue]
  | cons p m ih =>
    obtain ⟨k, v⟩ := p
    rw [List.map_cons, assign, assign]
    split
    · rename_i hk
      subst hk
      rw [List.map_cons, hvalue]
    split
    · rw [List.map_cons, List.map_cons, hvalue]
    · rw [List.map_cons, ih]

/-- A closed schema is not changed by closing it again. -/
theorem close_close (schema : Json) :
    closeOutputSchemaObjects (closeOutputSchemaObjects schema) = closeOutputSchemaObjects schema := by
  -- a schema's properties lie two levels below it, so that the levels carry the induction
  have hmembers : ∀ m : List (Bytes × Json),
      (∀ p ∈ m, closeOutputSchemaObjects (closeOutputSchemaObjects p.2) = closeOutputSchemaObjects p.2 ∧
        closeProperties (closeProperties p.2) = closeProperties p.2) →
      closeMembers (closeMembers m) = closeMembers m := by
    intro m hm
    rw [closeMembers_eq, closeMembers_eq, List.map_map]
    refine List.map_congr_left fun p hp => ?_
    refine congrArg (Prod.mk p.1) ?_
    show closeMember p.1 (closeMember p.1 p.2) = closeMember p.1 p.2
    unfold closeMember
    split
    · exact (hm p hp).2
    split
    · exact (hm p hp).1
    · rfl
  have hboth : ∀ v : Json, closeOutputSchemaObjects (closeOutputSchemaObjects v) = closeOutputSchemaObjects v ∧
      closeProperties (closeProperties v) = closeProperties v := by
    intro v
    induction v using Json.induction with
    | object m ih =>
      constructor
      · have hpermits : permitsObject (closeOutputSchemaObjects (.object m)) = permitsObject (.object m) :=
          permitsObject_close _
        cases hp : permitsObject (.object m) with
        | true =>
          have hclosed : closeOutputSchemaObjects (.object m) =
              .object (assign (bytes "additionalProperties") (.boolean false) (closeMembers m)) := by
            rw [closeOutputSchemaObjects, if_pos hp]
          rw [hclosed, hp] at hpermits
          rw [hclosed, closeOutputSchemaObjects, if_pos hpermits, closeMembers_assign, assign_assign, hmembers m ih]
        | false =>
          have hkept : closeOutputSchemaObjects (.object m) = .object (closeMembers m) := by
            rw [closeOutputSchemaObjects, if_neg (by rw [hp]; simp)]
          rw [hkept, hp] at hpermits
          rw [hkept, closeOutputSchemaObjects, if_neg (by rw [hpermits]; simp), hmembers m ih]
      · refine closeProperties_twice fun members hsame p hp => ?_
        cases hsame
        exact (ih p hp).1
    | _ => exact ⟨rfl, rfl⟩
  exact (hboth schema).1

/-! ### The schemas below a schema -/

/-- How a schema below another one is reached. -/
inductive Below where
  | property (name : Bytes)
  | items
  deriving DecidableEq, Repr

def below? (schema : Json) : Below → Option Json
  | .property name => (schema.find? "properties").bind fun properties => properties.member? name
  | .items => schema.find? "items"

/-- The schema that a path leads to. -/
def schemaAt : Json → List Below → Option Json
  | schema, [] => some schema
  | schema, b :: path => (below? schema b).bind fun child => schemaAt child path

theorem below?_close (schema : Json) (b : Below) :
    below? (closeOutputSchemaObjects schema) b = (below? schema b).map closeOutputSchemaObjects := by
  cases b with
  | property name =>
    show ((closeOutputSchemaObjects schema).find? "properties").bind _ = ((schema.find? "properties").bind _).map _
    rw [find?_close_map schema (by decide)]
    cases schema.find? "properties" with
    | none => rfl
    | some properties =>
      show (closeProperties properties).member? name = (properties.member? name).map closeOutputSchemaObjects
      cases properties with
      | object m => exact lookup_closeEach m name
      | _ => rfl
  | items =>
    show (closeOutputSchemaObjects schema).find? "items" = (schema.find? "items").map _
    rw [find?_close_map schema (by decide), closeMember_items]

/-- Wherever a path leads in a schema, it leads to the same schema closed in the closed one. -/
theorem schemaAt_close (schema : Json) (path : List Below) :
    schemaAt (closeOutputSchemaObjects schema) path = (schemaAt schema path).map closeOutputSchemaObjects := by
  induction path generalizing schema with
  | nil => rfl
  | cons b path ih =>
    rw [schemaAt, schemaAt, below?_close]
    cases below? schema b with
    | none => rfl
    | some child => exact ih child

/-- What the closing of a schema does to its own keywords. -/
structure ClosedAs (schema closed : Json) : Prop where
  /-- A schema whose type permits objects is closed. -/
  additional : permitsObject schema = true → closed.find? "additionalProperties" = some (.boolean false)
  /-- No other schema gains or loses the keyword. -/
  kept : permitsObject schema = false → closed.find? "additionalProperties" = schema.find? "additionalProperties"
  keywords : ∀ k, k ≠ bytes "additionalProperties" → k ≠ bytes "properties" → k ≠ bytes "items" →
    closed.member? k = schema.member? k
  /-- The properties and the items are there or not, and the names of the properties and their order are kept. -/
  items : closed.contains "items" = schema.contains "items"
  properties : ∀ v, schema.find? "properties" = some v → ∃ w, closed.find? "properties" = some w ∧
    ((∃ ps qs, v = .object ps ∧ w = .object qs ∧ qs.map Prod.fst = ps.map Prod.fst) ∨ (v.isObject = false ∧ w = v))
  absent : schema.find? "properties" = none → closed.find? "properties" = none
  /-- What is no object is no schema. -/
  other : schema.isObject = false → closed = schema

theorem closedAs_close (schema : Json) : ClosedAs schema (closeOutputSchemaObjects schema) := by
  refine ⟨?_, ?_, ?_, ?_, ?_, ?_, ?_⟩
  · intro hp
    rw [find?_eq_member?, member?_close, if_pos ⟨hp, rfl⟩]
  · intro hp
    have hid : closeMember (bytes "additionalProperties") = id :=
      closeMember_other (fun h => absurd (Utf8.bytes_inj.1 h) (by decide)) fun h => absurd (Utf8.bytes_inj.1 h) (by decide)
    rw [find?_eq_member?, find?_eq_member?, member?_close, if_neg (by rw [hp]; simp), hid, Option.map_id_fun]
    rfl
  · intro k hadditional hproperties hitems
    rw [member?_close, if_neg fun h => hadditional h.2, closeMember_other hproperties hitems, Option.map_id_fun]
    rfl
  · unfold Json.contains
    rw [find?_close_map schema (by decide), Option.isSome_map]
  · intro v hv
    rw [find?_close_map schema (by decide), hv]
    refine ⟨closeProperties v, rfl, ?_⟩
    cases v with
    | object ps =>
      refine .inl ⟨ps, closeEach ps, rfl, rfl, ?_⟩
      rw [closeEach_eq, List.map_map]
      rfl
    | _ => exact .inr ⟨rfl, rfl⟩
  · intro hnone
    rw [find?_close_map schema (by decide), hnone]
    rfl
  · intro hother
    cases schema with
    | object m => cases hother
    | _ => rfl

end NativeMcp
