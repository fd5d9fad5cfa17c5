import Mathlib.Data.List.Nodup
import Mathlib.Data.List.Perm.Basic
import NativeMcp.Agent.NativeValues
import NativeMcp.Agent.OutputDefinitions

/-!
# The closed schemas of the native server

The native server closes its output schemas before it lists them, and the agent refuses a tool whose output schema is not
closed.  `closed` says on the agent's side what closing a schema means.  What the server lists has the members of the
closed schema in another order, at every level, and is accepted exactly if the closed schema is.
-/

namespace NativeMcp.Agent

/-! ### Closing on the agent's side -/

/-- The type is `object` or the list of types has it. -/
def includesObject (schema : PyVal) : Bool :=
  match schema.get? "type" with
  | some (.str s) => s == chars "object"
  | some (.list items) => items.any (PyVal.isText "object")
  | some (.tuple items) => items.any (PyVal.isText "object")
  | _ => false

/-- `schema[key] = value` -/
def setItem (key : Str) (value : PyVal) : List (Str × PyVal) → List (Str × PyVal)
  | [] => [(key, value)]
  | p :: l => if key = p.1 then (p.1, value) :: l else p :: setItem key value l

mutual

/-- A schema with every schema closed whose type includes objects, at whatever level. -/
def closed : PyVal → PyVal
  | .dict frozen members =>
    if includesObject (.dict frozen members) then
      .dict frozen (setItem (chars "additionalProperties") (.bool false) (closedMembers members))
    else .dict frozen (closedMembers members)
  | schema => schema

def closedMembers : List (Str × PyVal) → List (Str × PyVal)
  | [] => []
  | p :: l =>
    (p.1, if p.1 = chars "properties" then closedProperties p.2
      else if p.1 = chars "items" then closed p.2
      else p.2) :: closedMembers l

def closedProperties : PyVal → PyVal
  | .dict frozen properties => .dict frozen (closedEach properties)
  | v => v

def closedEach : List (Str × PyVal) → List (Str × PyVal)
  | [] => []
  | p :: l => (p.1, closed p.2) :: closedEach l

end

/-- What becomes of the value of a keyword. -/
def closedMember (k : Str) (v : PyVal) : PyVal :=
  if k = chars "properties" then closedProperties v
  else if k = chars "items" then closed v
  else v

theorem closedMembers_eq (m : List (Str × PyVal)) : closedMembers m = m.map fun p => (p.1, closedMember p.1 p.2) := by
  induction m with
  | nil => rfl
  | cons p m ih =>
    rw [closedMembers, ih]
    rfl

theorem closedEach_eq (m : List (Str × PyVal)) : closedEach m = m.map fun p => (p.1, closed p.2) := by
  induction m with
  | nil => rfl
  | cons p m ih =>
    rw [closedEach, ih]
    rfl

theorem lookup_setItem (key : Str) (value : PyVal) (m : List (Str × PyVal)) (x : Str) :
    (setItem key value m).lookup x = if x = key then some value else m.lookup x := by
  induction m with
  | nil =>
    by_cases hx : x = key
    · simp [setItem, hx]
    · simp [setItem, List.lookup_cons, hx, beq_false_of_ne hx]
  | cons p m ih =>
    unfold setItem
    split
    · rename_i hk
      by_cases hx : x = key
      · rw [if_pos hx, List.lookup_cons, hx, hk, beq_self_eq_true]
      · rw [if_neg hx, List.lookup_cons, List.lookup_cons, ← hk, beq_false_of_ne hx]
    · rename_i hk
      rw [List.lookup_cons, List.lookup_cons, ih]
      by_cases hx : x = key
      · rw [if_pos hx, if_pos hx, hx, beq_false_of_ne hk]
      · rw [if_neg hx, if_neg hx]

theorem lookup_closedMembers (m : List (Str × PyVal)) (k : Str) :
    (closedMembers m).lookup k = (m.lookup k).map (closedMember k) := by
  rw [closedMembers_eq]
  induction m with
  | nil => rfl
  | cons p m ih =>
    rw [List.map_cons, List.lookup_cons, List.lookup_cons, ih]
    cases hk : k == p.1 with
    | true =>
      rw [eq_of_beq hk]
      rfl
    | false => rfl

/-- The keywords of a closed schema. -/
theorem get?_closed (schema : PyVal) (key : String) : (closed schema).get? key =
    if includesObject schema = true ∧ key = "additionalProperties" then some (.bool false)
    else (schema.get? key).map (closedMember (chars key)) := by
  cases schema with
  | dict frozen m =>
    unfold closed
    cases includesObject (.dict frozen m) with
    | true =>
      show (setItem _ _ (closedMembers m)).lookup (chars key) = _
      rw [lookup_setItem, lookup_closedMembers]
      by_cases hk : key = "additionalProperties"
      · rw [if_pos (by rw [hk]), if_pos ⟨rfl, hk⟩]
      · have hchars : chars key ≠ chars "additionalProperties" := fun h => hk (chars_inj h)
        rw [if_neg hchars, if_neg fun h => hk h.2]
        rfl
    | false =>
      rw [if_neg (by simp), if_neg (by simp)]
      exact lookup_closedMembers m (chars key)
  | _ => rfl

private theorem isText_loads {floatOf : String → Option PyFloat} {j : Json} {u : PyVal} (h : Loads floatOf j u)
    (name : String) : u.isText name = j.isText name := by
  cases j with
  | string s =>
    obtain ⟨t, rfl, ht, rfl⟩ := h
    show (t == chars name) = (Utf8.encode t == bytes name)
    rw [Bool.eq_iff_iff, beq_iff_eq, beq_iff_eq]
    constructor
    · rintro rfl
      rfl
    · exact encode_inj_of_isText ht (isText_chars name)
  | array items =>
    obtain ⟨vs, rfl, -⟩ := h
    rfl
  | object members =>
    obtain ⟨qs, rfl, -⟩ := h
    rfl
  | numberFloat text =>
    rw [show u = (floatOf text).elim .none .float from h]
    cases floatOf text <;> rfl
  | _ =>
    cases h
    rfl

/-- Both sides agree on which schemas permit objects. -/
theorem includesObject_loads {floatOf : String → Option PyFloat} {schema : Json} {v : PyVal} (h : Loads floatOf schema v) :
    includesObject v = permitsObject schema := by
  have hrel := get?_loads h "type"
  unfold includesObject
  cases hj : schema.find? "type" with
  | none =>
    rw [permitsObject_other (by rw [hj]; simp) (by rw [hj]; simp)]
    rw [hj] at hrel
    cases hu : v.get? "type" with
    | none => rfl
    | some u =>
      rw [hu] at hrel
      cases hrel
  | some j =>
    rw [hj] at hrel
    cases hu : v.get? "type" with
    | none =>
      rw [hu] at hrel
      cases hrel
    | some u =>
      rw [hu] at hrel
      cases hrel with
      | some hload =>
        cases j with
        | string s =>
          have hs := isText_loads hload "object"
          obtain ⟨t, rfl, -⟩ := hload
          rw [permitsObject_string hj]
          exact hs
        | array items =>
          obtain ⟨vs, rfl, hvs⟩ := hload
          rw [loadsItems_iff] at hvs
          rw [permitsObject_array hj]
          show vs.any (PyVal.isText "object") = items.any (Json.isText "object")
          clear hj hu
          induction hvs with
          | nil => rfl
          | cons hj' _ ih => rw [List.any_cons, List.any_cons, ih, isText_loads hj']
        | object members =>
          rw [permitsObject_other (by rw [hj]; simp) (by rw [hj]; simp)]
          obtain ⟨qs, rfl, -⟩ := hload
          rfl
        | numberFloat text =>
          rw [permitsObject_other (by rw [hj]; simp) (by rw [hj]; simp)]
          rw [show u = (floatOf text).elim .none .float from hload]
          cases floatOf text <;> rfl
        | _ =>
          rw [permitsObject_other (by rw [hj]; simp) (by rw [hj]; simp)]
          cases hload
          rfl

/-! ### Members in another order -/

theorem setItem_perm (key : Str) (value : PyVal) {m : List (Str × PyVal)} (hm : (m.map Prod.fst).Nodup) :
    (setItem key value m).Perm ((key, value) :: m.filter fun p => p.1 ≠ key) := by
  induction m with
  | nil => exact .refl _
  | cons p m ih =>
    rw [List.map_cons, List.nodup_cons] at hm
    unfold setItem
    split
    · rename_i hk
      have hrest : m.filter (fun p => p.1 ≠ key) = m := by
        refine List.filter_eq_self.2 fun q hq => decide_eq_true ?_
        intro he
        exact hm.1 (List.mem_map.2 ⟨q, hq, he.trans hk⟩)
      rw [List.filter_cons_of_neg (by simp [hk]), hrest, hk]
    · rename_i hk
      rw [List.filter_cons_of_pos (by simpa using Ne.symm hk)]
      exact ((ih hm.2).cons p).trans (.swap _ _ _)

section

variable {limits : Limits} {floatOf : String → Option PyFloat}

/-- A member and another one of the same name. -/
def MemberTwin (limits : Limits) (p q : Str × PyVal) : Prop := p.1 = q.1 ∧ FrozenTogether limits p.2 q.2

/-- The same members in any order. -/
def Twins (limits : Limits) (ms ms' : List (Str × PyVal)) : Prop := ∃ l, List.Forall₂ (MemberTwin limits) ms l ∧ l.Perm ms'

theorem Twins.perm_left {ms l ms' : List (Str × PyVal)} (hperm : ms.Perm l) (h : Twins limits l ms') : Twins limits ms ms' := by
  obtain ⟨l', hpairs, hperm'⟩ := h
  obtain ⟨l'', hpairs', hperm''⟩ := List.perm_comp_forall₂ hperm hpairs
  exact ⟨l'', hpairs', hperm''.trans hperm'⟩

private theorem forall_of_pairs {P : Str × PyVal → Prop} (hP : ∀ p q, MemberTwin limits p q → (P p ↔ P q))
    {ms l : List (Str × PyVal)} (h : List.Forall₂ (MemberTwin limits) ms l) : (∀ p ∈ ms, P p) ↔ ∀ q ∈ l, P q := by
  induction h with
  | nil => simp
  | cons hpq _ ih => rw [List.forall_mem_cons, List.forall_mem_cons, ih, hP _ _ hpq]

/-- What holds of all members of the one holds of all members of the other. -/
theorem Twins.forall_iff {P : Str × PyVal → Prop} (hP : ∀ p q, MemberTwin limits p q → (P p ↔ P q))
    {ms ms' : List (Str × PyVal)} (h : Twins limits ms ms') : (∀ p ∈ ms, P p) ↔ ∀ q ∈ ms', P q := by
  obtain ⟨l, hpairs, hperm⟩ := h
  rw [forall_of_pairs hP hpairs]
  exact forall_congr' fun q => by rw [hperm.mem_iff]

theorem Twins.length_eq {ms ms' : List (Str × PyVal)} (h : Twins limits ms ms') : ms.length = ms'.length := by
  obtain ⟨l, hpairs, hperm⟩ := h
  exact hpairs.length_eq.trans hperm.length_eq

theorem Twins.frozenTogether {ms ms' : List (Str × PyVal)} (h : Twins limits ms ms') (frozen frozen' : Bool) :
    FrozenTogether limits (.dict frozen ms) (.dict frozen' ms') := by
  intro depth
  rw [freezable_dict, freezable_dict, h.length_eq]
  have hall : (∀ p ∈ ms, p.1 ≠ [] ∧ Freezable limits (depth + 1) p.2) ↔
      ∀ q ∈ ms', q.1 ≠ [] ∧ Freezable limits (depth + 1) q.2 :=
    h.forall_iff fun p q hpq => by rw [hpq.1, hpq.2 (depth + 1)]
  rw [hall]

/-! ### The schema that the server lists -/

private theorem forall₂_filter {m : List (Bytes × Json)} {qs : List (Str × PyVal)}
    (h : List.Forall₂ (LoadsMember floatOf) m qs) (key : String) :
    List.Forall₂ (LoadsMember floatOf) (m.filter fun p => p.1 ≠ bytes key) (qs.filter fun q => q.1 ≠ chars key) := by
  induction h with
  | nil => exact .nil
  | @cons p q m qs hpq _ ih =>
    obtain ⟨htext, hname, hvalue⟩ := hpq
    by_cases hkey : q.1 = chars key
    · have hbytes : p.1 = bytes key := by
        rw [hname, hkey]
        rfl
      rw [List.filter_cons_of_neg (by simp [hbytes]), List.filter_cons_of_neg (by simp [hkey])]
      exact ih
    · have hbytes : p.1 ≠ bytes key := by
        intro h
        exact hkey (encode_inj_of_isText htext (isText_chars key) (hname.symm.trans h))
      rw [List.filter_cons_of_pos (by simp [hbytes]), List.filter_cons_of_pos (by simp [hkey])]
      exact .cons ⟨htext, hname, hvalue⟩ ih

private theorem nodup_names {m : List (Bytes × Json)} {qs : List (Str × PyVal)}
    (h : List.Forall₂ (LoadsMember floatOf) m qs) (hm : Json.Sorted m) : (qs.map Prod.fst).Nodup := by
  have hnames : m.map Prod.fst = (qs.map Prod.fst).map Utf8.encode := by
    clear hm
    induction h with
    | nil => rfl
    | cons hpq _ ih => rw [List.map_cons, List.map_cons, List.map_cons, ih, hpq.2.1]
  have hnodup := Json.nodup_of_sorted hm
  rw [hnames] at hnodup
  exact List.Nodup.of_map _ hnodup

/-- The members of a closed schema, as the server has them and as the agent would. -/
private theorem memberTwins {m : List (Bytes × Json)} {qs ws : List (Str × PyVal)}
    (hqs : List.Forall₂ (LoadsMember floatOf) m qs)
    (hws : List.Forall₂ (LoadsMember floatOf) (m.map fun p => (p.1, closeMember p.1 p.2)) ws)
    (ih : ∀ p ∈ m, ∀ q w, LoadsMember floatOf p q → Loads floatOf (closeMember p.1 p.2) w →
      FrozenTogether limits (closedMember q.1 q.2) w) :
    List.Forall₂ (MemberTwin limits) (qs.map fun q => (q.1, closedMember q.1 q.2)) ws := by
  induction hqs generalizing ws with
  | nil =>
    cases hws
    exact .nil
  | @cons p q m qs hpq _ ihl =>
    obtain ⟨hp, hrest⟩ := List.forall_mem_cons.1 ih
    cases hws with
    | cons hw hws =>
      obtain ⟨htext, hname, hvalue⟩ := hw
      refine .cons ⟨?_, hp q _ hpq hvalue⟩ (ihl hws hrest)
      exact encode_inj_of_isText hpq.1 htext (hpq.2.1.symm.trans hname)

/-- What is shown of a schema and, where it is the value of `properties`, of the schemas that it names. -/
def ClosedTogether (limits : Limits) (floatOf : String → Option PyFloat) (j : Json) : Prop :=
  (∀ v w, Loads floatOf j v → Loads floatOf (closeOutputSchemaObjects j) w →
    AcceptedTogether limits (closed v) w ∧ FrozenTogether limits (closed v) w) ∧
  ∀ v w, Loads floatOf j v → Loads floatOf (closeProperties j) w →
    PropertiesTogether limits (closedProperties v) w ∧ FrozenTogether limits (closedProperties v) w

private theorem member_frozenTogether {p : Bytes × Json} (ih : ClosedTogether limits floatOf p.2) {q : Str × PyVal} {w : PyVal}
    (hpq : LoadsMember floatOf p q) (hw : Loads floatOf (closeMember p.1 p.2) w) :
    FrozenTogether limits (closedMember q.1 q.2) w := by
  obtain ⟨htext, hname, hvalue⟩ := hpq
  have hkey : ∀ key : String, p.1 = bytes key ↔ q.1 = chars key := by
    intro key
    rw [hname]
    constructor
    · exact encode_inj_of_isText htext (isText_chars key)
    · intro h
      rw [h]
      rfl
  unfold closeMember at hw
  unfold closedMember
  by_cases hproperties : q.1 = chars "properties"
  · rw [if_pos ((hkey _).2 hproperties)] at hw
    rw [if_pos hproperties]
    exact (ih.2 _ _ hvalue hw).2
  · rw [if_neg (mt (hkey _).1 hproperties)] at hw
    rw [if_neg hproperties]
    by_cases hitems : q.1 = chars "items"
    · rw [if_pos ((hkey _).2 hitems)] at hw
      rw [if_pos hitems]
      exact (ih.1 _ _ hvalue hw).2
    · rw [if_neg (mt (hkey _).1 hitems)] at hw
      rw [if_neg hitems, loads_unique hvalue hw]
      exact fun depth => Iff.rfl

/-- The closed schema on the agent's side has the members that the server lists, in another order. -/
private theorem closed_twins {m : List (Bytes × Json)} (hm : Json.Sorted m) {qs : List (Str × PyVal)}
    (hqs : List.Forall₂ (LoadsMember floatOf) m qs) {w : PyVal}
    (hw : Loads floatOf (closeOutputSchemaObjects (.object m)) w)
    (ih : ∀ p ∈ m, ClosedTogether limits floatOf p.2) :
    ∃ ms ws, closed (.dict false qs) = .dict false ms ∧ w = .dict false ws ∧ Twins limits ms ws := by
  have hpermits : includesObject (.dict false qs) = permitsObject (.object m) :=
    includesObject_loads (show Loads floatOf (.object m) (.dict false qs) from ⟨qs, rfl, loadsMembers_iff.2 hqs⟩)
  have hmembers : ∀ (m' : List (Bytes × Json)) (qs' ws : List (Str × PyVal)), (∀ p ∈ m', p ∈ m) →
      List.Forall₂ (LoadsMember floatOf) m' qs' →
      List.Forall₂ (LoadsMember floatOf) (m'.map fun p => (p.1, closeMember p.1 p.2)) ws →
      List.Forall₂ (MemberTwin limits) (qs'.map fun q => (q.1, closedMember q.1 q.2)) ws := by
    intro m' qs' ws hsub hqs' hws
    exact memberTwins hqs' hws fun p hp q w hpq hw => member_frozenTogether (ih p (hsub p hp)) hpq hw
  unfold closed
  unfold closeOutputSchemaObjects at hw
  rw [hpermits]
  cases hpermit : permitsObject (.object m) with
  | false =>
    rw [hpermit, if_neg (by simp)] at hw
    obtain ⟨ws, rfl, hws⟩ := hw
    rw [loadsMembers_iff, closeMembers_eq] at hws
    refine ⟨_, ws, if_neg (by simp), rfl, ws, ?_, .refl _⟩
    rw [closedMembers_eq]
    exact hmembers m qs ws (fun p hp => hp) hqs hws
  | true =>
    rw [hpermit, if_pos rfl] at hw
    obtain ⟨ws, rfl, hws⟩ := hw
    rw [loadsMembers_iff, closeMembers_eq] at hws
    refine ⟨_, ws, if_pos rfl, rfl, ?_⟩
    have hsorted : Json.Sorted (m.map fun p => (p.1, closeMember p.1 p.2)) := List.pairwise_map.2 hm
    obtain ⟨l, hl, hperm⟩ := List.perm_comp_forall₂ (assign_perm _ _ hsorted).symm hws
    have hnodup : ((closedMembers qs).map Prod.fst).Nodup := by
      rw [closedMembers_eq, List.map_map]
      exact nodup_names hqs hm
    refine Twins.perm_left (setItem_perm _ _ hnodup) ⟨l, ?_, hperm⟩
    obtain ⟨q, rest, hq, hrest, rfl⟩ := List.forall₂_cons_left_iff.1 hl
    obtain ⟨htext, hname, hvalue⟩ := hq
    refine .cons ⟨?_, ?_⟩ ?_
    · exact encode_inj_of_isText (isText_chars _) htext hname
    · intro depth
      rw [show q.2 = .bool false from hvalue]
    · rw [List.filter_map] at hrest
      rw [closedMembers_eq, List.filter_map]
      exact hmembers _ _ rest (fun p hp => (List.mem_filter.1 hp).1) (forall₂_filter hqs "additionalProperties") hrest

private theorem member_of_find? {m : List (Bytes × Json)} {key : String} {j : Json}
    (h : (Json.object m).find? key = some j) : (bytes key, j) ∈ m := Json.mem_of_lookup h

/-- A keyword that holds no schemas is the same in both. -/
private theorem get?_plain {schema : Json} {v w : PyVal} (hv : Loads floatOf schema v)
    (hw : Loads floatOf (closeOutputSchemaObjects schema) w) {key : String} (hproperties : key ≠ "properties")
    (hitems : key ≠ "items") : w.get? key = (closed v).get? key := by
  have hchars : ∀ name : String, key ≠ name → chars key ≠ chars name := fun name hne h => hne (chars_inj h)
  have hplain : closedMember (chars key) = id := by
    funext u
    unfold closedMember
    rw [if_neg (hchars _ hproperties), if_neg (hchars _ hitems)]
    rfl
  have hunique : ∀ {a : Option Json} {b c : Option PyVal}, Option.Rel (Loads floatOf) a b →
      Option.Rel (Loads floatOf) a c → b = c := by
    intro a b c hab hac
    rcases option_rel_cases hab with ⟨rfl, rfl⟩ | ⟨x, y, rfl, rfl, hxy⟩
    · rcases option_rel_cases hac with ⟨-, rfl⟩ | ⟨x', y', hx, -, -⟩
      · rfl
      · cases hx
    · rcases option_rel_cases hac with ⟨hx, -⟩ | ⟨x', y', hx, rfl, hxy'⟩
      · cases hx
      · cases hx
        rw [loads_unique hxy hxy']
  have hread := get?_loads hw key
  rw [get?_closed, includesObject_loads hv, hplain, Option.map_id_fun]
  by_cases hclosed : permitsObject schema = true ∧ key = "additionalProperties"
  · obtain ⟨hpermits, rfl⟩ := hclosed
    rw [if_pos ⟨hpermits, rfl⟩]
    rw [(closedAs_close schema).additional hpermits] at hread
    rcases option_rel_cases hread with ⟨h, -⟩ | ⟨x, y, hx, hy, hxy⟩
    · cases h
    · cases hx
      rw [hy, show y = .bool false from hxy]
  · rw [if_neg hclosed]
    have hkept : (closeOutputSchemaObjects schema).find? key = schema.find? key := by
      by_cases hadditional : key = "additionalProperties"
      · subst hadditional
        exact (closedAs_close schema).kept (by simpa using hclosed)
      · exact find?_close schema hadditional hproperties hitems
    rw [hkept] at hread
    exact hunique hread (get?_loads hv key)

/-- The server's schema and the closed one on the agent's side are accepted together. -/
private theorem closed_sameDefinition {m : List (Bytes × Json)} (hm : Json.Sorted m) {v w : PyVal}
    (hv : Loads floatOf (.object m) v) (hw : Loads floatOf (closeOutputSchemaObjects (.object m)) w)
    (ih : ∀ p ∈ m, ClosedTogether limits floatOf p.2) : SameDefinition limits (closed v) w := by
  have hkeywords : ∀ key, key ≠ "additionalProperties" →
      Option.Rel (Loads floatOf) (((Json.object m).find? key).map (closeMember (bytes key))) (w.get? key) := by
    intro key hkey
    rw [← find?_close_map _ hkey]
    exact get?_loads hw key
  have hclosedKeywords : ∀ key, key ≠ "additionalProperties" →
      (closed v).get? key = (v.get? key).map (closedMember (chars key)) := by
    intro key hkey
    rw [get?_closed, if_neg fun h => hkey h.2]
  have hboth : ∀ key, key ≠ "additionalProperties" → ((closed v).get? key = none ∧ w.get? key = none) ∨
      ∃ j u y, (bytes key, j) ∈ m ∧ Loads floatOf j u ∧ (closed v).get? key = some (closedMember (chars key) u) ∧
        w.get? key = some y ∧ Loads floatOf (closeMember (bytes key) j) y := by
    intro key hkey
    have hread := hkeywords key hkey
    rw [hclosedKeywords key hkey]
    rcases option_rel_cases (get?_loads hv key) with ⟨hj, hu⟩ | ⟨j, u, hj, hu, hload⟩
    · rw [hj] at hread
      rw [hu]
      rcases option_rel_cases hread with ⟨-, hy⟩ | ⟨x, y, hx, -, -⟩
      · exact .inl ⟨rfl, hy⟩
      · cases hx
    · rw [hj] at hread
      rw [hu]
      rcases option_rel_cases hread with ⟨hx, -⟩ | ⟨x, y, hx, hy, hxy⟩
      · cases hx
      · cases hx
        exact .inr ⟨j, u, y, member_of_find? hj, hload, rfl, hy, hxy⟩
  have hmember : closedMember (chars "items") = closed := by
    funext u
    unfold closedMember
    rw [if_neg (by decide), if_pos rfl]
  obtain ⟨qs, rfl, hqs⟩ := hv
  obtain ⟨ms, ws, hclosed, rfl, htwins⟩ := closed_twins hm (loadsMembers_iff.1 hqs) hw ih
  refine ⟨⟨ms, ws, by rw [hclosed]; rfl, rfl, ?_⟩, ?_, ?_, ?_, ?_⟩
  · exact htwins.forall_iff fun p q hpq => by rw [hpq.1]
  · intro key hproperties hitems
    exact get?_plain (show Loads floatOf (.object m) (.dict false qs) from ⟨qs, rfl, hqs⟩) hw hproperties hitems
  · rcases hboth "items" (by decide) with ⟨hc, hy⟩ | ⟨j, u, y, hj, hload, hc, hy, hxy⟩
    · rw [hc, hy]
      exact .none
    · rw [hmember] at hc
      rw [closeMember_items] at hxy
      rw [hc, hy]
      exact .some ((ih _ hj).1 u y hload hxy).1
  · rcases hboth "properties" (by decide) with ⟨hc, hy⟩ | ⟨j, u, y, hj, hload, hc, hy, hxy⟩
    · rw [hc, hy]
      exact .none
    · rw [hc, hy]
      exact .some ((ih _ hj).2 u y hload hxy).1
  · rw [hclosed]
    exact htwins.frozenTogether _ _

/-- A value that is no object stays as it is on both sides. -/
private theorem closedTogether_plain {j : Json} (hj : j.isObject = false) : ClosedTogether limits floatOf j := by
  have hclose : closeOutputSchemaObjects j = j ∧ closeProperties j = j := by
    cases j with
    | object m => cases hj
    | _ => exact ⟨rfl, rfl⟩
  have hplain : ∀ v, Loads floatOf j v → closed v = v ∧ closedProperties v = v ∧ v.members? = none := by
    intro v hv
    cases j with
    | object m => cases hj
    | array items =>
      obtain ⟨vs, rfl, -⟩ := hv
      exact ⟨rfl, rfl, rfl⟩
    | string s =>
      obtain ⟨t, rfl, -⟩ := hv
      exact ⟨rfl, rfl, rfl⟩
    | numberFloat text =>
      rw [show v = (floatOf text).elim .none .float from hv]
      cases floatOf text <;> exact ⟨rfl, rfl, rfl⟩
    | _ =>
      cases hv
      exact ⟨rfl, rfl, rfl⟩
  constructor
  · intro v w hv hw
    rw [hclose.1] at hw
    obtain ⟨hclosed, -, -⟩ := hplain v hv
    rw [hclosed, loads_unique hw hv]
    exact ⟨⟨rfl, fun room => Iff.rfl⟩, fun depth => Iff.rfl⟩
  · intro v w hv hw
    rw [hclose.2] at hw
    obtain ⟨-, hproperties, hmembers⟩ := hplain v hv
    rw [hproperties, loads_unique hw hv]
    refine ⟨?_, fun depth => Iff.rfl⟩
    unfold PropertiesTogether
    rw [hmembers]
    exact .none

/-- The values of `properties` are closed name by name. -/
private theorem closedProperties_together {m : List (Bytes × Json)} {v w : PyVal} (hv : Loads floatOf (.object m) v)
    (hw : Loads floatOf (closeProperties (.object m)) w) (ih : ∀ p ∈ m, ClosedTogether limits floatOf p.2) :
    PropertiesTogether limits (closedProperties v) w ∧ FrozenTogether limits (closedProperties v) w := by
  obtain ⟨qs, rfl, hqs⟩ := hv
  obtain ⟨ws, rfl, hws⟩ := (show ∃ ws, w = .dict false ws ∧ LoadsMembers floatOf (closeEach m) ws from hw)
  rw [loadsMembers_iff] at hqs hws
  rw [closeEach_eq] at hws
  have hpairs : List.Forall₂ (fun p q => p.1 = q.1 ∧ AcceptedTogether limits p.2 q.2 ∧ FrozenTogether limits p.2 q.2)
      (closedEach qs) ws := by
    clear hw
    rw [closedEach_eq]
    induction hqs generalizing ws with
    | nil =>
      cases hws
      exact .nil
    | @cons p q m qs hpq _ ihl =>
      obtain ⟨hp, hrest⟩ := List.forall_mem_cons.1 ih
      cases hws with
      | cons hw hws =>
        obtain ⟨htext, hname, hvalue⟩ := hw
        refine .cons ⟨?_, hp.1 _ _ hpq.2.2 hvalue⟩ (ihl hrest _ hws)
        exact encode_inj_of_isText hpq.1 htext (hpq.2.1.symm.trans hname)
  constructor
  · exact .some (hpairs.imp fun _ _ h => ⟨h.1, h.2.1⟩)
  · have htwins : Twins limits (closedEach qs) ws := ⟨ws, hpairs.imp fun _ _ h => ⟨h.1, h.2.2⟩, .refl _⟩
    exact htwins.frozenTogether _ _

theorem closedTogether {j : Json} (hj : Json.Ordered j) : ClosedTogether limits floatOf j := by
  induction hj with
  | @object m hs _ ih =>
    constructor
    · intro v w hv hw
      have hsame := closed_sameDefinition hs hv hw ih
      obtain ⟨members, members', hmembers, hmembers', -⟩ := hsame.dicts
      have hdict : ∀ (u : PyVal) (ms : List (Str × PyVal)), u.members? = some ms → u.isDict = true := by
        intro u ms hu
        cases u with
        | dict frozen members => rfl
        | _ => cases hu
      exact ⟨⟨(hdict _ _ hmembers).trans (hdict _ _ hmembers').symm, fun room => hsame.accepts⟩, hsame.freezable⟩
    · intro v w hv hw
      exact closedProperties_together hv hw ih
  | _ => exact closedTogether_plain rfl

/-! ### What the server lists can be read -/

private theorem exists_pairs {α β : Type} {R : α → β → Prop} {l : List α} (h : ∀ a ∈ l, ∃ b, R a b) :
    ∃ l', List.Forall₂ R l l' := by
  induction l with
  | nil => exact ⟨[], .nil⟩
  | cons a l ih =>
    obtain ⟨⟨b, hb⟩, hl⟩ := List.forall_mem_cons.1 h
    obtain ⟨l', hl'⟩ := ih hl
    exact ⟨b :: l', .cons hb hl'⟩

private theorem exists_of_mem_pairs {α β : Type} {R : α → β → Prop} {l : List α} {l' : List β} (h : List.Forall₂ R l l') :
    ∀ a ∈ l, ∃ b, R a b := by
  induction h with
  | nil =>
    intro a ha
    cases ha
  | cons hab _ ih => exact List.forall_mem_cons.2 ⟨⟨_, hab⟩, ih⟩

private theorem mem_assign {k : Bytes} {v : Json} {m : List (Bytes × Json)} {p : Bytes × Json} (h : p ∈ assign k v m) :
    p = (k, v) ∨ p ∈ m := by
  induction m with
  | nil => exact .inl (List.mem_singleton.1 h)
  | cons q m ih =>
    obtain ⟨k', v'⟩ := q
    unfold assign at h
    split at h
    · rename_i hk
      rcases List.mem_cons.1 h with rfl | h
      · exact .inl (by rw [hk])
      · exact .inr (List.mem_cons_of_mem _ h)
    split at h
    · rcases List.mem_cons.1 h with rfl | h
      · exact .inl rfl
      · exact .inr h
    · rcases List.mem_cons.1 h with rfl | h
      · exact .inr List.mem_cons_self
      · exact (ih h).imp_right (List.mem_cons_of_mem _)

/-- A schema that can be read can be read closed. -/
theorem exists_loads_close (j : Json) : (∃ v, Loads floatOf j v) →
    (∃ w, Loads floatOf (closeOutputSchemaObjects j) w) ∧ ∃ w, Loads floatOf (closeProperties j) w := by
  have hobject : ∀ m : List (Bytes × Json), (∀ p ∈ m, ∃ q, LoadsMember floatOf p q) →
      ∃ w, Loads floatOf (.object m) w := by
    intro m hm
    obtain ⟨ws, hws⟩ := exists_pairs hm
    exact ⟨.dict false ws, ws, rfl, loadsMembers_iff.2 hws⟩
  induction j using Json.induction with
  | object m ih =>
    rintro ⟨v, qs, rfl, hqs⟩
    have hread := exists_of_mem_pairs (loadsMembers_iff.1 hqs)
    have hclose : ∀ p ∈ closeMembers m, ∃ q, LoadsMember floatOf p q := by
      rw [closeMembers_eq, List.forall_mem_map]
      intro p hp
      obtain ⟨q, htext, hname, hvalue⟩ := hread p hp
      obtain ⟨⟨w, hw⟩, w', hw'⟩ := ih p hp ⟨q.2, hvalue⟩
      unfold closeMember
      split
      · exact ⟨(q.1, w'), htext, hname, hw'⟩
      split
      · exact ⟨(q.1, w), htext, hname, hw⟩
      · exact ⟨q, htext, hname, hvalue⟩
    constructor
    · unfold closeOutputSchemaObjects
      split
      · refine hobject _ fun p hp => ?_
        rcases mem_assign hp with rfl | hp
        · exact ⟨(chars "additionalProperties", .bool false), isText_chars _, rfl, rfl⟩
        · exact hclose p hp
      · exact hobject _ hclose
    · show ∃ w, Loads floatOf (.object (closeEach m)) w
      refine hobject _ ?_
      rw [closeEach_eq, List.forall_mem_map]
      intro p hp
      obtain ⟨q, htext, hname, hvalue⟩ := hread p hp
      obtain ⟨⟨w, hw⟩, -⟩ := ih p hp ⟨q.2, hvalue⟩
      exact ⟨(q.1, w), htext, hname, hw⟩
  | _ => exact fun h => ⟨h, h⟩

/-! ### The closing of the native schemas -/

/-- The server's schemas are closed where their type includes objects, and are otherwise unchanged; closing them again
changes nothing; and the agent accepts what the server lists exactly if it accepts the closed schema. -/
theorem close_output_schema_objects_correct (limits : Limits) (floatOf : String → Option PyFloat) (schema : Json)
    (hschema : Json.Ordered schema) :
    (∀ v, Loads floatOf schema v → (∃ w, Loads floatOf (closeOutputSchemaObjects schema) w) ∧
      ∀ w, Loads floatOf (closeOutputSchemaObjects schema) w →
        ((∃ s, checkOutputSchemaDefinition limits (closed v) = .ok s) ↔
          ∃ s, checkOutputSchemaDefinition limits w = .ok s)) ∧
    (∀ path, Option.Rel ClosedAs (schemaAt schema path) (schemaAt (closeOutputSchemaObjects schema) path)) ∧
    closeOutputSchemaObjects (closeOutputSchemaObjects schema) = closeOutputSchemaObjects schema := by
  refine ⟨?_, ?_, close_close schema⟩
  · intro v hv
    refine ⟨(exists_loads_close schema ⟨v, hv⟩).1, fun w hw => ?_⟩
    exact ((closedTogether hschema).1 v w hv hw).1.2 (limits.jsonNestingDepth + 1)
  · intro path
    rw [schemaAt_close]
    cases schemaAt schema path with
    | none => exact .none
    | some sub => exact .some (closedAs_close sub)

end

/-- An array of objects. -/
def sampleNativeSchema : Json :=
  .object [(bytes "items", .object [(bytes "properties", .object [(bytes "line", typed "integer")]),
      (bytes "type", .texts ["object", "null"])]),
    (bytes "maxItems", .numberUnsigned 4), (bytes "type", .text "array")]

private theorem sample_ordered : Json.Ordered sampleNativeSchema := by
  refine .object (by unfold Json.Sorted; decide +kernel) ?_
  simp only [List.forall_mem_cons]
  refine ⟨.object (by unfold Json.Sorted; decide +kernel) ?_, .numberUnsigned 4, .string _, fun p hp => (by cases hp)⟩
  simp only [List.forall_mem_cons]
  refine ⟨.object (by unfold Json.Sorted; decide +kernel) ?_, .array ?_, fun p hp => (by cases hp)⟩
  · simp only [List.forall_mem_cons]
    refine ⟨.object (by unfold Json.Sorted; decide +kernel) ?_, fun p hp => (by cases hp)⟩
    intro p hp
    rw [List.mem_singleton.1 hp]
    exact .string _
  · intro p hp
    obtain ⟨s, -, rfl⟩ := List.mem_map.1 hp
    exact .string _

theorem close_output_schema_objects_correct_sample :
    (∀ v, Loads (fun _ => none) sampleNativeSchema v →
      (∃ w, Loads (fun _ => none) (closeOutputSchemaObjects sampleNativeSchema) w) ∧
      ∀ w, Loads (fun _ => none) (closeOutputSchemaObjects sampleNativeSchema) w →
        ((∃ s, checkOutputSchemaDefinition defaultLimits (closed v) = .ok s) ↔
          ∃ s, checkOutputSchemaDefinition defaultLimits w = .ok s)) ∧
    (∀ path, Option.Rel ClosedAs (schemaAt sampleNativeSchema path)
      (schemaAt (closeOutputSchemaObjects sampleNativeSchema) path)) ∧
    closeOutputSchemaObjects (closeOutputSchemaObjects sampleNativeSchema) = closeOutputSchemaObjects sampleNativeSchema :=
  close_output_schema_objects_correct defaultLimits (fun _ => none) sampleNativeSchema sample_ordered

end NativeMcp.Agent
