import NativeMcp.Agent.Normalization
import NativeMcp.Tools.ClosedSchemas

/-!
# The native server's values on the agent's side

`Loads` relates a native value to what `json.loads` makes of its text: the order of the members is kept, and a string is
decoded from UTF-8.
-/

namespace NativeMcp.Agent

/-- A string that can be encoded. -/
def IsText (s : Str) : Prop := ∀ c ∈ s, Utf8.IsScalar c

mutual

/-- `json.loads` makes this value of the text of a native one.  `floatOf` reads the text that a floating-point number is
printed as; the text `null` is no number. -/
def Loads (floatOf : String → Option PyFloat) : Json → PyVal → Prop
  | .null, v => v = .none
  | .boolean b, v => v = .bool b
  | .numberInteger i, v => v = .int i
  | .numberUnsigned n, v => v = .int n
  | .numberFloat text, v => v = (floatOf text).elim .none .float
  | .string s, v => ∃ t, v = .str t ∧ IsText t ∧ s = Utf8.encode t
  | .array items, v => ∃ vs, v = .list vs ∧ LoadsItems floatOf items vs
  | .object members, v => ∃ qs, v = .dict false qs ∧ LoadsMembers floatOf members qs

def LoadsItems (floatOf : String → Option PyFloat) : List Json → List PyVal → Prop
  | [], vs => vs = []
  | j :: l, vs => ∃ v rest, vs = v :: rest ∧ Loads floatOf j v ∧ LoadsItems floatOf l rest

def LoadsMembers (floatOf : String → Option PyFloat) : List (Bytes × Json) → List (Str × PyVal) → Prop
  | [], qs => qs = []
  | p :: l, qs => ∃ name v rest, qs = (name, v) :: rest ∧ IsText name ∧ p.1 = Utf8.encode name ∧ Loads floatOf p.2 v ∧
      LoadsMembers floatOf l rest

end

section

variable {floatOf : String → Option PyFloat}

/-- A member and what is read of it. -/
def LoadsMember (floatOf : String → Option PyFloat) (p : Bytes × Json) (q : Str × PyVal) : Prop :=
  IsText q.1 ∧ p.1 = Utf8.encode q.1 ∧ Loads floatOf p.2 q.2

theorem loadsItems_iff {items : List Json} {vs : List PyVal} :
    LoadsItems floatOf items vs ↔ List.Forall₂ (Loads floatOf) items vs := by
  induction items generalizing vs with
  | nil => rw [LoadsItems, List.forall₂_nil_left_iff]
  | cons j items ih =>
    rw [LoadsItems, List.forall₂_cons_left_iff]
    constructor
    · rintro ⟨v, rest, rfl, hv, hrest⟩
      exact ⟨v, rest, hv, ih.1 hrest, rfl⟩
    · rintro ⟨v, rest, hv, hrest, rfl⟩
      exact ⟨v, rest, rfl, hv, ih.2 hrest⟩

theorem loadsMembers_iff {members : List (Bytes × Json)} {qs : List (Str × PyVal)} :
    LoadsMembers floatOf members qs ↔ List.Forall₂ (LoadsMember floatOf) members qs := by
  induction members generalizing qs with
  | nil => rw [LoadsMembers, List.forall₂_nil_left_iff]
  | cons p members ih =>
    rw [LoadsMembers, List.forall₂_cons_left_iff]
    constructor
    · rintro ⟨name, v, rest, rfl, htext, hname, hv, hrest⟩
      exact ⟨(name, v), rest, ⟨htext, hname, hv⟩, ih.1 hrest, rfl⟩
    · rintro ⟨⟨name, v⟩, rest, ⟨htext, hname, hv⟩, hrest, rfl⟩
      exact ⟨name, v, rest, rfl, htext, hname, hv, ih.2 hrest⟩

theorem isText_chars (s : String) : IsText (chars s) := by
  intro c hc
  obtain ⟨a, -, rfl⟩ := List.mem_map.1 hc
  rcases a.valid with h | h
  · exact .inl h
  · exact .inr h

theorem encode_inj_of_isText {s t : Str} (hs : IsText s) (ht : IsText t) (h : Utf8.encode s = Utf8.encode t) : s = t := by
  have hlt : ∀ {s : Str}, IsText s → ∀ c ∈ s, c < 0x110000 := by
    intro s hs c hc
    rcases hs c hc with h | h <;> omega
  exact Utf8.encode_inj (hlt hs) (hlt ht) h

/-- A native value is read in one way only. -/
theorem loads_unique {j : Json} {v w : PyVal} (hv : Loads floatOf j v) (hw : Loads floatOf j w) : v = w := by
  induction j using Json.induction generalizing v w with
  | string s =>
    obtain ⟨t, rfl, ht, hs⟩ := hv
    obtain ⟨t', rfl, ht', hs'⟩ := hw
    rw [encode_inj_of_isText ht ht' (hs.symm.trans hs')]
  | array items ih =>
    obtain ⟨vs, rfl, hvs⟩ := hv
    obtain ⟨ws, rfl, hws⟩ := hw
    rw [loadsItems_iff] at hvs hws
    have hsame : ∀ (items : List Json) (vs ws : List PyVal), List.Forall₂ (Loads floatOf) items vs →
        List.Forall₂ (Loads floatOf) items ws →
        (∀ j ∈ items, ∀ v w, Loads floatOf j v → Loads floatOf j w → v = w) → vs = ws := by
      intro items vs ws hvs hws hall
      induction hvs generalizing ws with
      | nil =>
        cases hws
        rfl
      | cons hv _ ih =>
        obtain ⟨hj, hrest⟩ := List.forall_mem_cons.1 hall
        cases hws with
        | cons hw hws => rw [hj _ _ hv hw, ih _ hws hrest]
    rw [hsame items vs ws hvs hws fun j hj v w => ih j hj]
  | object members ih =>
    obtain ⟨qs, rfl, hqs⟩ := hv
    obtain ⟨rs, rfl, hrs⟩ := hw
    rw [loadsMembers_iff] at hqs hrs
    have hsame : ∀ (members : List (Bytes × Json)) (qs rs : List (Str × PyVal)),
        List.Forall₂ (LoadsMember floatOf) members qs → List.Forall₂ (LoadsMember floatOf) members rs →
        (∀ p ∈ members, ∀ v w, Loads floatOf p.2 v → Loads floatOf p.2 w → v = w) → qs = rs := by
      intro members qs rs hqs hrs hall
      induction hqs generalizing rs with
      | nil =>
        cases hrs
        rfl
      | cons hq _ ih =>
        obtain ⟨hp, hrest⟩ := List.forall_mem_cons.1 hall
        cases hrs with
        | cons hr hrs =>
          obtain ⟨htext, hname, hvalue⟩ := hq
          obtain ⟨htext', hname', hvalue'⟩ := hr
          rw [ih _ hrs hrest, Prod.ext (encode_inj_of_isText htext htext' (hname.symm.trans hname'))
            (hp _ _ hvalue hvalue')]
    rw [hsame members qs rs hqs hrs fun p hp v w => ih p hp]
  | _ => exact Eq.trans hv (Eq.symm hw)

theorem lookup_loads {members : List (Bytes × Json)} {qs : List (Str × PyVal)}
    (h : List.Forall₂ (LoadsMember floatOf) members qs) (key : String) :
    Option.Rel (Loads floatOf) (members.lookup (bytes key)) (qs.lookup (chars key)) := by
  induction h with
  | nil => exact .none
  | @cons p q members qs hpq _ ih =>
    obtain ⟨htext, hname, hvalue⟩ := hpq
    have hsame : (bytes key == p.1) = (chars key == q.1) := by
      rw [Bool.eq_iff_iff, beq_iff_eq, beq_iff_eq, hname]
      constructor
      · intro h
        exact encode_inj_of_isText (isText_chars key) htext h
      · intro h
        rw [← h]
        rfl
    rw [List.lookup_cons, List.lookup_cons, hsame]
    cases chars key == q.1 with
    | true => exact .some hvalue
    | false => exact ih

/-- A keyword of a schema and what is read of it. -/
theorem get?_loads {j : Json} {v : PyVal} (h : Loads floatOf j v) (key : String) :
    Option.Rel (Loads floatOf) (j.find? key) (v.get? key) := by
  cases j with
  | object members =>
    obtain ⟨qs, rfl, hqs⟩ := h
    exact lookup_loads (loadsMembers_iff.1 hqs) key
  | array items =>
    obtain ⟨vs, rfl, -⟩ := h
    exact .none
  | string s =>
    obtain ⟨t, rfl, -⟩ := h
    exact .none
  | numberFloat text =>
    have hget : v.get? key = none := by
      rw [show v = (floatOf text).elim .none .float from h]
      cases floatOf text <;> rfl
    rw [hget]
    exact .none
  | _ =>
    have hget : v.get? key = none := by
      cases h
      rfl
    rw [hget]
    exact .none

end

end NativeMcp.Agent
