import NativeMcp.Agent.Normalization

/-!
# Trees of Python values

`_freeze_json` and `_json_value` are given values that do not come from JSON: mappings that are no dictionaries, keys
that are no strings.  On all of them the two make one decision, and what `_freeze_json` returns cannot be changed and
is its own image.  It is written as the input is written, whenever `json.dumps` writes the input at all: it raises
on a mapping that is no dictionary.
-/

namespace NativeMcp.Agent

inductive MappingKind where
  | dict
  | frozenDict
  | mapping
  deriving DecidableEq, Repr

/-- A tree of Python values; a key of a mapping that is no string is `none`, and `other` is a value of any other type. -/
inductive PyTree where
  | none
  | bool (b : Bool)
  | int (i : Int)
  | float (f : PyFloat)
  | str (s : Str)
  | list (items : List PyTree)
  | tuple (items : List PyTree)
  | mapping (kind : MappingKind) (items : List (Option Str × PyTree))
  | other

/-- `string_bytes` as `_json_string_limit` reads it: anything but `None` and a positive integer is invalid. -/
def boundOf : PyVal → Option Nat
  | .none => none
  | .int i => some i.toNat
  | _ => some 0

/-- `isinstance(key, str) and key` -/
def isNonemptyText : Option Str → Bool
  | some key => key ≠ []
  | none => false

namespace PyTree

/-! ### The two functions -/

mutual

/-- `_freeze_json` -/
def freezeJson (limits : Limits) (stringBytes : Option Nat) (depth : Nat) (v : PyTree) : Except Raised PyTree := do
  require (depth ≤ limits.jsonNestingDepth) .localValidationFailure
  match v with
  | .mapping _ items => do
    require (items.length ≤ limits.objectArrayItems) .localValidationFailure
    let result ← freezeMembers limits stringBytes (depth + 1) items
    return .mapping .frozenDict result
  | .list items => do
    require (items.length ≤ limits.objectArrayItems) .localValidationFailure
    let result ← freezeItems limits stringBytes (depth + 1) items
    return .tuple result
  | .tuple items => do
    require (items.length ≤ limits.objectArrayItems) .localValidationFailure
    let result ← freezeItems limits stringBytes (depth + 1) items
    return .tuple result
  | .str s => do
    checkString limits stringBytes s
    return .str s
  | .bool b => return .bool b
  | .none => return .none
  | .int i => return .int i
  | .float f => do
    require (isFinite f) .localValidationFailure
    return .float f
  | .other => .error (.provider .localValidationFailure)

def freezeItems (limits : Limits) (stringBytes : Option Nat) (depth : Nat) : List PyTree → Except Raised (List PyTree)
  | [] => return []
  | child :: rest => do
    let frozen ← freezeJson limits stringBytes depth child
    let result ← freezeItems limits stringBytes depth rest
    return frozen :: result

def freezeMembers (limits : Limits) (stringBytes : Option Nat) (depth : Nat) :
    List (Option Str × PyTree) → Except Raised (List (Option Str × PyTree))
  | [] => return []
  | (key, child) :: rest => do
    require (isNonemptyText key) .localValidationFailure
    let frozen ← freezeJson limits stringBytes depth child
    let result ← freezeMembers limits stringBytes depth rest
    return (key, frozen) :: result

end

mutual

/-- `_json_value` -/
def jsonValue (limits : Limits) (stringBytes : Option Nat) (depth : Nat) (v : PyTree) : Except Raised Unit := do
  require (depth ≤ limits.jsonNestingDepth) .localValidationFailure
  match v with
  | .mapping _ items => do
    require (items.length ≤ limits.objectArrayItems) .localValidationFailure
    jsonMembers limits stringBytes (depth + 1) items
  | .list items => do
    require (items.length ≤ limits.objectArrayItems) .localValidationFailure
    jsonItems limits stringBytes (depth + 1) items
  | .tuple items => do
    require (items.length ≤ limits.objectArrayItems) .localValidationFailure
    jsonItems limits stringBytes (depth + 1) items
  | .str s => checkString limits stringBytes s
  | .float f => require (isFinite f) .localValidationFailure
  | .none | .bool _ | .int _ => return ()
  | .other => .error (.provider .localValidationFailure)

def jsonItems (limits : Limits) (stringBytes : Option Nat) (depth : Nat) : List PyTree → Except Raised Unit
  | [] => return ()
  | child :: rest => do
    jsonValue limits stringBytes depth child
    jsonItems limits stringBytes depth rest

def jsonMembers (limits : Limits) (stringBytes : Option Nat) (depth : Nat) :
    List (Option Str × PyTree) → Except Raised Unit
  | [] => return ()
  | (key, child) :: rest => do
    require (isNonemptyText key) .localValidationFailure
    jsonValue limits stringBytes depth child
    jsonMembers limits stringBytes depth rest

end

/-! ### Immutable trees and serialization -/

mutual

/-- Nothing in the tree can be changed, and nothing in it is foreign to JSON. -/
def isImmutable : PyTree → Bool
  | .mapping kind items => kind == .frozenDict && areImmutableMembers items
  | .tuple items => areImmutableItems items
  | .list _ | .other => false
  | _ => true

def areImmutableItems : List PyTree → Bool
  | [] => true
  | v :: l => v.isImmutable && areImmutableItems l

def areImmutableMembers : List (Option Str × PyTree) → Bool
  | [] => true
  | p :: l => p.1.isSome && p.2.isImmutable && areImmutableMembers l

end

mutual

/-- `json.dumps` writes the tree: it raises on a mapping that is no dictionary and on a value of another type.  What it
makes of keys that are no strings, which both functions refuse, is left out. -/
def isDumpable : PyTree → Bool
  | .mapping kind items => kind != .mapping && areDumpableMembers items
  | .list items | .tuple items => areDumpableItems items
  | .other => false
  | _ => true

def areDumpableItems : List PyTree → Bool
  | [] => true
  | v :: l => v.isDumpable && areDumpableItems l

def areDumpableMembers : List (Option Str × PyTree) → Bool
  | [] => true
  | p :: l => p.1.isSome && p.2.isDumpable && areDumpableMembers l

end

mutual

/-- The value with each mapping as a dictionary; a key that is no string becomes the empty one. -/
def plain : PyTree → PyVal
  | .none => .none
  | .bool b => .bool b
  | .int i => .int i
  | .float f => .float f
  | .str s => .str s
  | .list items => .list (plainItems items)
  | .tuple items => .tuple (plainItems items)
  | .mapping kind items => .dict (kind == .frozenDict) (plainMembers items)
  | .other => .other

def plainItems : List PyTree → List PyVal
  | [] => []
  | v :: l => v.plain :: plainItems l

def plainMembers : List (Option Str × PyTree) → List (Str × PyVal)
  | [] => []
  | p :: l => (p.1.getD [], p.2.plain) :: plainMembers l

end

/-- `_canon` -/
def canon (L : Library) (v : PyTree) : Except Raised Bytes :=
  if v.isDumpable then Agent.canon L v.plain else .error .other

end PyTree

mutual

/-- A value as a tree. -/
def PyVal.tree : PyVal → PyTree
  | .none => .none
  | .bool b => .bool b
  | .int i => .int i
  | .float f => .float f
  | .str s => .str s
  | .list items => .list (PyVal.treeItems items)
  | .tuple items => .tuple (PyVal.treeItems items)
  | .dict frozen members => .mapping (if frozen then .frozenDict else .dict) (PyVal.treeMembers members)
  | .other => .other

def PyVal.treeItems : List PyVal → List PyTree
  | [] => []
  | v :: l => v.tree :: PyVal.treeItems l

def PyVal.treeMembers : List (Str × PyVal) → List (Option Str × PyTree)
  | [] => []
  | p :: l => (some p.1, p.2.tree) :: PyVal.treeMembers l

end

/-! ### Values as trees -/

theorem PyVal.plain_tree (v : PyVal) : v.tree.plain = v := by
  have hitems : ∀ items : List PyVal, (∀ v ∈ items, v.tree.plain = v) →
      PyTree.plainItems (PyVal.treeItems items) = items := by
    intro items h
    induction items with
    | nil => rfl
    | cons v items ih =>
      obtain ⟨hv, hrest⟩ := List.forall_mem_cons.1 h
      rw [PyVal.treeItems, PyTree.plainItems, hv, ih hrest]
  induction v using PyVal.induction with
  | list items ih => rw [PyVal.tree, PyTree.plain, hitems items ih]
  | tuple items ih => rw [PyVal.tree, PyTree.plain, hitems items ih]
  | dict frozen members ih =>
    have hmembers : ∀ l : List (Str × PyVal), (∀ p ∈ l, p.2.tree.plain = p.2) →
        PyTree.plainMembers (PyVal.treeMembers l) = l := by
      intro l h
      induction l with
      | nil => rfl
      | cons p l ihl =>
        obtain ⟨hp, hrest⟩ := List.forall_mem_cons.1 h
        rw [PyVal.treeMembers, PyTree.plainMembers, hp, ihl hrest]
        rfl
    rw [PyVal.tree, PyTree.plain, hmembers members ih]
    cases frozen <;> rfl
  | _ => rfl

namespace PyTree

/-- Trees by induction on their containers. -/
theorem induction {motive : PyTree → Prop} (none : motive .none) (bool : ∀ b, motive (.bool b))
    (int : ∀ i, motive (.int i)) (float : ∀ f, motive (.float f)) (str : ∀ s, motive (.str s))
    (list : ∀ items, (∀ v ∈ items, motive v) → motive (.list items))
    (tuple : ∀ items, (∀ v ∈ items, motive v) → motive (.tuple items))
    (mapping : ∀ kind items, (∀ p ∈ items, motive p.2) → motive (.mapping kind items)) (other : motive .other) :
    ∀ v, motive v := by
  refine @PyTree.rec motive (fun items => ∀ v ∈ items, motive v) (fun items => ∀ p ∈ items, motive p.2)
    (fun p => motive p.2) none bool int float str list tuple mapping other ?_ ?_ ?_ ?_ ?_
  · intro v hv
    cases hv
  · intro v items hv hitems
    exact List.forall_mem_cons.2 ⟨hv, hitems⟩
  · intro p hp
    cases hp
  · intro p items hp hitems
    exact List.forall_mem_cons.2 ⟨hp, hitems⟩
  · intro key v hv
    exact hv

variable {limits : Limits} {stringBytes : Option Nat}

/-- Two guards, the children, and the container around them. -/
private theorem guarded_map {α α' β β' : Type} {depth count : Except Raised Unit} {x : Except Raised α} {f : α → α'}
    {g : α' → β'} {g' : α → β} {h : β → β'} (hg : ∀ a, g (f a) = h (g' a)) :
    (depth >>= fun _ => count >>= fun _ => x.map f >>= fun a => pure (g a)) =
      (depth >>= fun _ => count >>= fun _ => x >>= fun a => pure (g' a)).map h := by
  cases depth with
  | error e => rfl
  | ok _ =>
    cases count with
    | error e => rfl
    | ok _ =>
      cases x with
      | error e => rfl
      | ok a => exact congrArg Except.ok (hg a)

private theorem length_plainItems (items : List PyTree) : (plainItems items).length = items.length := by
  induction items with
  | nil => rfl
  | cons v items ih => rw [plainItems, List.length_cons, ih, List.length_cons]

private theorem length_plainMembers (items : List (Option Str × PyTree)) : (plainMembers items).length = items.length := by
  induction items with
  | nil => rfl
  | cons p items ih => rw [plainMembers, List.length_cons, ih, List.length_cons]

/-- What `_freeze_json` does with a tree is what it does with the value. -/
theorem freezeJson_eq (v : PyTree) (depth : Nat) :
    freezeJson limits stringBytes depth v = (Agent.freezeJson limits stringBytes depth v.plain).map PyVal.tree := by
  have hitems : ∀ (items : List PyTree) (depth : Nat), (∀ v ∈ items, ∀ depth,
      freezeJson limits stringBytes depth v = (Agent.freezeJson limits stringBytes depth v.plain).map PyVal.tree) →
      freezeItems limits stringBytes depth items =
        (Agent.freezeItems limits stringBytes depth (plainItems items)).map PyVal.treeItems := by
    intro items depth h
    induction items with
    | nil => rfl
    | cons v items ih =>
      obtain ⟨hv, hrest⟩ := List.forall_mem_cons.1 h
      rw [freezeItems, plainItems, Agent.freezeItems, hv, ih hrest]
      cases Agent.freezeJson limits stringBytes depth v.plain with
      | error e => rfl
      | ok w => cases Agent.freezeItems limits stringBytes depth (plainItems items) <;> rfl
  have hmembers : ∀ (items : List (Option Str × PyTree)) (depth : Nat), (∀ p ∈ items, ∀ depth,
      freezeJson limits stringBytes depth p.2 = (Agent.freezeJson limits stringBytes depth p.2.plain).map PyVal.tree) →
      freezeMembers limits stringBytes depth items =
        (Agent.freezeMembers limits stringBytes depth (plainMembers items)).map PyVal.treeMembers := by
    intro items depth h
    induction items with
    | nil => rfl
    | cons p items ih =>
      obtain ⟨hp, hrest⟩ := List.forall_mem_cons.1 h
      obtain ⟨key, child⟩ := p
      rw [freezeMembers, plainMembers, Agent.freezeMembers, hp, ih hrest]
      cases key with
      | none => rfl
      | some key =>
        cases key with
        | nil => rfl
        | cons c key =>
          dsimp only
          cases Agent.freezeJson limits stringBytes depth child.plain with
          | error e => rfl
          | ok w => cases Agent.freezeMembers limits stringBytes depth (plainMembers items) <;> rfl
  induction v using PyTree.induction generalizing depth with
  | list items ih =>
    rw [freezeJson, plain, Agent.freezeJson, length_plainItems, hitems items _ ih]
    exact guarded_map fun frozen => rfl
  | tuple items ih =>
    rw [freezeJson, plain, Agent.freezeJson, length_plainItems, hitems items _ ih]
    exact guarded_map fun frozen => rfl
  | mapping kind items ih =>
    rw [freezeJson, plain, Agent.freezeJson, length_plainMembers, hmembers items _ ih]
    exact guarded_map fun frozen => rfl
  | str s =>
    rw [freezeJson, plain, Agent.freezeJson]
    cases require (depth ≤ limits.jsonNestingDepth) .localValidationFailure with
    | error e => rfl
    | ok _ => cases checkString limits stringBytes s <;> rfl
  | float f =>
    rw [freezeJson, plain, Agent.freezeJson]
    cases require (depth ≤ limits.jsonNestingDepth) .localValidationFailure with
    | error e => rfl
    | ok _ => cases require (isFinite f) .localValidationFailure <;> rfl
  | other =>
    rw [freezeJson, plain, Agent.freezeJson]
    -- the depth is checked first, and its refusal is of the same class
    unfold require
    by_cases hdepth : decide (depth ≤ limits.jsonNestingDepth) = true
    · rw [if_pos hdepth]
      rfl
    · rw [if_neg hdepth]
      rfl
  | _ =>
    rw [freezeJson, plain, Agent.freezeJson]
    · cases require (depth ≤ limits.jsonNestingDepth) .localValidationFailure <;> rfl
    all_goals intros; contradiction

/-- What `_json_value` does with a tree is what it does with the value. -/
theorem jsonValue_eq (v : PyTree) (depth : Nat) :
    jsonValue limits stringBytes depth v = Agent.jsonValue limits stringBytes depth v.plain := by
  have hitems : ∀ (items : List PyTree) (depth : Nat), (∀ v ∈ items, ∀ depth,
      jsonValue limits stringBytes depth v = Agent.jsonValue limits stringBytes depth v.plain) →
      jsonItems limits stringBytes depth items = Agent.jsonItems limits stringBytes depth (plainItems items) := by
    intro items depth h
    induction items with
    | nil => rfl
    | cons v items ih =>
      obtain ⟨hv, hrest⟩ := List.forall_mem_cons.1 h
      rw [jsonItems, plainItems, Agent.jsonItems, hv, ih hrest]
  have hmembers : ∀ (items : List (Option Str × PyTree)) (depth : Nat), (∀ p ∈ items, ∀ depth,
      jsonValue limits stringBytes depth p.2 = Agent.jsonValue limits stringBytes depth p.2.plain) →
      jsonMembers limits stringBytes depth items = Agent.jsonMembers limits stringBytes depth (plainMembers items) := by
    intro items depth h
    induction items with
    | nil => rfl
    | cons p items ih =>
      obtain ⟨hp, hrest⟩ := List.forall_mem_cons.1 h
      obtain ⟨key, child⟩ := p
      have hkey : isNonemptyText key = decide (key.getD [] ≠ []) := by
        cases key with
        | none => rfl
        | some key => rfl
      rw [jsonMembers, plainMembers, Agent.jsonMembers, hp, ih hrest, hkey]
  induction v using PyTree.induction generalizing depth with
  | list items ih => rw [jsonValue, plain, Agent.jsonValue, length_plainItems, hitems items _ ih]
  | tuple items ih => rw [jsonValue, plain, Agent.jsonValue, length_plainItems, hitems items _ ih]
  | mapping kind items ih => rw [jsonValue, plain, Agent.jsonValue, length_plainMembers, hmembers items _ ih]
  | other =>
    rw [jsonValue, plain, Agent.jsonValue]
    unfold require
    by_cases hdepth : decide (depth ≤ limits.jsonNestingDepth) = true
    · rw [if_pos hdepth]
      rfl
    · rw [if_neg hdepth]
      rfl
  | str s => rw [jsonValue, plain, Agent.jsonValue]
  | float f => rw [jsonValue, plain, Agent.jsonValue]
  | _ =>
    rw [jsonValue, plain, Agent.jsonValue]
    · cases require (depth ≤ limits.jsonNestingDepth) .localValidationFailure <;> rfl
    all_goals intros; contradiction

/-! ### What is frozen -/

theorem isImmutable_of_freezeJson {v frozen : PyTree} {depth : Nat}
    (h : freezeJson limits stringBytes depth v = .ok frozen) : frozen.isImmutable = true := by
  have hitems : ∀ (items result : List PyTree) (depth : Nat), (∀ v ∈ items, ∀ frozen depth,
      freezeJson limits stringBytes depth v = .ok frozen → frozen.isImmutable = true) →
      freezeItems limits stringBytes depth items = .ok result → areImmutableItems result = true := by
    intro items
    induction items with
    | nil =>
      intro result depth _ h
      cases h
      rfl
    | cons v items ih =>
      intro result depth hall h
      obtain ⟨hv, hrest⟩ := List.forall_mem_cons.1 hall
      rw [freezeItems] at h
      obtain ⟨frozen, hfrozen, h⟩ := ok_of_bind h
      obtain ⟨rest, hfreeze, h⟩ := ok_of_bind h
      cases h
      rw [areImmutableItems, hv _ _ hfrozen, ih _ _ hrest hfreeze]
      rfl
  have hmembers : ∀ (items result : List (Option Str × PyTree)) (depth : Nat), (∀ p ∈ items, ∀ frozen depth,
      freezeJson limits stringBytes depth p.2 = .ok frozen → frozen.isImmutable = true) →
      freezeMembers limits stringBytes depth items = .ok result → areImmutableMembers result = true := by
    intro items
    induction items with
    | nil =>
      intro result depth _ h
      cases h
      rfl
    | cons p items ih =>
      intro result depth hall h
      obtain ⟨hp, hrest⟩ := List.forall_mem_cons.1 hall
      obtain ⟨key, child⟩ := p
      rw [freezeMembers] at h
      obtain ⟨_, hkey, h⟩ := ok_of_bind h
      obtain ⟨frozen, hfrozen, h⟩ := ok_of_bind h
      obtain ⟨rest, hfreeze, h⟩ := ok_of_bind h
      cases h
      have hsome : key.isSome = true := by
        cases key with
        | none => cases require_eq_ok hkey
        | some key => rfl
      rw [areImmutableMembers, hsome, hp _ _ hfrozen, ih _ _ hrest hfreeze]
      rfl
  induction v using PyTree.induction generalizing frozen depth with
  | list items ih | tuple items ih =>
    rw [freezeJson] at h
    obtain ⟨_, -, h⟩ := ok_of_bind h
    obtain ⟨_, -, h⟩ := ok_of_bind h
    obtain ⟨result, hresult, h⟩ := ok_of_bind h
    cases h
    exact hitems items result _ (fun v hv frozen depth => ih v hv) hresult
  | mapping kind items ih =>
    rw [freezeJson] at h
    obtain ⟨_, -, h⟩ := ok_of_bind h
    obtain ⟨_, -, h⟩ := ok_of_bind h
    obtain ⟨result, hresult, h⟩ := ok_of_bind h
    cases h
    exact hmembers items result _ (fun p hp frozen depth => ih p hp) hresult
  | other =>
    rw [freezeJson] at h
    obtain ⟨_, -, h⟩ := ok_of_bind h
    cases h
  | str s | float f =>
    rw [freezeJson] at h
    obtain ⟨_, -, h⟩ := ok_of_bind h
    obtain ⟨_, -, h⟩ := ok_of_bind h
    cases h
    rfl
  | _ =>
    rw [freezeJson] at h
    obtain ⟨_, -, h⟩ := ok_of_bind h
    cases h
    rfl

theorem isDumpable_of_isImmutable {v : PyTree} (h : v.isImmutable = true) : v.isDumpable = true := by
  induction v using PyTree.induction with
  | tuple items ih =>
    have hitems : ∀ l : List PyTree, (∀ v ∈ l, v.isImmutable = true → v.isDumpable = true) →
        areImmutableItems l = true → areDumpableItems l = true := by
      intro l
      induction l with
      | nil => exact fun _ _ => rfl
      | cons v l ihl =>
        intro hl himmutable
        obtain ⟨hv, hrest⟩ := List.forall_mem_cons.1 hl
        obtain ⟨hfirst, hothers⟩ := Bool.and_eq_true_iff.1 himmutable
        rw [areDumpableItems, hv hfirst, ihl hrest hothers]
        rfl
    exact hitems items ih h
  | mapping kind items ih =>
    have hitems : ∀ l : List (Option Str × PyTree), (∀ p ∈ l, p.2.isImmutable = true → p.2.isDumpable = true) →
        areImmutableMembers l = true → areDumpableMembers l = true := by
      intro l
      induction l with
      | nil => exact fun _ _ => rfl
      | cons p l ihl =>
        intro hl himmutable
        obtain ⟨hp, hrest⟩ := List.forall_mem_cons.1 hl
        obtain ⟨hfirst, hothers⟩ := Bool.and_eq_true_iff.1 himmutable
        obtain ⟨hkey, hchild⟩ := Bool.and_eq_true_iff.1 hfirst
        rw [areDumpableMembers, hkey, hp hchild, ihl hrest hothers]
        rfl
    obtain ⟨hkind, hmembers⟩ := Bool.and_eq_true_iff.1 h
    rw [isDumpable, beq_iff_eq.1 hkind, hitems items ih hmembers]
    rfl
  | list items ih => cases h
  | other => cases h
  | _ => rfl

end PyTree

variable {limits : Limits} {stringBytes : Option Nat}

private theorem guarded_forget {α β : Type} {depth count : Except Raised Unit} {x : Except Raised α} {g : α → β} :
    (depth >>= fun _ => count >>= fun _ => x.map fun _ => ()) =
      (depth >>= fun _ => count >>= fun _ => x >>= fun a => pure (g a)).map fun _ => () := by
  cases depth with
  | error e => rfl
  | ok _ =>
    cases count with
    | error e => rfl
    | ok _ => cases x <;> rfl

/-- `_json_value` decides as `_freeze_json` does. -/
theorem jsonValue_eq_freezeJson (v : PyVal) (depth : Nat) :
    jsonValue limits stringBytes depth v = (freezeJson limits stringBytes depth v).map fun _ => () := by
  have hitems : ∀ (items : List PyVal) (depth : Nat), (∀ v ∈ items, ∀ depth,
      jsonValue limits stringBytes depth v = (freezeJson limits stringBytes depth v).map fun _ => ()) →
      jsonItems limits stringBytes depth items = (freezeItems limits stringBytes depth items).map fun _ => () := by
    intro items depth h
    induction items with
    | nil => rfl
    | cons v items ih =>
      obtain ⟨hv, hrest⟩ := List.forall_mem_cons.1 h
      rw [jsonItems, freezeItems, hv, ih hrest]
      cases freezeJson limits stringBytes depth v with
      | error e => rfl
      | ok w => cases freezeItems limits stringBytes depth items <;> rfl
  have hmembers : ∀ (members : List (Str × PyVal)) (depth : Nat), (∀ p ∈ members, ∀ depth,
      jsonValue limits stringBytes depth p.2 = (freezeJson limits stringBytes depth p.2).map fun _ => ()) →
      jsonMembers limits stringBytes depth members = (freezeMembers limits stringBytes depth members).map fun _ => () := by
    intro members depth h
    induction members with
    | nil => rfl
    | cons p members ih =>
      obtain ⟨hp, hrest⟩ := List.forall_mem_cons.1 h
      obtain ⟨key, child⟩ := p
      rw [jsonMembers, freezeMembers, hp, ih hrest]
      cases require (key ≠ []) .localValidationFailure with
      | error e => rfl
      | ok _ =>
        cases freezeJson limits stringBytes depth child with
        | error e => rfl
        | ok w => cases freezeMembers limits stringBytes depth members <;> rfl
  induction v using PyVal.induction generalizing depth with
  | list items ih =>
    rw [jsonValue, freezeJson, hitems items _ ih]
    exact guarded_forget
  | tuple items ih =>
    rw [jsonValue, freezeJson, hitems items _ ih]
    exact guarded_forget
  | dict frozen members ih =>
    rw [jsonValue, freezeJson, hmembers members _ ih]
    exact guarded_forget
  | str s =>
    rw [jsonValue, freezeJson]
    cases require (depth ≤ limits.jsonNestingDepth) .localValidationFailure with
    | error e => rfl
    | ok _ => cases checkString limits stringBytes s <;> rfl
  | float f =>
    rw [jsonValue, freezeJson]
    cases require (depth ≤ limits.jsonNestingDepth) .localValidationFailure with
    | error e => rfl
    | ok _ => cases require (isFinite f) .localValidationFailure <;> rfl
  | other => rfl
  | _ =>
    rw [jsonValue, freezeJson]
    · cases require (depth ≤ limits.jsonNestingDepth) .localValidationFailure <;> rfl
    all_goals intros; contradiction

/-- Lists and tuples are written alike, and so are dictionaries of both kinds. -/
theorem canon_frozenOf (L : Library) (v : PyVal) : canon L (frozenOf v) = canon L v := by
  have hitems : ∀ items : List PyVal, (∀ v ∈ items, canon L (frozenOf v) = canon L v) →
      canonItems L (frozenItems items) = canonItems L items := by
    intro items h
    induction items with
    | nil => rfl
    | cons v items ih =>
      obtain ⟨hv, hrest⟩ := List.forall_mem_cons.1 h
      rw [frozenItems, canonItems, canonItems, hv, ih hrest]
  induction v using PyVal.induction with
  | list items ih => rw [frozenOf, canon, canon, hitems items ih]
  | tuple items ih => rw [frozenOf, canon, canon, hitems items ih]
  | dict frozen members ih =>
    have hmembers : ∀ l : List (Str × PyVal), (∀ p ∈ l, canon L (frozenOf p.2) = canon L p.2) →
        canonMembers L (frozenMembers l) = canonMembers L l := by
      intro l h
      induction l with
      | nil => rfl
      | cons p l ihl =>
        obtain ⟨hp, hrest⟩ := List.forall_mem_cons.1 h
        rw [frozenMembers, canonMembers, canonMembers, hp, ihl hrest]
    rw [frozenOf, canon, canon, hmembers members ih]
  | _ => rfl

namespace PyTree

/-- On every tree, under all limits and for every bound on the strings, `_freeze_json` and `_json_value` accept and refuse
alike.  What `_freeze_json` returns cannot be changed; it is written as the input with its mappings read as dictionaries,
and so as the input itself where `json.dumps` writes it; and both functions accept it, `_freeze_json` returning it as it
is. -/
theorem freezeJson_agrees (limits : Limits) (stringBytes : PyVal) (depth : Nat) (v : PyTree) :
    (freezeJson limits (boundOf stringBytes) depth v).map (fun _ => ()) = jsonValue limits (boundOf stringBytes) depth v ∧
    ∀ frozen, freezeJson limits (boundOf stringBytes) depth v = .ok frozen →
      frozen.isImmutable = true ∧
      (∀ L, canon L frozen = Agent.canon L v.plain) ∧
      (∀ L text, canon L v = .ok text → canon L frozen = .ok text) ∧
      freezeJson limits (boundOf stringBytes) depth frozen = .ok frozen ∧
      jsonValue limits (boundOf stringBytes) depth frozen = .ok () := by
  have hagree : ∀ v, jsonValue limits (boundOf stringBytes) depth v =
      (freezeJson limits (boundOf stringBytes) depth v).map fun _ => () := by
    intro v
    rw [jsonValue_eq, jsonValue_eq_freezeJson, freezeJson_eq]
    cases Agent.freezeJson limits (boundOf stringBytes) depth v.plain <;> rfl
  refine ⟨(hagree v).symm, fun frozen h => ?_⟩
  have himmutable := isImmutable_of_freezeJson h
  -- the value behind the tree
  obtain ⟨w, hw, htree⟩ : ∃ w, Agent.freezeJson limits (boundOf stringBytes) depth v.plain = .ok w ∧
      frozen = w.tree := by
    rw [freezeJson_eq] at h
    cases hplain : Agent.freezeJson limits (boundOf stringBytes) depth v.plain with
    | error e =>
      rw [hplain] at h
      cases h
    | ok w =>
      rw [hplain] at h
      exact ⟨w, rfl, (Except.ok.inj h).symm⟩
  have hfrozenOf : frozen.plain = frozenOf v.plain := by
    rw [htree, PyVal.plain_tree]
    exact (freezeJson_spec hw).1
  have hcanon : ∀ L, canon L frozen = Agent.canon L v.plain := by
    intro L
    unfold canon
    rw [if_pos (isDumpable_of_isImmutable himmutable), hfrozenOf, canon_frozenOf]
  have hagain : freezeJson limits (boundOf stringBytes) depth frozen = .ok frozen := by
    rw [freezeJson_eq, hfrozenOf, freezeJson_frozenOf, hw, htree]
    rfl
  refine ⟨himmutable, hcanon, fun L text htext => ?_, hagain, ?_⟩
  · rw [hcanon L]
    unfold canon at htext
    by_cases hdumpable : v.isDumpable = true
    · rwa [if_pos hdumpable] at htext
    · rw [if_neg hdumpable] at htext
      cases htext
  · rw [hagree, hagain]
    rfl

/-- A mapping that is no dictionary, such as a view of one. -/
private def sampleMapping : PyTree := .mapping .mapping [(some (chars "a"), .list [.int 1])]

/-- It is accepted and `json.dumps` writes its frozen copy, but not the mapping itself. -/
theorem mapping_is_not_dumped :
    ¬ ∀ (L : Library) (v frozen : PyTree), freezeJson defaultLimits Option.none 0 v = .ok frozen → canon L frozen = canon L v := by
  intro h
  have L : Library := ⟨fun _ => .error .malformedJson, fun _ => [], id⟩
  have hfreeze : freezeJson defaultLimits Option.none 0 sampleMapping =
      .ok (.mapping .frozenDict [(some (chars "a"), .tuple [.int 1])]) := by rfl
  have hsame := h L _ _ hfreeze
  have hfrozen : canon L (.mapping .frozenDict [(some (chars "a"), .tuple [.int 1])]) = .ok (bytes "\x7b\"a\":[1]\x7d") := by
    rfl
  have hinput : canon L sampleMapping = .error .other := by rfl
  rw [hfrozen, hinput] at hsame
  cases hsame

/-- The frozen copy of the mapping. -/
theorem freezeJson_agrees_sample :
    freezeJson defaultLimits Option.none 0 (.mapping .frozenDict [(some (chars "a"), .tuple [.int 1])]) =
      .ok (.mapping .frozenDict [(some (chars "a"), .tuple [.int 1])]) := by
  have hfreeze : freezeJson defaultLimits (boundOf .none) 0 sampleMapping =
      .ok (.mapping .frozenDict [(some (chars "a"), .tuple [.int 1])]) := by rfl
  exact ((freezeJson_agrees defaultLimits .none 0 sampleMapping).2 _ hfreeze).2.2.2.1

end PyTree

end NativeMcp.Agent
