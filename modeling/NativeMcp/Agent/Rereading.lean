import Mathlib.Data.List.Perm.Basic
import NativeMcp.Agent.SchemaParts
import NativeMcp.Lib.Registry

/-!
# A value that is written and read again

`json.dumps(…, sort_keys=True)` writes the members of a dictionary in the order of their keys.  What `json.loads` makes
of the text (`PyVal.reread`) has the same values under the same keys (`get?_reread`), and `_json_value` checks each of
its parts (`jsonValue_dict_iff`).
-/

namespace NativeMcp.Agent

open Registry (lookup_eq_some_iff lookup_eq_none_iff)

/-! ### The order of the members -/

theorem insertItem_perm {α : Type} (item : Str × α) (l : List (Str × α)) : (insertItem item l).Perm (item :: l) := by
  induction l with
  | nil => exact List.Perm.refl _
  | cons p l ih =>
    unfold insertItem
    split
    · exact List.Perm.refl _
    · exact (ih.cons p).trans (List.Perm.swap item p l)

theorem sortItems_perm {α : Type} (l : List (Str × α)) : (sortItems l).Perm l := by
  induction l with
  | nil => exact List.Perm.refl _
  | cons p l ih => exact (insertItem_perm p (sortItems l)).trans (ih.cons p)

theorem strLess_iff : ∀ {k k' : Str}, strLess k k' = true ↔ k < k'
  | [], [] => by simp [strLess]
  | [], _ :: _ => by simp [strLess]
  | _ :: _, [] => by simp [strLess]
  | a :: l, b :: l' => by
    rw [strLess, List.cons_lt_cons_iff, ← @strLess_iff l l']
    simp

/-- The keys are increasing. -/
def Increasing {α : Type} (l : List (Str × α)) : Prop := l.Pairwise fun p q => p.1 < q.1

theorem insertItem_increasing {α : Type} {item : Str × α} {l : List (Str × α)} (h : Increasing l)
    (hne : ∀ p ∈ l, item.1 ≠ p.1) : Increasing (insertItem item l) := by
  induction l with
  | nil => exact List.pairwise_singleton _ _
  | cons p l ih =>
    obtain ⟨hp, hl⟩ := List.pairwise_cons.1 h
    obtain ⟨hitem, hnew⟩ := List.forall_mem_cons.1 hne
    unfold insertItem
    by_cases hless : strLess item.1 p.1 = true
    · rw [if_pos hless]
      have hlt : item.1 < p.1 := strLess_iff.1 hless
      refine List.pairwise_cons.2 ⟨?_, h⟩
      intro q hq
      rcases List.mem_cons.1 hq with rfl | hq
      · exact hlt
      · exact List.lt_trans hlt (hp q hq)
    · rw [if_neg hless]
      have hlt : p.1 < item.1 := by
        rcases Std.lt_trichotomy item.1 p.1 with hlt | heq | hgt
        · exact absurd (strLess_iff.2 hlt) hless
        · exact absurd heq hitem
        · exact hgt
      refine List.pairwise_cons.2 ⟨?_, ih hl hnew⟩
      intro q hq
      rcases List.mem_cons.1 ((insertItem_perm item l).mem_iff.1 hq) with rfl | hq
      · exact hlt
      · exact hp q hq

theorem sortItems_increasing {α : Type} {l : List (Str × α)} (h : (l.map Prod.fst).Nodup) :
    Increasing (sortItems l) := by
  induction l with
  | nil => exact List.Pairwise.nil
  | cons p l ih =>
    rw [List.map_cons, List.nodup_cons] at h
    obtain ⟨hnew, hkeys⟩ := h
    apply insertItem_increasing (ih hkeys)
    intro q hq heq
    apply hnew
    rw [heq]
    exact List.mem_map_of_mem ((sortItems_perm l).mem_iff.1 hq)

/-- Members in the order of their keys stay where they are. -/
theorem sortItems_of_increasing {α : Type} {l : List (Str × α)} (h : Increasing l) : sortItems l = l := by
  induction l with
  | nil => rfl
  | cons p l ih =>
    obtain ⟨hp, hl⟩ := List.pairwise_cons.1 h
    have hcons : sortItems (p :: l) = insertItem p (sortItems l) := rfl
    rw [hcons, ih hl]
    cases l with
    | nil => rfl
    | cons q l =>
      have hless : strLess p.1 q.1 = true := strLess_iff.2 (hp q List.mem_cons_self)
      rw [insertItem, if_pos hless]

private theorem insertItem_map {α β : Type} (f : α → β) (item : Str × α) (l : List (Str × α)) :
    insertItem (item.1, f item.2) (l.map fun p => (p.1, f p.2)) = (insertItem item l).map fun p => (p.1, f p.2) := by
  induction l with
  | nil => rfl
  | cons p l ih =>
    rw [List.map_cons, insertItem, insertItem]
    split
    · rfl
    · rw [ih, List.map_cons]

/-- The order does not depend on the values. -/
theorem sortItems_map {α β : Type} (f : α → β) (l : List (Str × α)) :
    sortItems (l.map fun p => (p.1, f p.2)) = (sortItems l).map fun p => (p.1, f p.2) := by
  induction l with
  | nil => rfl
  | cons p l ih =>
    have hcons : sortItems ((p :: l).map fun p => (p.1, f p.2)) =
        insertItem (p.1, f p.2) (sortItems (l.map fun p => (p.1, f p.2))) := rfl
    rw [hcons, ih, insertItem_map]
    rfl

theorem lookup_perm {α : Type} {l l' : List (Str × α)} (h : l.Perm l') (hnodup : (l.map Prod.fst).Nodup) (key : Str) :
    l.lookup key = l'.lookup key := by
  have hnodup' : (l'.map Prod.fst).Nodup := (h.map Prod.fst).nodup_iff.1 hnodup
  cases hv : l'.lookup key with
  | none =>
    rw [lookup_eq_none_iff] at hv ⊢
    intro v hmem
    exact hv v (h.mem_iff.1 hmem)
  | some v =>
    rw [lookup_eq_some_iff hnodup'] at hv
    rw [lookup_eq_some_iff hnodup]
    exact h.mem_iff.2 hv

/-! ### What is read of a text that was written -/

mutual

/-- What `json.loads` makes of the text that `_canon` writes. -/
def PyVal.reread : PyVal → PyVal
  | .list items => .list (PyVal.rereadItems items)
  | .tuple items => .list (PyVal.rereadItems items)
  | .dict _ members => .dict false (sortItems (PyVal.rereadMembers members))
  | v => v

def PyVal.rereadItems : List PyVal → List PyVal
  | [] => []
  | v :: l => v.reread :: PyVal.rereadItems l

def PyVal.rereadMembers : List (Str × PyVal) → List (Str × PyVal)
  | [] => []
  | p :: l => (p.1, p.2.reread) :: PyVal.rereadMembers l

end

theorem rereadItems_eq (items : List PyVal) : PyVal.rereadItems items = items.map PyVal.reread := by
  induction items with
  | nil => rfl
  | cons v items ih => rw [PyVal.rereadItems, ih, List.map_cons]

theorem rereadMembers_eq (members : List (Str × PyVal)) :
    PyVal.rereadMembers members = members.map fun p => (p.1, p.2.reread) := by
  induction members with
  | nil => rfl
  | cons p members ih => rw [PyVal.rereadMembers, ih, List.map_cons]

theorem rereadMembers_perm (members : List (Str × PyVal)) :
    (sortItems (PyVal.rereadMembers members)).Perm (members.map fun p => (p.1, p.2.reread)) := by
  rw [← rereadMembers_eq]
  exact sortItems_perm _

theorem get?_reread {frozen : Bool} {members : List (Str × PyVal)} (h : (members.map Prod.fst).Nodup) (key : String) :
    (PyVal.dict frozen members).reread.get? key = ((PyVal.dict frozen members).get? key).map PyVal.reread := by
  have hnodup : ((members.map fun p => (p.1, p.2.reread)).map Prod.fst).Nodup := by
    rw [List.map_map]
    exact h
  have hlookup : ∀ l : List (Str × PyVal),
      (l.map fun p => (p.1, p.2.reread)).lookup (chars key) = (l.lookup (chars key)).map PyVal.reread := by
    intro l
    induction l with
    | nil => rfl
    | cons p l ih =>
      rw [List.map_cons, List.lookup_cons, List.lookup_cons, ih]
      cases chars key == p.1 <;> rfl
  show (sortItems (PyVal.rereadMembers members)).lookup (chars key) = _
  rw [← lookup_perm (rereadMembers_perm members).symm hnodup]
  exact hlookup members

/-! ### `_json_value` -/

/-- A string is encodable and within its limit. -/
def fitsString (limits : Limits) (s : Str) : Bool :=
  (encodedSize s).any (· ≤ max limits.messageBytes (max limits.toolArgumentBytes limits.toolDefinitionBytes))

section

variable {limits : Limits}

theorem checkString_eq_ok_iff {s : Str} : checkString limits none s = .ok () ↔ fitsString limits s = true := by
  unfold checkString fitsString
  cases encodedSize s with
  | none => exact ⟨fun h => (by cases h), fun h => (by cases h)⟩
  | some size => exact require_eq_ok_iff

theorem jsonItems_eq_ok_iff {depth : Nat} {items : List PyVal} :
    jsonItems limits none depth items = .ok () ↔ ∀ v ∈ items, jsonValue limits none depth v = .ok () := by
  induction items with
  | nil => simp [jsonItems]
  | cons v items ih => rw [jsonItems, bind_eq_ok_iff, ih, List.forall_mem_cons]

theorem jsonMembers_eq_ok_iff {depth : Nat} {members : List (Str × PyVal)} :
    jsonMembers limits none depth members = .ok () ↔
      ∀ p ∈ members, p.1 ≠ [] ∧ jsonValue limits none depth p.2 = .ok () := by
  induction members with
  | nil => simp [jsonMembers]
  | cons p members ih =>
    obtain ⟨name, v⟩ := p
    rw [jsonMembers, bind_eq_ok_iff, bind_eq_ok_iff, require_eq_ok_iff, decide_eq_true_iff, ih, List.forall_mem_cons,
      and_assoc]

theorem jsonValue_str_iff {depth : Nat} {s : Str} :
    jsonValue limits none depth (.str s) = .ok () ↔ depth ≤ limits.jsonNestingDepth ∧ fitsString limits s = true := by
  rw [jsonValue, bind_eq_ok_iff, require_eq_ok_iff, decide_eq_true_iff, checkString_eq_ok_iff]

theorem jsonValue_list_iff {depth : Nat} {items : List PyVal} :
    jsonValue limits none depth (.list items) = .ok () ↔ depth ≤ limits.jsonNestingDepth ∧
      items.length ≤ limits.objectArrayItems ∧ ∀ v ∈ items, jsonValue limits none (depth + 1) v = .ok () := by
  rw [jsonValue, bind_eq_ok_iff, bind_eq_ok_iff, require_eq_ok_iff, require_eq_ok_iff, decide_eq_true_iff,
    decide_eq_true_iff, jsonItems_eq_ok_iff]

theorem jsonValue_dict_iff {depth : Nat} {frozen : Bool} {members : List (Str × PyVal)} :
    jsonValue limits none depth (.dict frozen members) = .ok () ↔ depth ≤ limits.jsonNestingDepth ∧
      members.length ≤ limits.objectArrayItems ∧
      ∀ p ∈ members, p.1 ≠ [] ∧ jsonValue limits none (depth + 1) p.2 = .ok () := by
  rw [jsonValue, bind_eq_ok_iff, bind_eq_ok_iff, require_eq_ok_iff, require_eq_ok_iff, decide_eq_true_iff,
    decide_eq_true_iff, jsonMembers_eq_ok_iff]

/-- The value that is read again is checked like the one that was written. -/
theorem jsonValue_reread_dict_iff {depth : Nat} {frozen : Bool} {members : List (Str × PyVal)} :
    jsonValue limits none depth (PyVal.dict frozen members).reread = .ok () ↔ depth ≤ limits.jsonNestingDepth ∧
      members.length ≤ limits.objectArrayItems ∧
      ∀ p ∈ members, p.1 ≠ [] ∧ jsonValue limits none (depth + 1) p.2.reread = .ok () := by
  have hperm := rereadMembers_perm members
  rw [PyVal.reread, jsonValue_dict_iff, hperm.length_eq, List.length_map]
  refine and_congr_right fun _ => and_congr_right fun _ => ?_
  constructor
  · intro h p hp
    exact h (p.1, p.2.reread) (hperm.mem_iff.2 (List.mem_map_of_mem hp))
  · intro h p hp
    obtain ⟨q, hq, rfl⟩ := List.mem_map.1 (hperm.mem_iff.1 hp)
    exact h q hq

end

end NativeMcp.Agent
