import Mathlib.Data.List.Nodup
import Mathlib.Logic.Function.Basic

/-!
# Registries

Items `α` move between statuses `β`.  A registry is a structure that holds exactly the items whose status lies in some
set: owners that hold one item each (`Owned`), a queue (`Queued`) or a table indexed by a key (`Indexed`).  A move
within the set or outside it keeps a registry; an item that enters the set must be added to it and one that leaves
the set must be taken out, and each such operation keeps the registry exact.
-/

namespace Registry

open Function (update update_self update_of_ne)

variable {α β ι κ : Type*}

section Status

variable [DecidableEq α] {status : α → β} {Q : β → Prop} {a : α} {x : β}

theorem keep_iff (h : Q x ↔ Q (status a)) (b : α) : Q (update status a x b) ↔ Q (status b) := by
  by_cases e : b = a
  · rw [e, update_self, h]
  · rw [update_of_ne e]

theorem enter_iff (hx : Q x) (b : α) : Q (update status a x b) ↔ b = a ∨ Q (status b) := by
  by_cases e : b = a
  · rw [e, update_self]; simp [hx]
  · rw [update_of_ne e]; simp [e]

theorem leave_iff (hx : ¬ Q x) (b : α) : Q (update status a x b) ↔ b ≠ a ∧ Q (status b) := by
  by_cases e : b = a
  · rw [e, update_self]; simp [hx]
  · rw [update_of_ne e]; simp [e]

end Status

/-! ### Owners -/

section Owned

/-- The items whose status satisfies `Q` have exactly one owner, and owners hold no other items. -/
structure Owned (owner : ι → Option α) (status : α → β) (Q : β → Prop) : Prop where
  mem : ∀ a, Q (status a) ↔ ∃ i, owner i = some a
  unique : ∀ {i j a}, owner i = some a → owner j = some a → i = j

variable {owner : ι → Option α} {status : α → β} {Q : β → Prop} {a : α} {i : ι} {x : β}

theorem Owned.status_of (h : Owned owner status Q) (hi : owner i = some a) : Q (status a) := (h.mem a).2 ⟨i, hi⟩

variable [DecidableEq α]

theorem Owned.keep (h : Owned owner status Q) (hx : Q x ↔ Q (status a)) :
    Owned owner (update status a x) Q where
  mem b := (keep_iff hx b).trans (h.mem b)
  unique := h.unique

variable [DecidableEq ι]

theorem Owned.acquire (h : Owned owner status Q) (hi : owner i = none) (ha : ¬ Q (status a)) (hx : Q x) :
    Owned (update owner i (some a)) (update status a x) Q where
  mem b := by
    rw [enter_iff hx, h.mem b]
    constructor
    · rintro (rfl | ⟨j, hj⟩)
      · exact ⟨i, update_self ..⟩
      · refine ⟨j, ?_⟩
        rw [update_of_ne (fun e => by rw [e, hi] at hj; cases hj), hj]
    · rintro ⟨j, hj⟩
      by_cases e : j = i
      · rw [e, update_self] at hj
        exact .inl (Option.some.inj hj).symm
      · rw [update_of_ne e] at hj
        exact .inr ⟨j, hj⟩
  unique := by
    have fresh {j : ι} : owner j ≠ some a := fun hj => ha (h.status_of hj)
    intro j k b hj hk
    by_cases ej : j = i <;> by_cases ek : k = i
    · rw [ej, ek]
    · rw [ej, update_self] at hj
      rw [update_of_ne ek, ← hj] at hk
      exact absurd hk fresh
    · rw [ek, update_self] at hk
      rw [update_of_ne ej, ← hk] at hj
      exact absurd hj fresh
    · rw [update_of_ne ej] at hj
      rw [update_of_ne ek] at hk
      exact h.unique hj hk

theorem Owned.release (h : Owned owner status Q) (hi : owner i = some a) (hx : ¬ Q x) :
    Owned (update owner i none) (update status a x) Q where
  mem b := by
    rw [leave_iff hx, h.mem b]
    constructor
    · rintro ⟨hb, j, hj⟩
      refine ⟨j, ?_⟩
      rw [update_of_ne (fun e => hb (by rw [e, hi] at hj; exact (Option.some.inj hj).symm)), hj]
    · rintro ⟨j, hj⟩
      by_cases e : j = i
      · rw [e, update_self] at hj; cases hj
      · rw [update_of_ne e] at hj
        exact ⟨fun hb => e (h.unique (hb ▸ hj) hi), j, hj⟩
  unique := by
    intro j k b hj hk
    by_cases ej : j = i
    · rw [ej, update_self] at hj; cases hj
    · by_cases ek : k = i
      · rw [ek, update_self] at hk; cases hk
      · rw [update_of_ne ej] at hj
        rw [update_of_ne ek] at hk
        exact h.unique hj hk

end Owned

/-! ### Queues -/

/-- The queue holds each item whose status satisfies `Q` once, and no other. -/
structure Queued (queue : List α) (status : α → β) (Q : β → Prop) : Prop where
  mem : ∀ a, a ∈ queue ↔ Q (status a)
  nodup : queue.Nodup

section Queued

variable [DecidableEq α] {queue : List α} {status : α → β} {Q : β → Prop} {a : α} {x : β}

theorem Queued.keep (h : Queued queue status Q) (hx : Q x ↔ Q (status a)) :
    Queued queue (update status a x) Q where
  mem b := (h.mem b).trans (keep_iff hx b).symm
  nodup := h.nodup

theorem Queued.push (h : Queued queue status Q) (ha : ¬ Q (status a)) (hx : Q x) :
    Queued (queue ++ [a]) (update status a x) Q where
  mem b := by rw [enter_iff hx, List.mem_append, List.mem_singleton, h.mem b, or_comm]
  nodup := by
    refine h.nodup.append (List.nodup_singleton a) ?_
    rw [List.disjoint_singleton]
    exact fun hm => ha ((h.mem a).1 hm)

theorem Queued.pop {rest : List α} (h : Queued (a :: rest) status Q) (hx : ¬ Q x) :
    Queued rest (update status a x) Q where
  mem b := by
    have hn := (List.nodup_cons.1 h.nodup).1
    rw [leave_iff hx, ← h.mem b, List.mem_cons]
    constructor
    · intro hb
      exact ⟨fun e => hn (e ▸ hb), .inr hb⟩
    · rintro ⟨hb, rfl | hm⟩
      · exact absurd rfl hb
      · exact hm
  nodup := (List.nodup_cons.1 h.nodup).2

end Queued

/-! ### Tables -/

/-- The table holds each item whose status satisfies `Q` under its own key, these keys are distinct, and it holds no
other item. -/
structure Indexed (table : List (κ × α)) (key : α → κ) (status : α → β) (Q : β → Prop) : Prop where
  mem : ∀ k a, (k, a) ∈ table ↔ Q (status a) ∧ k = key a
  nodup : (table.map Prod.fst).Nodup

section Indexed

variable {table : List (κ × α)} {key : α → κ} {status : α → β} {Q : β → Prop} {a b : α} {x : β} {k : κ}

/-- Two items in the table with one key are the same. -/
theorem Indexed.injective (h : Indexed table key status Q) (ha : Q (status a)) (hb : Q (status b))
    (hk : key a = key b) : a = b := by
  have ha : (key a, a) ∈ table := (h.mem _ _).2 ⟨ha, rfl⟩
  have hb : (key a, b) ∈ table := (h.mem _ _).2 ⟨hb, hk⟩
  exact congrArg Prod.snd (List.inj_on_of_nodup_map h.nodup ha hb rfl)

theorem Indexed.nodup_items (h : Indexed table key status Q) : (table.map Prod.snd).Nodup := by
  refine (List.nodup_map_iff_inj_on h.nodup.of_map).2 ?_
  rintro ⟨k, a⟩ ha ⟨k', a'⟩ ha' (rfl : a = a')
  rw [((h.mem _ _).1 ha).2, ((h.mem _ _).1 ha').2]

theorem Indexed.mem_items (h : Indexed table key status Q) : a ∈ table.map Prod.snd ↔ Q (status a) := by
  constructor
  · intro hm
    obtain ⟨⟨k, b⟩, he, rfl : b = a⟩ := List.mem_map.1 hm
    exact ((h.mem k b).1 he).1
  · intro ha
    exact List.mem_map.2 ⟨(key a, a), (h.mem _ _).2 ⟨ha, rfl⟩, rfl⟩

theorem Indexed.keep [DecidableEq α] (h : Indexed table key status Q) (hx : Q x ↔ Q (status a)) :
    Indexed table key (update status a x) Q where
  mem k b := by rw [h.mem k b, keep_iff hx b]
  nodup := h.nodup

/-- The key of an item that is not in the table may change. -/
theorem Indexed.rekey [DecidableEq α] (h : Indexed table key status Q) (ha : ¬ Q (status a)) :
    Indexed table (update key a k) status Q where
  mem k' b := by
    rw [h.mem k' b]
    refine and_congr_right fun hb => ?_
    have hne : b ≠ a := by
      rintro rfl
      exact ha hb
    rw [update_of_ne hne]
  nodup := h.nodup

section Lookup

variable [BEq κ] [LawfulBEq κ]

theorem lookup_eq_none_iff : table.lookup k = none ↔ ∀ a, (k, a) ∉ table := by
  rw [List.lookup_eq_none_iff]
  constructor
  · intro h a ha
    simpa using h _ ha
  · rintro h ⟨k', a⟩ ha
    rw [bne_iff_ne]
    rintro rfl
    exact h a ha

theorem lookup_eq_some_iff (h : (table.map Prod.fst).Nodup) : table.lookup k = some a ↔ (k, a) ∈ table := by
  induction table with
  | nil => simp
  | cons e table ih =>
    obtain ⟨k', b⟩ := e
    rw [List.map_cons, List.nodup_cons] at h
    rw [List.lookup_cons, List.mem_cons]
    split
    · rename_i he
      obtain rfl : k = k' := by simpa using he
      have hn : (k, a) ∉ table := fun hm => h.1 (List.mem_map.2 ⟨_, hm, rfl⟩)
      simp [hn, eq_comm]
    · rename_i he
      have hne : k ≠ k' := by simpa using he
      simp [ih h.2, hne]

theorem Indexed.lookup_eq_some (h : Indexed table key status Q) :
    table.lookup k = some a ↔ Q (status a) ∧ k = key a := (lookup_eq_some_iff h.nodup).trans (h.mem k a)

theorem Indexed.insert [DecidableEq α] (h : Indexed table key status Q) (hk : table.lookup (key a) = none) (hx : Q x) :
    Indexed ((key a, a) :: table) key (update status a x) Q where
  mem k b := by
    rw [enter_iff hx, List.mem_cons, h.mem k b, Prod.mk.injEq]
    constructor
    · rintro (⟨rfl, rfl⟩ | ⟨hb, rfl⟩)
      · exact ⟨.inl rfl, rfl⟩
      · exact ⟨.inr hb, rfl⟩
    · rintro ⟨rfl | hb, rfl⟩
      · exact .inl ⟨rfl, rfl⟩
      · exact .inr ⟨hb, rfl⟩
  nodup := by
    rw [List.map_cons, List.nodup_cons]
    refine ⟨fun hm => ?_, h.nodup⟩
    obtain ⟨⟨k, b⟩, hm, rfl : k = key a⟩ := List.mem_map.1 hm
    exact lookup_eq_none_iff.1 hk b hm

end Lookup

variable [DecidableEq α] [DecidableEq κ]

theorem Indexed.erase (h : Indexed table key status Q) (ha : Q (status a)) (hx : ¬ Q x) :
    Indexed (table.filter fun e => e.1 ≠ key a) key (update status a x) Q where
  mem k b := by
    rw [leave_iff hx, List.mem_filter, h.mem k b, decide_eq_true_eq]
    constructor
    · rintro ⟨⟨hb, rfl⟩, hne⟩
      exact ⟨⟨fun e => hne (by rw [e]), hb⟩, rfl⟩
    · rintro ⟨⟨hne, hb⟩, rfl⟩
      exact ⟨⟨hb, rfl⟩, fun e => hne (h.injective hb ha e)⟩
  nodup := h.nodup.sublist (List.filter_sublist.map _)

/-- Erasing the key of an item in the table removes one entry. -/
theorem Indexed.length_erase (h : Indexed table key status Q) (ha : Q (status a)) :
    (table.filter fun e => e.1 ≠ key a).length + 1 = table.length := by
  have hm : (key a, a) ∈ table := (h.mem _ _).2 ⟨ha, rfl⟩
  have hf : table.filter (fun e => e.1 ≠ key a) = table.erase (key a, a) := by
    rw [h.nodup.of_map.erase_eq_filter]
    refine List.filter_congr fun e he => ?_
    obtain ⟨k, b⟩ := e
    obtain ⟨hb, rfl⟩ := (h.mem _ _).1 he
    by_cases e : b = a
    · simp [e]
    · have hne : key b ≠ key a := fun hk => e (h.injective hb ha hk)
      simp [e, hne]
  rw [hf, List.length_erase_of_mem hm]
  have := List.length_pos_of_mem hm
  omega

end Indexed

end Registry
