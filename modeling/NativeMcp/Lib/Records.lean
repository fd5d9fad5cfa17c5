import Mathlib.Data.List.Basic

/-!
# Records that end with a separator

A stream is made of records, each with its separator, and a rest without one (`Parsed`).  There is one way to take it
apart, and it does not depend on the pieces in which the stream arrives: what is taken apart later goes on from the rest
(`Parsed.append`).
-/

namespace Records

variable {α : Type} {sep : α}

/-- The records as they stand in a stream. -/
def joined (sep : α) (records : List (List α)) : List α := records.flatMap (· ++ [sep])

@[simp] theorem joined_nil : joined sep [] = [] := rfl

theorem joined_cons (record : List α) (records : List (List α)) :
    joined sep (record :: records) = record ++ sep :: joined sep records := by
  simp [joined]

theorem joined_append (records records' : List (List α)) :
    joined sep (records ++ records') = joined sep records ++ joined sep records' := List.flatMap_append

structure Parsed (sep : α) (stream : List α) (records : List (List α)) (rest : List α) : Prop where
  stream : stream = joined sep records ++ rest
  records : ∀ record ∈ records, sep ∉ record
  rest : sep ∉ rest

/-- What stands before the first separator. -/
private theorem append_sep_inj {x x' y y' : List α} (hx : sep ∉ x) (hx' : sep ∉ x')
    (h : x ++ sep :: y = x' ++ sep :: y') : x = x' ∧ y = y' := by
  induction x generalizing x' with
  | nil =>
    cases x' with
    | nil => exact ⟨rfl, (List.cons.inj h).2⟩
    | cons b x' => exact absurd (List.mem_cons.2 (.inl (List.cons.inj h).1)) hx'
  | cons a x ih =>
    cases x' with
    | nil => exact absurd (List.mem_cons.2 (.inl (List.cons.inj h).1.symm)) hx
    | cons b x' =>
      obtain ⟨rfl, htail⟩ := List.cons.inj h
      have hx := fun hm => hx (List.mem_cons_of_mem _ hm)
      obtain ⟨rfl, hy⟩ := ih hx (fun hm => hx' (List.mem_cons_of_mem _ hm)) htail
      exact ⟨rfl, hy⟩

namespace Parsed

variable {stream more rest rest' record : List α} {records records' : List (List α)}

theorem nil (h : sep ∉ stream) : Parsed sep stream [] stream := ⟨rfl, fun _ hr => absurd hr List.not_mem_nil, h⟩

theorem cons (h : Parsed sep stream records rest) (hrecord : sep ∉ record) :
    Parsed sep (record ++ sep :: stream) (record :: records) rest where
  stream := by rw [h.stream, joined_cons, List.append_assoc, List.cons_append]
  records := List.forall_mem_cons.2 ⟨hrecord, h.records⟩
  rest := h.rest

theorem unique (h : Parsed sep stream records rest) (h' : Parsed sep stream records' rest') :
    records = records' ∧ rest = rest' := by
  obtain ⟨hstream, hrecords, hrest⟩ := h
  obtain ⟨hstream', hrecords', hrest'⟩ := h'
  rw [hstream] at hstream'
  clear hstream
  induction records generalizing records' with
  | nil =>
    cases records' with
    | nil => exact ⟨rfl, hstream'⟩
    | cons record' records' =>
      rw [joined_nil, List.nil_append, joined_cons] at hstream'
      exact absurd (by rw [hstream']; simp) hrest
  | cons record records ih =>
    cases records' with
    | nil =>
      rw [joined_nil, List.nil_append, joined_cons] at hstream'
      exact absurd (by rw [← hstream']; simp) hrest'
    | cons record' records' =>
      obtain ⟨hrecord, hrecords⟩ := List.forall_mem_cons.1 hrecords
      obtain ⟨hrecord', htail'⟩ := List.forall_mem_cons.1 hrecords'
      rw [joined_cons, joined_cons, List.append_assoc, List.append_assoc, List.cons_append, List.cons_append]
        at hstream'
      obtain ⟨rfl, htail⟩ := append_sep_inj hrecord hrecord' hstream'
      obtain ⟨rfl, rfl⟩ := ih hrecords htail htail'
      exact ⟨rfl, rfl⟩

/-- What arrives later is taken apart from the rest on. -/
theorem append (h : Parsed sep stream records rest) (h' : Parsed sep (rest ++ more) records' rest') :
    Parsed sep (stream ++ more) (records ++ records') rest' where
  stream := by rw [h.stream, List.append_assoc, h'.stream, joined_append, List.append_assoc]
  records := by
    intro record hrecord
    rcases List.mem_append.1 hrecord with hold | hnew
    · exact h.records record hold
    · exact h'.records record hnew
  rest := h'.rest

/-- There are as many records as separators. -/
theorem count_sep [DecidableEq α] (h : Parsed sep stream records rest) : stream.count sep = records.length := by
  have hjoined : (joined sep records).count sep = records.length := by
    have hrecords := h.records
    clear h
    induction records with
    | nil => rfl
    | cons record records ih =>
      obtain ⟨hrecord, hrecords⟩ := List.forall_mem_cons.1 hrecords
      rw [joined_cons, List.count_append, List.count_eq_zero.2 hrecord, List.count_cons_self, ih hrecords,
        List.length_cons]
      omega
  rw [h.stream, List.count_append, hjoined, List.count_eq_zero.2 h.rest, Nat.add_zero]

/-- Every stream can be taken apart. -/
theorem exists_parsed [DecidableEq α] (sep : α) (stream : List α) : ∃ records rest, Parsed sep stream records rest := by
  induction stream with
  | nil => exact ⟨[], [], .nil List.not_mem_nil⟩
  | cons a stream ih =>
    obtain ⟨records, rest, h⟩ := ih
    by_cases ha : a = sep
    · rw [ha]
      exact ⟨[] :: records, rest, h.cons List.not_mem_nil⟩
    · cases records with
      | nil =>
        refine ⟨[], a :: rest, ?_, fun _ hr => absurd hr List.not_mem_nil, ?_⟩
        · rw [h.stream]
          rfl
        · rw [List.mem_cons, not_or]
          exact ⟨fun heq => ha heq.symm, h.rest⟩
      | cons record records =>
        obtain ⟨hrecord, hrecords⟩ := List.forall_mem_cons.1 h.records
        refine ⟨(a :: record) :: records, rest, ?_, List.forall_mem_cons.2 ⟨?_, hrecords⟩, h.rest⟩
        · rw [h.stream, joined_cons, joined_cons]
          rfl
        · rw [List.mem_cons, not_or]
          exact ⟨fun heq => ha heq.symm, hrecord⟩

/-- The records of what has arrived are the first ones of the whole stream. -/
theorem records_prefix [DecidableEq α] (h : Parsed sep stream records rest)
    (h' : Parsed sep (stream ++ more) records' rest') : records <+: records' := by
  obtain ⟨later, last, hlater⟩ := exists_parsed sep (rest ++ more)
  obtain ⟨rfl, -⟩ := (h.append hlater).unique h'
  exact List.prefix_append _ _

/-- Bounds on the whole stream bound what has arrived of it. -/
theorem length_rest_le [DecidableEq α] (h : Parsed sep stream records rest)
    (h' : Parsed sep (stream ++ more) records' rest') {n : Nat} (hrecords : ∀ record ∈ records', record.length ≤ n)
    (hrest : rest'.length ≤ n) : rest.length ≤ n := by
  obtain ⟨later, last, hlater⟩ := exists_parsed sep (rest ++ more)
  obtain ⟨rfl, rfl⟩ := (h.append hlater).unique h'
  cases later with
  | nil =>
    have hlength := congrArg List.length hlater.stream
    rw [joined_nil, List.nil_append, List.length_append] at hlength
    omega
  | cons record later =>
    -- the rest has no separator, so that it lies within the first of the records that follow
    have hfirst := hrecords record (by simp)
    by_contra hlong
    have hshort : record.length < rest.length := by omega
    have hstream := hlater.stream
    rw [joined_cons, List.append_assoc] at hstream
    have hmem : (rest ++ more)[record.length]? = some sep := by
      rw [hstream, List.getElem?_append_right (Nat.le_refl _), Nat.sub_self]
      rfl
    rw [List.getElem?_append_left hshort] at hmem
    exact h.rest (List.mem_of_getElem? hmem)

end Parsed

end Records
