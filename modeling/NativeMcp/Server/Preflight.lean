import NativeMcp.Server.JsonSafety

/-!
# What the preflight of a JSON document checks

A `Document` is JSON as it is written: the members of an object in order, with keys that may repeat.  Its marks are the SAX
events of the document in order, each with the token that it begins, if it begins one: a scalar, a container or a key.
The handler reports the first token in this order that is beyond a limit or repeats a key.
-/

namespace NativeMcp

inductive Scalar where
  | null
  | boolean
  | numberInteger
  | numberUnsigned
  | numberFloat
  | string
  deriving DecidableEq, Repr

def Scalar.event : Scalar → SaxEvent
  | .null => .null
  | .boolean => .boolean
  | .numberInteger => .numberInteger
  | .numberUnsigned => .numberUnsigned
  | .numberFloat => .numberFloat
  | .string => .string

inductive Document where
  | scalar (s : Scalar)
  | array (items : List Document)
  | object (members : List (Bytes × Document))

inductive TokenKind where
  | value
  | container
  | key
  deriving DecidableEq, Repr

/-- A scalar, a container or a key, with the number of containers around it; `repeated` for a key that stands in its
object already. -/
structure Token where
  kind : TokenKind
  depth : Nat
  repeated : Bool
  deriving DecidableEq, Repr

abbrev Mark := SaxEvent × Option Token

/-- The tokens among some marks. -/
def tokensOf (marks : List Mark) : List Token := marks.filterMap Prod.snd

theorem tokensOf_cons (e : SaxEvent) (t : Token) (marks : List Mark) :
    tokensOf ((e, some t) :: marks) = t :: tokensOf marks := rfl

theorem tokensOf_append (front back : List Mark) : tokensOf (front ++ back) = tokensOf front ++ tokensOf back :=
  List.filterMap_append

/-- The end of a container begins no token. -/
theorem tokensOf_end (e : SaxEvent) (marks : List Mark) : tokensOf (marks ++ [(e, none)]) = tokensOf marks := by
  rw [tokensOf_append]
  exact List.append_nil _

namespace Document

mutual

/-- The events of a document inside this many containers, in order. -/
def marks (depth : Nat) : Document → List Mark
  | .scalar s => [(s.event, some ⟨.value, depth, false⟩)]
  | .array items =>
    (.startArray, some ⟨.container, depth, false⟩) :: (itemMarks (depth + 1) items ++ [(.endArray, none)])
  | .object members =>
    (.startObject, some ⟨.container, depth, false⟩) :: (memberMarks (depth + 1) [] members ++ [(.endObject, none)])

def itemMarks (depth : Nat) : List Document → List Mark
  | [] => []
  | d :: l => d.marks depth ++ itemMarks depth l

def memberMarks (depth : Nat) (seen : List Bytes) : List (Bytes × Document) → List Mark
  | [] => []
  | (k, d) :: l =>
    (.key k, some ⟨.key, depth, seen.contains k⟩) :: (d.marks depth ++ memberMarks depth (k :: seen) l)

end

/-- What `sax_parse` delivers. -/
def events (d : Document) : List SaxEvent := (d.marks 0).map Prod.fst

mutual

/-- How deep containers are nested. -/
def nesting : Document → Nat
  | .scalar _ => 0
  | .array items => itemNesting items + 1
  | .object members => memberNesting members + 1

def itemNesting : List Document → Nat
  | [] => 0
  | d :: l => max d.nesting (itemNesting l)

def memberNesting : List (Bytes × Document) → Nat
  | [] => 0
  | (_, d) :: l => max d.nesting (memberNesting l)

end

mutual

/-- The number of scalars, containers and keys. -/
def size : Document → Nat
  | .scalar _ => 1
  | .array items => itemSize items + 1
  | .object members => memberSize members + 1

def itemSize : List Document → Nat
  | [] => 0
  | d :: l => d.size + itemSize l

def memberSize : List (Bytes × Document) → Nat
  | [] => 0
  | (_, d) :: l => 1 + d.size + memberSize l

end

mutual

/-- No object at any depth has two equal keys. -/
def Distinct : Document → Prop
  | .scalar _ => True
  | .array items => DistinctItems items
  | .object members => (members.map Prod.fst).Nodup ∧ DistinctMembers members

def DistinctItems : List Document → Prop
  | [] => True
  | d :: l => d.Distinct ∧ DistinctItems l

def DistinctMembers : List (Bytes × Document) → Prop
  | [] => True
  | (_, d) :: l => d.Distinct ∧ DistinctMembers l

end

end Document

/-! ### Violations -/

/-- What is wrong with a token, given how many came before it. -/
def Token.violation (limits : JsonSafetyLimits) (index : Nat) (t : Token) : Option JsonPreflightStatus :=
  if limits.maxTokens ≤ index then some .tooManyTokens
  else
    match t.kind with
    | .value => none
    | .container => if limits.maxNestingDepth ≤ t.depth then some .tooDeep else none
    | .key => if t.repeated then some .duplicateKey else none

/-- The first violation among the tokens, which come after this many others. -/
def firstViolation (limits : JsonSafetyLimits) : Nat → List Token → Option JsonPreflightStatus
  | _, [] => none
  | index, t :: rest => (t.violation limits index).or (firstViolation limits (index + 1) rest)

theorem firstViolation_eq_none_iff {limits : JsonSafetyLimits} {index : Nat} {tokens : List Token}
    (h : index ≤ limits.maxTokens) :
    firstViolation limits index tokens = none ↔
      index + tokens.length ≤ limits.maxTokens ∧
        (∀ t ∈ tokens, t.kind = .container → t.depth < limits.maxNestingDepth) ∧
        ∀ t ∈ tokens, t.kind = .key → t.repeated = false := by
  induction tokens generalizing index with
  | nil => simpa [firstViolation] using h
  | cons t rest ih =>
    rw [firstViolation, Option.or_eq_none_iff]
    have hviolation : t.violation limits index = none ↔ index < limits.maxTokens ∧
        (t.kind = .container → t.depth < limits.maxNestingDepth) ∧ (t.kind = .key → t.repeated = false) := by
      unfold Token.violation
      by_cases hi : limits.maxTokens ≤ index
      · rw [if_pos hi]
        simpa using fun hlt => absurd hlt (by omega)
      · rw [if_neg hi]
        cases hk : t.kind <;> simp <;> omega
    rw [hviolation]
    constructor
    · rintro ⟨⟨hlt, hdeep, hdup⟩, hrest⟩
      obtain ⟨hcount, hdeeps, hdups⟩ := (ih (by omega)).1 hrest
      rw [List.length_cons]
      exact ⟨by omega, List.forall_mem_cons.2 ⟨hdeep, hdeeps⟩, List.forall_mem_cons.2 ⟨hdup, hdups⟩⟩
    · rintro ⟨hcount, hdeep, hdup⟩
      rw [List.length_cons] at hcount
      rw [List.forall_mem_cons] at hdeep hdup
      exact ⟨⟨by omega, hdeep.1, hdup.1⟩, (ih (by omega)).2 ⟨by omega, hdeep.2, hdup.2⟩⟩

/-! ### The handler follows the marks -/

/-- The tokens of the marks are what the events say when this many containers are open, with these keys in the open
objects. -/
def Follows : Nat → List (List Bytes) → List Mark → Prop
  | _, _, [] => True
  | depth, keys, (e, t) :: rest =>
    match e with
    | .startArray => t = some ⟨.container, depth, false⟩ ∧ Follows (depth + 1) keys rest
    | .startObject => t = some ⟨.container, depth, false⟩ ∧ Follows (depth + 1) ([] :: keys) rest
    | .key k =>
      ∃ own outer, keys = own :: outer ∧ t = some ⟨.key, depth, own.contains k⟩ ∧
        Follows depth ((k :: own) :: outer) rest
    | .endArray => t = none ∧ 0 < depth ∧ Follows (depth - 1) keys rest
    | .endObject => t = none ∧ 0 < depth ∧ ∃ own outer, keys = own :: outer ∧ Follows (depth - 1) outer rest
    | .parseError => False
    | _ => t = some ⟨.value, depth, false⟩ ∧ Follows depth keys rest

theorem Follows.of_append {depth : Nat} {keys : List (List Bytes)} {front back : List Mark}
    (h : Follows depth keys (front ++ back)) : Follows depth keys front := by
  induction front generalizing depth keys with
  | nil => exact True.intro
  | cons m front ih =>
    obtain ⟨e, t⟩ := m
    rw [List.cons_append] at h
    cases e with
    | startArray | null | boolean | numberInteger | numberUnsigned | numberFloat | string | binary | startObject =>
      exact ⟨h.1, ih h.2⟩
    | key k =>
      obtain ⟨own, outer, hk, ht, h⟩ := h
      exact ⟨own, outer, hk, ht, ih h⟩
    | endArray => exact ⟨h.1, h.2.1, ih h.2.2⟩
    | endObject =>
      obtain ⟨ht, hd, own, outer, hk, h⟩ := h
      exact ⟨ht, hd, own, outer, hk, ih h⟩
    | parseError => exact h

mutual

theorem Document.follows_marks {depth : Nat} {keys : List (List Bytes)} {rest : List Mark} :
    ∀ (d : Document), Follows depth keys rest → Follows depth keys (d.marks depth ++ rest)
  | .scalar s, h => by cases s <;> exact ⟨rfl, h⟩
  | .array items, h => by
    rw [marks, List.cons_append, List.append_assoc]
    exact ⟨rfl, follows_itemMarks items ⟨rfl, Nat.succ_pos depth, h⟩⟩
  | .object members, h => by
    rw [marks, List.cons_append, List.append_assoc]
    exact ⟨rfl, follows_memberMarks members fun own => ⟨rfl, Nat.succ_pos depth, own, keys, rfl, h⟩⟩

theorem Document.follows_itemMarks {depth : Nat} {keys : List (List Bytes)} {rest : List Mark} :
    ∀ (items : List Document), Follows depth keys rest → Follows depth keys (itemMarks depth items ++ rest)
  | [], h => h
  | d :: l, h => by
    rw [itemMarks, List.append_assoc]
    exact follows_marks d (follows_itemMarks l h)

theorem Document.follows_memberMarks {depth : Nat} {outer : List (List Bytes)} {rest : List Mark} {seen : List Bytes} :
    ∀ (members : List (Bytes × Document)), (∀ own, Follows depth (own :: outer) rest) →
      Follows depth (seen :: outer) (memberMarks depth seen members ++ rest)
  | [], h => h seen
  | (k, d) :: l, h => by
    rw [memberMarks, List.cons_append, List.append_assoc]
    exact ⟨seen, outer, rfl, rfl, follows_marks d (follows_memberMarks l h)⟩

end

namespace SafetySax

variable {limits : JsonSafetyLimits}

theorem saxParse_cons (sax : SafetySax) (e : SaxEvent) (es : List SaxEvent) :
    saxParse limits sax (e :: es) =
      if (handle limits sax e).1 then saxParse limits (handle limits sax e).2 es else handle limits sax e := by
  rw [saxParse]
  split <;> rename_i hh <;> rw [hh] <;> rfl

/-- One event: the handler reports the violation of its token, or follows the marks behind it. -/
private theorem handle_mark (limits : JsonSafetyLimits) {sax : SafetySax} {e : SaxEvent} {t : Option Token} {rest : List Mark}
    (hs : sax.status = .ok) (hf : Follows sax.depth sax.objectKeys ((e, t) :: rest)) :
    match t.bind (Token.violation limits sax.tokenCount) with
    | some status => (handle limits sax e).1 = false ∧ (handle limits sax e).2.status = status
    | none => (handle limits sax e).1 = true ∧ (handle limits sax e).2.status = .ok ∧
        (handle limits sax e).2.tokenCount = sax.tokenCount + t.toList.length ∧
        Follows (handle limits sax e).2.depth (handle limits sax e).2.objectKeys rest := by
  cases e with
  | null | boolean | numberInteger | numberUnsigned | numberFloat | string | binary =>
    obtain ⟨rfl, hf⟩ := hf
    simp only [handle, countToken, Option.bind_some, Token.violation]
    by_cases hc : limits.maxTokens ≤ sax.tokenCount
    · simp [hc]
    · simp [hc, hs, hf]
  | startArray =>
    obtain ⟨rfl, hf⟩ := hf
    simp only [handle, beginContainer, countToken, Option.bind_some, Token.violation]
    by_cases hc : limits.maxTokens ≤ sax.tokenCount
    · simp [hc]
    · by_cases hd : limits.maxNestingDepth ≤ sax.depth
      · simp [hc, hd]
      · simp [hc, hd, hs, hf]
  | startObject =>
    obtain ⟨rfl, hf⟩ := hf
    simp only [handle, startObject, beginContainer, countToken, Option.bind_some, Token.violation]
    by_cases hc : limits.maxTokens ≤ sax.tokenCount
    · simp [hc]
    · by_cases hd : limits.maxNestingDepth ≤ sax.depth
      · simp [hc, hd]
      · simp [hc, hd, hs, hf]
  | key k =>
    obtain ⟨own, outer, hk, rfl, hf⟩ := hf
    simp only [handle, key, countToken, Option.bind_some, Token.violation]
    by_cases hc : limits.maxTokens ≤ sax.tokenCount
    · simp [hc]
    · by_cases hm : k ∈ own
      · simp [hc, hk, hm]
      · simp [hc, hk, hm, hs, hf]
  | endArray =>
    obtain ⟨rfl, hd, hf⟩ := hf
    simp [handle, endArray, Nat.ne_of_gt hd, hs, hf]
  | endObject =>
    obtain ⟨rfl, hd, own, outer, hk, hf⟩ := hf
    simp [handle, endObject, hk, Nat.ne_of_gt hd, hs, hf]
  | parseError => exact hf.elim

/-- The handler stops at the first violation among the tokens, with its status, or goes on behind the marks. -/
theorem saxParse_marks (limits : JsonSafetyLimits) {sax : SafetySax} {marks : List Mark} (es : List SaxEvent) (hs : sax.status = .ok)
    (hf : Follows sax.depth sax.objectKeys marks) :
    match firstViolation limits sax.tokenCount (tokensOf marks) with
    | some status => ∃ sax', saxParse limits sax (marks.map Prod.fst ++ es) = (false, sax') ∧ sax'.status = status
    | none => ∃ sax', saxParse limits sax (marks.map Prod.fst ++ es) = saxParse limits sax' es ∧ sax'.status = .ok := by
  induction marks generalizing sax with
  | nil => exact ⟨sax, rfl, hs⟩
  | cons m marks ih =>
    obtain ⟨e, t⟩ := m
    have hstep := handle_mark limits hs hf
    have hviolation : firstViolation limits sax.tokenCount (tokensOf ((e, t) :: marks)) =
        (t.bind (Token.violation limits sax.tokenCount)).or
          (firstViolation limits (sax.tokenCount + t.toList.length) (tokensOf marks)) := by
      cases t <;> rfl
    rw [hviolation, List.map_cons, List.cons_append, saxParse_cons]
    cases hv : t.bind (Token.violation limits sax.tokenCount) with
    | some status =>
      rw [hv] at hstep
      rw [hstep.1]
      exact ⟨(handle limits sax e).2, Prod.ext hstep.1 rfl, hstep.2⟩
    | none =>
      rw [hv] at hstep
      obtain ⟨hgo, hok, hcount, hrest⟩ := hstep
      rw [hgo, ← hcount]
      exact ih hok hrest

private theorem open_of_handle {sax : SafetySax} {e : SaxEvent} (hgo : (handle limits sax e).1 = true) :
    (handle limits sax e).2.depth + [e].count .endArray + [e].count .endObject =
        sax.depth + [e].count .startArray + [e].count .startObject ∧
      (handle limits sax e).2.objectKeys.length + [e].count .endObject =
        sax.objectKeys.length + [e].count .startObject := by
  revert hgo
  cases e with
  | endArray =>
    simp only [handle, endArray]
    by_cases hd : sax.depth = 0
    · simp [hd]
    · simp [hd]
      omega
  | endObject =>
    simp only [handle, endObject]
    cases hk : sax.objectKeys with
    | nil => simp
    | cons own outer =>
      by_cases hd : sax.depth = 0
      · simp [hd]
      · simp [hd]
        omega
  | startArray | startObject =>
    by_cases hc : limits.maxTokens ≤ sax.tokenCount
    · simp [handle, startObject, beginContainer, countToken, hc]
    · by_cases hd : limits.maxNestingDepth ≤ sax.depth
      · simp [handle, startObject, beginContainer, countToken, hc, hd]
      · simp [handle, startObject, beginContainer, countToken, hc, hd]
  | key k =>
    by_cases hc : limits.maxTokens ≤ sax.tokenCount
    · simp [handle, key, countToken, hc]
    · cases hk : sax.objectKeys with
      | nil => simp [handle, key, countToken, hc, hk]
      | cons own outer =>
        by_cases hm : k ∈ own
        · simp [handle, key, countToken, hc, hk, hm]
        · simp [handle, key, countToken, hc, hk, hm]
  | _ =>
    by_cases hc : limits.maxTokens ≤ sax.tokenCount
    · simp [handle, countToken, parseError, hc]
    · simp [handle, countToken, parseError, hc]

/-- As long as every callback returns true, `depth` counts the open containers and there is one key set for each open
object. -/
theorem open_of_saxParse {sax sax' : SafetySax} {es : List SaxEvent} (h : saxParse limits sax es = (true, sax')) :
    sax'.depth + es.count .endArray + es.count .endObject = sax.depth + es.count .startArray + es.count .startObject ∧
      sax'.objectKeys.length + es.count .endObject = sax.objectKeys.length + es.count .startObject := by
  induction es generalizing sax with
  | nil =>
    cases h
    exact ⟨rfl, rfl⟩
  | cons e es ih =>
    rw [saxParse_cons] at h
    cases hgo : (handle limits sax e).1 with
    | false =>
      rw [hgo, if_neg (by simp)] at h
      rw [h] at hgo
      cases hgo
    | true =>
      rw [hgo, if_pos rfl] at h
      obtain ⟨hdepth, hkeys⟩ := ih h
      obtain ⟨hdepth', hkeys'⟩ := open_of_handle hgo
      have hcount : ∀ b, (e :: es).count b = [e].count b + es.count b := by
        intro b
        rw [← List.singleton_append, List.count_append]
      rw [hcount, hcount, hcount, hcount]
      omega

end SafetySax

/-! ### Acceptance -/

namespace Document

mutual

theorem length_tokensOf_marks (depth : Nat) : ∀ d : Document, (tokensOf (d.marks depth)).length = d.size
  | .scalar _ => rfl
  | .array items => by
    rw [marks, tokensOf_cons, tokensOf_end, List.length_cons, length_tokensOf_itemMarks (depth + 1) items, size]
  | .object members => by
    rw [marks, tokensOf_cons, tokensOf_end, List.length_cons, length_tokensOf_memberMarks (depth + 1) [] members, size]

theorem length_tokensOf_itemMarks (depth : Nat) :
    ∀ items : List Document, (tokensOf (itemMarks depth items)).length = itemSize items
  | [] => rfl
  | d :: l => by
    rw [itemMarks, tokensOf_append, List.length_append, length_tokensOf_marks depth d, length_tokensOf_itemMarks depth l,
      itemSize]

theorem length_tokensOf_memberMarks (depth : Nat) (seen : List Bytes) :
    ∀ members : List (Bytes × Document), (tokensOf (memberMarks depth seen members)).length = memberSize members
  | [] => rfl
  | (k, d) :: l => by
    rw [memberMarks, tokensOf_cons, tokensOf_append, List.length_cons, List.length_append, length_tokensOf_marks depth d,
      length_tokensOf_memberMarks depth (k :: seen) l, memberSize]
    omega

end

/-- Every token of the marks has the property. -/
def AllTokens (P : Token → Prop) (marks : List Mark) : Prop := ∀ t ∈ tokensOf marks, P t

theorem allTokens_nil {P : Token → Prop} : AllTokens P [] := fun t ht => by simp [tokensOf] at ht

theorem allTokens_cons {P : Token → Prop} {e : SaxEvent} {t : Token} {marks : List Mark} :
    AllTokens P ((e, some t) :: marks) ↔ P t ∧ AllTokens P marks := List.forall_mem_cons

theorem allTokens_append {P : Token → Prop} {front back : List Mark} :
    AllTokens P (front ++ back) ↔ AllTokens P front ∧ AllTokens P back := by
  unfold AllTokens
  rw [tokensOf_append, List.forall_mem_append]

theorem allTokens_end {P : Token → Prop} {e : SaxEvent} {marks : List Mark} :
    AllTokens P (marks ++ [(e, none)]) ↔ AllTokens P marks := by
  unfold AllTokens
  rw [tokensOf_end]

mutual

/-- No container is too deep exactly if the nesting is within the limit. -/
theorem shallow_iff {limit depth : Nat} : ∀ d : Document, depth ≤ limit →
    (AllTokens (fun t => t.kind = .container → t.depth < limit) (d.marks depth) ↔ depth + d.nesting ≤ limit)
  | .scalar s, h => by
    rw [marks, allTokens_cons]
    exact ⟨fun _ => h, fun _ => ⟨nofun, allTokens_nil⟩⟩
  | .array items, h => by
    rw [marks, allTokens_cons, allTokens_end, nesting]
    constructor
    · rintro ⟨hself, hitems⟩
      have hlt : depth < limit := hself rfl
      have := (shallowItems_iff items (by omega)).1 hitems
      omega
    · intro hle
      exact ⟨fun _ => show depth < limit by omega, (shallowItems_iff items (by omega)).2 (by omega)⟩
  | .object members, h => by
    rw [marks, allTokens_cons, allTokens_end, nesting]
    constructor
    · rintro ⟨hself, hmembers⟩
      have hlt : depth < limit := hself rfl
      have := (shallowMembers_iff members (by omega)).1 hmembers
      omega
    · intro hle
      exact ⟨fun _ => show depth < limit by omega, (shallowMembers_iff members (by omega)).2 (by omega)⟩

theorem shallowItems_iff {limit depth : Nat} : ∀ items : List Document, depth ≤ limit →
    (AllTokens (fun t => t.kind = .container → t.depth < limit) (itemMarks depth items) ↔
      depth + itemNesting items ≤ limit)
  | [], h => ⟨fun _ => h, fun _ => allTokens_nil⟩
  | d :: l, h => by
    rw [itemMarks, allTokens_append, shallow_iff d h, shallowItems_iff l h, itemNesting]
    omega

theorem shallowMembers_iff {limit depth : Nat} {seen : List Bytes} :
    ∀ members : List (Bytes × Document), depth ≤ limit →
      (AllTokens (fun t => t.kind = .container → t.depth < limit) (memberMarks depth seen members) ↔
        depth + memberNesting members ≤ limit)
  | [], h => ⟨fun _ => h, fun _ => allTokens_nil⟩
  | (k, d) :: l, h => by
    rw [memberMarks, allTokens_cons, allTokens_append, shallow_iff d h, shallowMembers_iff l h, memberNesting,
      and_iff_right nofun]
    omega

end

mutual

/-- No key is repeated exactly if every object has different keys. -/
theorem distinct_iff (depth : Nat) : ∀ d : Document,
    AllTokens (fun t => t.kind = .key → t.repeated = false) (d.marks depth) ↔ d.Distinct
  | .scalar s => by
    rw [marks, allTokens_cons]
    exact ⟨fun _ => trivial, fun _ => ⟨nofun, allTokens_nil⟩⟩
  | .array items => by
    rw [marks, allTokens_cons, allTokens_end, and_iff_right nofun, Distinct, distinctItems_iff items]
  | .object members => by
    rw [marks, allTokens_cons, allTokens_end, and_iff_right nofun, Distinct, distinctMembers_iff members]
    simp

theorem distinctItems_iff {depth : Nat} : ∀ items : List Document,
    AllTokens (fun t => t.kind = .key → t.repeated = false) (itemMarks depth items) ↔ DistinctItems items
  | [] => ⟨fun _ => trivial, fun _ => allTokens_nil⟩
  | d :: l => by rw [itemMarks, allTokens_append, distinct_iff depth d, distinctItems_iff l, DistinctItems]

theorem distinctMembers_iff {depth : Nat} {seen : List Bytes} : ∀ members : List (Bytes × Document),
    AllTokens (fun t => t.kind = .key → t.repeated = false) (memberMarks depth seen members) ↔
      ((members.map Prod.fst).Nodup ∧ ∀ k ∈ members.map Prod.fst, k ∉ seen) ∧ DistinctMembers members
  | [] => by
    rw [DistinctMembers]
    exact ⟨fun _ => ⟨⟨List.nodup_nil, nofun⟩, trivial⟩, fun _ => allTokens_nil⟩
  | (k, d) :: l => by
    rw [memberMarks, allTokens_cons, allTokens_append, distinct_iff depth d, distinctMembers_iff l, DistinctMembers,
      List.map_cons, List.nodup_cons, List.forall_mem_cons]
    have hself : ((TokenKind.key = .key → seen.contains k = false) ↔ k ∉ seen) := by simp
    rw [hself]
    constructor
    · rintro ⟨hk, hd, ⟨hnodup, hfresh⟩, hl⟩
      refine ⟨⟨⟨fun hm => hfresh k hm List.mem_cons_self, hnodup⟩, hk, fun k' hm hs => ?_⟩, hd, hl⟩
      exact hfresh k' hm (List.mem_cons_of_mem _ hs)
    · rintro ⟨⟨⟨hm, hnodup⟩, hk, hfresh⟩, hd, hl⟩
      refine ⟨hk, hd, ⟨hnodup, fun k' hk' hs => ?_⟩, hl⟩
      rcases List.mem_cons.1 hs with rfl | hs
      · exact hm hk'
      · exact hfresh k' hk' hs

end

/-- No token of a document violates a limit or repeats a key exactly if the document is within the limits. -/
theorem firstViolation_marks_eq_none_iff (limits : JsonSafetyLimits) (d : Document) :
    firstViolation limits 0 (tokensOf (d.marks 0)) = none ↔
      d.nesting ≤ limits.maxNestingDepth ∧ d.size ≤ limits.maxTokens ∧ d.Distinct := by
  have hdeep := shallow_iff d (Nat.zero_le limits.maxNestingDepth)
  have hdup := distinct_iff 0 d
  rw [firstViolation_eq_none_iff (Nat.zero_le _), length_tokensOf_marks]
  unfold AllTokens at hdeep hdup
  rw [hdeep, hdup, Nat.zero_add, Nat.zero_add]
  exact and_left_comm

end Document

/-- No violation is reported as `ok`. -/
theorem firstViolation_ne_ok (limits : JsonSafetyLimits) (index : Nat) (tokens : List Token) :
    firstViolation limits index tokens ≠ some .ok := by
  induction tokens generalizing index with
  | nil => simp [firstViolation]
  | cons t rest ih =>
    rw [firstViolation]
    cases hv : t.violation limits index with
    | none => exact ih (index + 1)
    | some status =>
      rintro h
      cases h
      unfold Token.violation at hv
      split at hv
      · cases hv
      · split at hv
        · cases hv
        · split at hv <;> cases hv
        · split at hv <;> cases hv

theorem Document.follows_all_marks (d : Document) : Follows 0 [] (d.marks 0) := by
  have h : Follows 0 [] (d.marks 0 ++ []) := d.follows_marks True.intro
  rwa [List.append_nil] at h

theorem preflightJson_of_events {N : Nlohmann} {limits : JsonSafetyLimits} {text : Bytes} {d : Document}
    (hdepth : 0 < limits.maxNestingDepth) (htokens : 0 < limits.maxTokens) (hd : N.saxEvents text = d.events) :
    preflightJson N text limits = (firstViolation limits 0 (tokensOf (d.marks 0))).getD .ok := by
  have hlimits : ¬ (limits.maxNestingDepth = 0 ∨ limits.maxTokens = 0) := by omega
  have hf : Follows ({} : SafetySax).depth ({} : SafetySax).objectKeys (d.marks 0) := d.follows_all_marks
  have h := SafetySax.saxParse_marks limits [] rfl hf
  rw [List.append_nil] at h
  unfold preflightJson
  rw [if_neg hlimits, hd]
  cases hv : firstViolation limits 0 (tokensOf (d.marks 0)) with
  | some status =>
    rw [hv] at h
    obtain ⟨sax, hsax, rfl⟩ := h
    have hne : sax.status ≠ .ok := fun he => firstViolation_ne_ok _ _ _ (he ▸ hv)
    rw [Document.events, hsax]
    simp [hne]
  | none =>
    rw [hv] at h
    obtain ⟨sax, hsax, hok⟩ := h
    rw [Document.events, hsax]
    exact hok

/-- The preflight accepts a document exactly if it is within the limits. -/
theorem preflightJson_eq_ok_iff {N : Nlohmann} {limits : JsonSafetyLimits} {text : Bytes} {d : Document}
    (hdepth : 0 < limits.maxNestingDepth) (htokens : 0 < limits.maxTokens) (hd : N.saxEvents text = d.events) :
    preflightJson N text limits = .ok ↔
      d.nesting ≤ limits.maxNestingDepth ∧ d.size ≤ limits.maxTokens ∧ d.Distinct := by
  rw [preflightJson_of_events hdepth htokens hd, ← Document.firstViolation_marks_eq_none_iff]
  cases hv : firstViolation limits 0 (tokensOf (d.marks 0)) with
  | some status =>
    have hne : status ≠ .ok := fun he => firstViolation_ne_ok _ _ _ (he ▸ hv)
    simp [hne]
  | none => simp

/-- The preflight of a text with these events accepts it exactly if the document is within the limits, and otherwise
reports the first violation in the order of the document; a syntax error comes behind the violations before it. -/
theorem preflight_correct (N : Nlohmann) (limits : JsonSafetyLimits) (text : Bytes) (hdepth : 0 < limits.maxNestingDepth)
    (htokens : 0 < limits.maxTokens) :
    (∀ d : Document, N.saxEvents text = d.events →
      (preflightJson N text limits = .ok ↔
        d.nesting ≤ limits.maxNestingDepth ∧ d.size ≤ limits.maxTokens ∧ d.Distinct) ∧
      preflightJson N text limits = (firstViolation limits 0 (tokensOf (d.marks 0))).getD .ok) ∧
    (∀ (d : Document) (delivered : Nat), N.saxEvents text = d.events.take delivered ++ [.parseError] →
      preflightJson N text limits =
        (firstViolation limits 0 (tokensOf ((d.marks 0).take delivered))).getD .invalid) ∧
    ∀ es sax, es <+: N.saxEvents text → SafetySax.saxParse limits {} es = (true, sax) →
      sax.depth + es.count .endArray + es.count .endObject = es.count .startArray + es.count .startObject ∧
        sax.objectKeys.length + es.count .endObject = es.count .startObject := by
  have hlimits : ¬ (limits.maxNestingDepth = 0 ∨ limits.maxTokens = 0) := by omega
  refine ⟨fun d hd => ⟨preflightJson_eq_ok_iff hdepth htokens hd, preflightJson_of_events hdepth htokens hd⟩,
    fun d delivered hd => ?_, fun es sax _ h => ?_⟩
  · have hlead : Follows ({} : SafetySax).depth ({} : SafetySax).objectKeys ((d.marks 0).take delivered) := by
      have hf := d.follows_all_marks
      rw [← List.take_append_drop delivered (d.marks 0)] at hf
      exact hf.of_append
    have h := SafetySax.saxParse_marks limits [.parseError] rfl hlead
    unfold preflightJson
    rw [if_neg hlimits, hd, Document.events, ← List.map_take]
    cases hv : firstViolation limits 0 (tokensOf ((d.marks 0).take delivered)) with
    | some status =>
      rw [hv] at h
      obtain ⟨sax, hsax, rfl⟩ := h
      have hne : sax.status ≠ .ok := fun he => firstViolation_ne_ok _ _ _ (he ▸ hv)
      rw [hsax]
      simp [hne]
    | none =>
      rw [hv] at h
      obtain ⟨sax, hsax, hok⟩ := h
      rw [hsax]
      simp [SafetySax.saxParse, SafetySax.handle, SafetySax.parseError, hok]
  · simpa using SafetySax.open_of_saxParse h

def repeatedKey : Document :=
  .object [(bytes "a", .array [.scalar .numberUnsigned,
    .object [(bytes "b", .scalar .null), (bytes "b", .scalar .boolean)]])]

def repeatedKeyText : Bytes := bytes "\x7b\"a\":[1,\x7b\"b\":null,\"b\":true\x7d]\x7d"

/-- What the parser delivers of that text; any other is cut off at once. -/
def repeatedKeyParser : Nlohmann where
  saxEvents text := if text = repeatedKeyText then repeatedKey.events else [.parseError]
  parse _ := none
  isUtf8_of_parse := nofun

theorem preflight_repeatedKey :
    preflightJson repeatedKeyParser repeatedKeyText ⟨3, 8⟩ = .duplicateKey ∧
      preflightJson repeatedKeyParser repeatedKeyText ⟨2, 8⟩ = .tooDeep ∧
      preflightJson repeatedKeyParser repeatedKeyText ⟨3, 7⟩ = .tooManyTokens ∧
      preflightJson repeatedKeyParser [] ⟨3, 8⟩ = .invalid := by
  have hevents : repeatedKeyParser.saxEvents repeatedKeyText = repeatedKey.events := by
    simp [repeatedKeyParser]
  refine ⟨?_, ?_, ?_, ?_⟩
  · rw [((preflight_correct repeatedKeyParser ⟨3, 8⟩ repeatedKeyText (by decide) (by decide)).1 repeatedKey hevents).2]
    decide +kernel
  · rw [((preflight_correct repeatedKeyParser ⟨2, 8⟩ repeatedKeyText (by decide) (by decide)).1 repeatedKey hevents).2]
    decide +kernel
  · rw [((preflight_correct repeatedKeyParser ⟨3, 7⟩ repeatedKeyText (by decide) (by decide)).1 repeatedKey hevents).2]
    decide +kernel
  · have hnone : repeatedKeyParser.saxEvents [] = repeatedKey.events.take 0 ++ [.parseError] := by decide +kernel
    rw [(preflight_correct repeatedKeyParser ⟨3, 8⟩ [] (by decide) (by decide)).2.1 repeatedKey 0 hnone]
    decide +kernel

end NativeMcp
