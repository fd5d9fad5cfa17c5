import Mathlib.Data.List.Nodup
import NativeMcp.Tools.LogSearch
import NativeMcp.Tools.Schema
import NativeMcp.Tools.ToolService

/-!
# The advertised input schemas and the argument checks

A closed object schema says of the members what `has_only_fields` and the checks of the single arguments say
(`conforms_closedObjectOf`).  Arguments that conform are refused as invalid only by the log analyzer, which takes no query
with a NUL, a line feed or a carriage return; the schema has no keyword for that.
-/

namespace NativeMcp

open Json Schema FilePolicy ProcessMemory

/-- What the parser makes of the members of an object: the keys are in order, and an integer is signed only if it has a
minus sign. -/
structure ParsedMembers (members : List (Bytes × Json)) : Prop where
  sorted : Sorted members
  unsigned : ∀ p ∈ members, ∀ i, p.2 = .numberInteger i → i ≤ 0

/-! ### Closed objects -/

theorem lookup_of_mem {members : List (Bytes × Json)} (h : Sorted members) {p : Bytes × Json} (hp : p ∈ members) :
    members.lookup p.1 = some p.2 := by
  induction members with
  | nil => cases hp
  | cons q members ih =>
    obtain ⟨hq, hm⟩ := List.pairwise_cons.1 h
    rw [List.lookup_cons]
    rcases List.mem_cons.1 hp with rfl | hp
    · simp
    · have hne : p.1 ≠ q.1 := by
        intro e
        have hlt := hq p hp
        rw [e] at hlt
        exact List.lt_irrefl _ hlt
      rw [beq_false_of_ne hne]
      exact ih hm hp

theorem mem_of_find? {members : List (Bytes × Json)} {key : String} {v : Json}
    (h : (Json.object members).find? key = some v) : (bytes key, v) ∈ members := by
  replace h : members.lookup (bytes key) = some v := h
  induction members with
  | nil => cases h
  | cons q members ih =>
    rw [List.lookup_cons] at h
    split at h
    · rename_i he
      rw [Option.some.inj h.symm, eq_of_beq he]
      exact List.mem_cons_self ..
    · exact List.mem_cons_of_mem _ (ih h)

private theorem conformsTop_closedObjectOf (properties : List (String × Json)) (required : List String)
    (members : List (Bytes × Json)) :
    conformsTop (closedObjectOf properties required) (.object members) = true ↔
      ∀ r ∈ required, ((Json.object members).find? r).isSome = true := by
  have hreq : (closedObjectOf properties required).find? "required" = some (.texts required) := by
    simp [closedObjectOf, List.lookup_cons]
  rw [closedObjectOf, conformsTop_ofPairs, typeAllows_ofPairs (by rfl : List.lookup "type" _ = some (Json.text "object")),
    ← closedObjectOf, boundsAllow, hasRequired, hreq]
  simp [hasType, Json.texts, Json.text, Json.find?]

private theorem memberSchema_closedObjectOf (properties : List (String × Json)) (required : List String) (k : Bytes) :
    memberSchema (closedObjectOf properties required) k =
      some (((properties.find? fun p => bytes p.1 == k).map (·.2)).getD (.boolean false)) := by
  have hprop : (closedObjectOf properties required).find? "properties" = some (.ofPairs properties) := by
    simp [closedObjectOf, List.lookup_cons]
  have hadd : (closedObjectOf properties required).find? "additionalProperties" = some (.boolean false) := by
    simp [closedObjectOf, List.lookup_cons]
  rw [memberSchema, hprop, hadd, Option.bind_some, member?_ofPairs]
  cases (properties.find? fun p => bytes p.1 == k).map (·.2) <;> rfl

/-- Only the properties occur, each conforms to its schema, and those required are there. -/
theorem conforms_closedObjectOf {properties : List (String × Json)} {required : List String}
    {members : List (Bytes × Json)} (hm : Sorted members) (hp : (properties.map (·.1)).Nodup) :
    conforms (closedObjectOf properties required) (.object members) = true ↔
      hasOnlyFields (.object members) (properties.map (·.1)) = true ∧
      (∀ r ∈ required, ((Json.object members).find? r).isSome = true) ∧
      ∀ p ∈ properties, ∀ v, (Json.object members).find? p.1 = some v → conforms p.2 v = true := by
  rw [conforms, Bool.and_eq_true, conformsTop_closedObjectOf, conformsMembers_iff]
  simp only [memberSchema_closedObjectOf, Option.some.injEq, forall_eq']
  constructor
  · rintro ⟨hreq, hmem⟩
    have hfield : ∀ p ∈ members, ∃ q ∈ properties, bytes q.1 = p.1 ∧ conforms q.2 p.2 = true := by
      intro p hpm
      have h := hmem p hpm
      cases hf : properties.find? fun q => bytes q.1 == p.1 with
      | none => simp [hf] at h
      | some q =>
        refine ⟨q, List.mem_of_find?_eq_some hf, by simpa using List.find?_some hf, ?_⟩
        simpa [hf] using h
    refine ⟨?_, hreq, fun q hq v hv => ?_⟩
    · simp only [hasOnlyFields, List.all_eq_true, List.any_eq_true, List.mem_map, beq_iff_eq]
      intro p hpm
      obtain ⟨q, hq, he, -⟩ := hfield p hpm
      exact ⟨q.1, ⟨q, hq, rfl⟩, he.symm⟩
    · obtain ⟨q', hq', he, hc⟩ := hfield _ (mem_of_find? hv)
      have hkey : q'.1 = q.1 := Utf8.bytes_inj.1 he
      rwa [List.inj_on_of_nodup_map hp hq' hq hkey] at hc
  · rintro ⟨honly, hreq, hprop⟩
    refine ⟨hreq, fun p hpm => ?_⟩
    simp only [hasOnlyFields, List.all_eq_true, List.any_eq_true, List.mem_map, beq_iff_eq] at honly
    obtain ⟨_, ⟨q, hq, rfl⟩, he⟩ := honly p hpm
    cases hf : properties.find? fun q => bytes q.1 == p.1 with
    | none =>
      have := List.find?_eq_none.1 hf q hq
      simp [he] at this
    | some q' =>
      have hq' := List.mem_of_find?_eq_some hf
      have he' : bytes q'.1 = p.1 := by simpa using List.find?_some hf
      have hv : (Json.object members).find? q'.1 = some p.2 := by
        have := lookup_of_mem hm hpm
        rwa [← he'] at this
      simpa using hprop q' hq' p.2 hv

/-! ### Single arguments -/

theorem conforms_stringArgument {maxLength : Json} {maximum : Nat} (h : maxLength.integer? = some (maximum : Int))
    (description : String) (v : Json) :
    conforms (stringArgument maxLength description) v = true ↔
      ∃ s, v = .string s ∧ s ≠ [] ∧ s.length ≤ maximum := by
  have htype : List.lookup "type" [("type", Json.text "string"), ("minLength", .numberInteger 1),
    ("maxLength", maxLength), ("description", .text description)] = some (.text "string") := rfl
  have hbounds (s : Bytes) : conforms (stringArgument maxLength description) (.string s) = true ↔
      s ≠ [] ∧ s.length ≤ maximum := by
    have hlow : (stringArgument maxLength description).find? "minLength" = some (.numberInteger 1) := by
      simp [stringArgument, List.lookup_cons]
    have hhigh : (stringArgument maxLength description).find? "maxLength" = some maxLength := by
      simp [stringArgument, List.lookup_cons]
    rw [conforms_string, stringArgument, conformsTop_ofPairs, typeAllows_ofPairs htype, ← stringArgument, boundsAllow,
      withinBounds, hlow, hhigh, Option.bind_some, Option.bind_some, h, ← List.length_pos_iff]
    simp only [hasType, beq_self_eq_true, Bool.true_and, integer?, Option.all_some, Bool.and_eq_true,
      decide_eq_true_eq]
    omega
  constructor
  · intro hv
    have ht := hasType_of_conforms htype hv
    cases v with
    | string s => exact ⟨s, rfl, (hbounds s).1 hv⟩
    | _ => simp [hasType] at ht
  · rintro ⟨s, rfl, hs⟩
    exact (hbounds s).2 hs

/-- A bounded integer argument. -/
theorem conforms_integerArgument {properties : List (String × Json)} {maximum : Nat}
    (ht : properties.lookup "type" = some (.text "integer")) (hl : properties.lookup "minimum" = some (.numberInteger 1))
    (hh : properties.lookup "maximum" = some (.numberUnsigned maximum)) (v : Json) :
    conforms (.ofPairs properties) v = true ↔ ∃ i, v.integer? = some i ∧ 1 ≤ i ∧ i ≤ maximum := by
  have hbounds (i : Int) : withinBounds (.ofPairs properties) "minimum" "maximum" i = true ↔ 1 ≤ i ∧ i ≤ maximum := by
    simp [withinBounds, hl, hh, integer?]
  constructor
  · intro hv
    have htype := hasType_of_conforms ht hv
    cases v with
    | numberInteger i =>
      rw [conforms_numberInteger, conformsTop_ofPairs, Bool.and_eq_true] at hv
      exact ⟨i, rfl, (hbounds i).1 hv.2⟩
    | numberUnsigned n =>
      rw [conforms_numberUnsigned, conformsTop_ofPairs, Bool.and_eq_true] at hv
      exact ⟨n, rfl, (hbounds n).1 hv.2⟩
    | _ => simp [hasType] at htype
  · rintro ⟨i, hi, hb⟩
    cases v with
    | numberInteger j =>
      rw [conforms_numberInteger, conformsTop_ofPairs, typeAllows_ofPairs ht, Bool.and_eq_true]
      exact ⟨rfl, (hbounds j).2 (Option.some.inj hi ▸ hb)⟩
    | numberUnsigned n =>
      rw [conforms_numberUnsigned, conformsTop_ofPairs, typeAllows_ofPairs ht, Bool.and_eq_true]
      exact ⟨rfl, (hbounds n).2 (Option.some.inj hi ▸ hb)⟩
    | _ => cases hi

theorem conforms_booleanArgument {properties : List (String × Json)}
    (ht : properties.lookup "type" = some (.text "boolean")) (v : Json) :
    conforms (.ofPairs properties) v = true ↔ ∃ b, v = .boolean b := by
  constructor
  · intro hv
    have htype := hasType_of_conforms ht hv
    cases v with
    | boolean b => exact ⟨b, rfl⟩
    | _ => simp [hasType] at htype
  · rintro ⟨b, rfl⟩
    rw [conforms_boolean, conformsTop_ofPairs, typeAllows_ofPairs ht]
    rfl

theorem requiredString_eq_some {arguments : Json} {name : String} {s : Bytes} :
    requiredString arguments name = some s ↔ arguments.find? name = some (.string s) ∧ s ≠ [] := by
  unfold requiredString
  cases hf : arguments.find? name with
  | none => simp
  | some v =>
    cases v with
    | string t =>
      cases t with
      | nil =>
        simp only [Option.bind_some, reduceCtorEq, false_iff, Option.some.injEq, Json.string.injEq, not_and, not_not]
        exact fun h => h.symm
      | cons b t =>
        simp only [Option.bind_some, Option.some.injEq, Json.string.injEq, iff_self_and]
        intro h
        rw [← h]
        exact List.cons_ne_nil b t
    | _ => simp

theorem optionalBoundedSize_some {members : List (Bytes × Json)} (fallback : Nat) (hm : ParsedMembers members)
    {name : String} {maximum : Nat} (hc : ∀ v, (Json.object members).find? name = some v →
      ∃ i, v.integer? = some i ∧ 1 ≤ i ∧ i ≤ maximum) :
    ∃ n, optionalBoundedSize (.object members) name fallback maximum = some n ∧ (n = fallback ∨ n ≠ 0 ∧ n ≤ maximum) := by
  unfold optionalBoundedSize
  cases hf : (Json.object members).find? name with
  | none => exact ⟨fallback, rfl, .inl rfl⟩
  | some v =>
    obtain ⟨i, hi, hlow, hhigh⟩ := hc v hf
    cases v with
    | numberInteger j =>
      have := hm.unsigned _ (mem_of_find? hf) j rfl
      have := Option.some.inj hi
      omega
    | numberUnsigned n =>
      have hn : (n : Int) = i := Option.some.inj hi
      have hr : ¬ (n = 0 ∨ maximum < n) := by omega
      exact ⟨n, by simp only [if_neg hr], .inr (by omega)⟩
    | _ => cases hi

theorem integer_of_optionalBoundedSize {arguments : Json} {name : String} {fallback maximum n : Nat}
    (h : optionalBoundedSize arguments name fallback maximum = some n) {v : Json} (hv : arguments.find? name = some v) :
    ∃ i, v.integer? = some i ∧ 1 ≤ i ∧ i ≤ maximum := by
  unfold optionalBoundedSize at h
  rw [hv] at h
  cases v with
  | numberUnsigned raw =>
    simp only at h
    split at h
    · cases h
    · exact ⟨raw, rfl, by omega, by omega⟩
  | _ => cases h

theorem optionalBoolean_some {arguments : Json} {name : String} (fallback : Bool)
    (hc : ∀ v, arguments.find? name = some v → ∃ b, v = .boolean b) :
    ∃ b, optionalBoolean arguments name fallback = some b := by
  unfold optionalBoolean
  cases hf : arguments.find? name with
  | none => exact ⟨fallback, rfl⟩
  | some v =>
    obtain ⟨b, rfl⟩ := hc v hf
    exact ⟨b, rfl⟩

theorem boolean_of_optionalBoolean {arguments : Json} {name : String} {fallback b : Bool}
    (h : optionalBoolean arguments name fallback = some b) {v : Json} (hv : arguments.find? name = some v) :
    ∃ b, v = .boolean b := by
  unfold optionalBoolean at h
  rw [hv] at h
  cases v with
  | boolean b => exact ⟨b, rfl⟩
  | _ => cases h

/-! ### Errors -/

def IsInvalidArguments (r : ToolExecutionResult) : Prop := ∃ message, r = toolError "invalid_arguments" message

theorem toolError_code_inj {code code' : String} {message message' : Bytes}
    (h : toolError code message = toolError code' message') : code = code' := by
  have hcode (code : String) (message : Bytes) :
      ((toolError code message).structuredContent.find? "error").bind (·.find? "code") = some (.text code) := by
    simp [toolError]
  have := hcode code message
  rw [h, hcode code' message'] at this
  exact (Utf8.bytes_inj.1 (Json.string.inj (Option.some.inj this))).symm

theorem not_isInvalidArguments_of_policyError (failure : PolicyError) :
    ¬ IsInvalidArguments (policyErrorResult failure) := by
  rintro ⟨message, h⟩
  have hcode := toolError_code_inj h
  cases hc : failure.code <;> simp [hc, policyErrorName] at hcode

theorem not_isInvalidArguments_of_elfError (failure : ElfAnalysisError) :
    ¬ IsInvalidArguments (elfErrorResult failure) := by
  rintro ⟨message, h⟩
  have hcode := toolError_code_inj h
  cases hc : failure.code <;> simp [hc, elfAnalysisErrorName] at hcode

theorem not_isInvalidArguments_of_processError (failure : ProcessMemoryError) :
    ¬ IsInvalidArguments (processErrorResult failure) := by
  rintro ⟨message, h⟩
  have hcode := toolError_code_inj h
  cases hc : failure.code <;> simp [hc, processMemoryErrorName] at hcode

theorem code_of_analysisError {failure : LogAnalysisError} (h : IsInvalidArguments (analysisErrorResult failure)) :
    failure.code = .invalidArguments := by
  obtain ⟨message, h⟩ := h
  have hcode := toolError_code_inj h
  cases hc : failure.code <;> simp [hc, logAnalysisErrorName] at hcode ⊢

theorem not_isInvalidArguments_of_ok (content : Json) : ¬ IsInvalidArguments ⟨false, content⟩ := by
  rintro ⟨message, h⟩
  cases h

/-! ### When the analyzer refuses -/

theorem code_of_readLoop {σ : Type} {limits : LogAnalysisLimits} {file : ReadOnlyFile} {offset : σ → Nat}
    {stop : σ → Bool} {consume : σ → Bytes → σ} {s : σ} {turns : List ReadTurn} {e : LogAnalysisError}
    (h : LogAnalyzer.readLoop limits file offset stop consume s turns = some (.error e)) :
    e.code ≠ .invalidArguments := by
  induction turns generalizing s with
  | nil =>
    unfold LogAnalyzer.readLoop at h
    split at h <;> cases h
  | cons turn turns ih =>
    unfold LogAnalyzer.readLoop at h
    split at h
    · split at h
      · rename_i stopped hstop
        rw [← Except.error.inj (Option.some.inj h)]
        cases hr : turn.stopReason <;> rw [hr] at hstop <;> cases hstop <;> simp [LogAnalyzer.error]
      · dsimp only at h
        split at h
        · exact ih h
        · rw [← Except.error.inj (Option.some.inj h)]
          simp [LogAnalyzer.error]
        · split at h
          · cases h
          · exact ih h
    · cases h

private theorem code_of_stop {stopReason : OperationStopReason} {e : LogAnalysisError}
    (h : LogAnalyzer.operationError stopReason = some e) : e.code ≠ .invalidArguments := by
  cases stopReason <;> cases h <;> simp [LogAnalyzer.error]

theorem search_refused {limits : LogAnalysisLimits} {file : ReadOnlyFile} {options : LogSearchOptions}
    {stopReason : OperationStopReason} {turns : List ReadTurn} {e : LogAnalysisError}
    (h : LogAnalyzer.search limits file options stopReason turns = some (.error e)) (he : e.code = .invalidArguments) :
    LogAnalyzer.searchAccepted limits options = false := by
  unfold LogAnalyzer.search at h
  split at h
  · rename_i hstop
    rw [← Except.error.inj (Option.some.inj h)] at he
    exact absurd he (code_of_stop hstop)
  split at h
  · rename_i hacc
    simpa using hacc
  split at h
  · rw [← Except.error.inj (Option.some.inj h)] at he
    simp [LogAnalyzer.error] at he
  · obtain ⟨outcome, hloop, ho⟩ := Option.map_eq_some_iff.1 h
    cases outcome with
    | ok r => cases ho
    | error e' =>
      rw [← Except.error.inj ho] at he
      exact absurd he (code_of_readLoop hloop)

theorem tail_refused {limits : LogAnalysisLimits} {file : ReadOnlyFile} {options : LogTailOptions}
    {stopReason : OperationStopReason} {turns : List ReadTurn} {e : LogAnalysisError}
    (h : LogAnalyzer.tail limits file options stopReason turns = some (.error e)) (he : e.code = .invalidArguments) :
    LogAnalyzer.tailAccepted limits options = false := by
  unfold LogAnalyzer.tail at h
  split at h
  · rename_i hstop
    rw [← Except.error.inj (Option.some.inj h)] at he
    exact absurd he (code_of_stop hstop)
  split at h
  · rename_i hacc
    simpa using hacc
  split at h
  · rw [← Except.error.inj (Option.some.inj h)] at he
    simp [LogAnalyzer.error] at he
  · obtain ⟨outcome, hloop, ho⟩ := Option.map_eq_some_iff.1 h
    cases outcome with
    | ok r => cases ho
    | error e' =>
      rw [← Except.error.inj ho] at he
      exact absurd he (code_of_readLoop hloop)

/-! ### The tools one by one -/

/-- What no query may contain. -/
def HasTerminator (query : Bytes) : Prop :=
  0 ∈ query ∨ LogAnalyzer.newline ∈ query ∨ LogAnalyzer.carriageReturn ∈ query

/-- The limits of a service admit what its schemas admit, and no more: the paths and names of its policies are no longer than
the schemas say, and its analyzer takes the default counts. -/
structure Service.LimitsAgree (service : Service) : Prop where
  path : ∀ p, service.filesystem = some p → p.maxPathBytes ≤ 4096
  processName : ∀ p, service.process = some p → p.maxNameBytes ≤ 64
  defaultMatches : 20 ≤ service.logLimits.maxMatches
  defaultLines : 20 ≤ service.logLimits.maxTailLines
  preview : service.logLimits.maxPreviewBytes ≠ 0
  chunk : service.logLimits.readChunkBytes ≠ 0

section Tools

variable {members : List (Bytes × Json)} {policy : FilesystemPolicy} {limits : LogAnalysisLimits} {s : Surroundings}
  {r : ToolExecutionResult}

/-- A string argument that conforms is there for `required_string`. -/
private theorem requiredString_of_conforms {arguments maxLength : Json} {name description : String} (maximum : Nat)
    (hmax : maxLength.integer? = some (maximum : Int)) (hreq : (arguments.find? name).isSome = true)
    (hc : ∀ v, arguments.find? name = some v → conforms (stringArgument maxLength description) v = true) :
    ∃ s, requiredString arguments name = some s ∧ s.length ≤ maximum := by
  obtain ⟨v, hv⟩ := Option.isSome_iff_exists.1 hreq
  obtain ⟨s, rfl, hs, hl⟩ := (conforms_stringArgument hmax description v).1 (hc v hv)
  exact ⟨s, requiredString_eq_some.2 ⟨hv, hs⟩, hl⟩

private theorem conforms_of_requiredString {arguments maxLength v : Json} {name description : String} {maximum : Nat}
    {s : Bytes} (hmax : maxLength.integer? = some (maximum : Int)) (hs : requiredString arguments name = some s)
    (hl : s.length ≤ maximum) (hv : arguments.find? name = some v) :
    conforms (stringArgument maxLength description) v = true := by
  obtain ⟨hf, hne⟩ := requiredString_eq_some.1 hs
  rw [hf] at hv
  exact (conforms_stringArgument hmax description v).2 ⟨s, (Option.some.inj hv).symm, hne, hl⟩

/-- What the schema and the checks say of the root and the path. -/
private theorem root_path_of_conforms {properties : List (String × Json)} {required : List String}
    (hm : Sorted members) (hp : (properties.map (·.1)).Nodup) (hroot : ("root", rootArgument) ∈ properties)
    (hpath : ("path", pathArgument) ∈ properties) (hr : "root" ∈ required) (hr' : "path" ∈ required)
    (hc : conforms (closedObjectOf properties required) (.object members) = true) :
    (∃ root, requiredString (.object members) "root" = some root) ∧
      ∃ path, requiredString (.object members) "path" = some path := by
  obtain ⟨-, hreq, hprop⟩ := (conforms_closedObjectOf hm hp).1 hc
  obtain ⟨root, h, -⟩ := requiredString_of_conforms 64 rfl (hreq _ hr) (hprop _ hroot)
  obtain ⟨path, h', -⟩ := requiredString_of_conforms 4096 rfl (hreq _ hr') (hprop _ hpath)
  exact ⟨⟨root, h⟩, path, h'⟩

private theorem queryIsValid_of_not_terminator {query : Bytes} (hne : query ≠ [])
    (hl : query.length ≤ limits.maxQueryBytes) (ht : ¬ HasTerminator query) :
    LogAnalyzer.queryIsValid query limits = true := by
  unfold LogAnalyzer.queryIsValid
  rw [if_neg (by simp [hne, hl])]
  simp only [HasTerminator, not_or] at ht
  simp [ht]

theorem executeSearch_invalid (hm : ParsedMembers members) (hd : 20 ≤ limits.maxMatches)
    (hp : limits.maxPreviewBytes ≠ 0) (hk : limits.readChunkBytes ≠ 0)
    (hc : conforms (searchInputSchema limits) (.object members) = true)
    (hr : executeSearch policy limits (.object members) s = some r) (hi : IsInvalidArguments r) :
    ∃ query, (Json.object members).find? "query" = some (.string query) ∧ HasTerminator query := by
  obtain ⟨⟨root, hroot⟩, path, hpath⟩ := root_path_of_conforms hm.sorted (by simp) (by simp) (by simp) (by simp)
    (by simp) hc
  obtain ⟨honly, hreq, hprop⟩ := (conforms_closedObjectOf hm.sorted (by simp)).1 hc
  simp only [List.forall_mem_cons] at hprop
  obtain ⟨-, -, hpquery, hpcase, hpmatches, -⟩ := hprop
  obtain ⟨query, hquery, hlen⟩ := requiredString_of_conforms limits.maxQueryBytes rfl
    (hreq "query" (by simp)) hpquery
  obtain ⟨caseSensitive, hcase⟩ := optionalBoolean_some true fun v hv =>
    (conforms_booleanArgument rfl v).1 (hpcase v hv)
  obtain ⟨maxMatches, hmatches, hbound⟩ := optionalBoundedSize_some 20 hm fun v hv =>
    (conforms_integerArgument rfl rfl rfl v).1 (hpmatches v hv)
  obtain ⟨hfind, hne⟩ := requiredString_eq_some.1 hquery
  refine ⟨query, hfind, ?_⟩
  by_contra hterm
  have haccept : LogAnalyzer.searchAccepted limits ⟨query, caseSensitive, maxMatches⟩ = true := by
    simp only [LogAnalyzer.searchAccepted, queryIsValid_of_not_terminator hne hlen hterm, Bool.true_and,
      Bool.and_eq_true, bne_iff_ne, decide_eq_true_eq]
    omega
  simp only [executeSearch, isObject, Bool.not_true, Bool.false_or, Bool.not_eq_true'] at hr
  rw [if_neg (by rw [Bool.not_eq_false]; exact honly), hroot, hpath, hquery, hcase, hmatches] at hr
  dsimp only at hr
  split at hr
  · rw [← Option.some.inj hr] at hi
    exact not_isInvalidArguments_of_policyError _ hi
  · obtain ⟨outcome, hsearch, ho⟩ := Option.map_eq_some_iff.1 hr
    cases outcome with
    | error e =>
      rw [← ho] at hi
      have := search_refused hsearch (code_of_analysisError hi)
      rw [haccept] at this
      cases this
    | ok result =>
      rw [← ho] at hi
      exact not_isInvalidArguments_of_ok _ hi

/-- What a file that was opened says of the root and the path. -/
private theorem conforms_root_path {opened : RootHandle → Except PolicyError ReadOnlyFile} {file : ReadOnlyFile}
    {arguments : Json} {root path : Bytes} (hpath : policy.maxPathBytes ≤ 4096)
    (hroot : requiredString arguments "root" = some root) (hpath' : requiredString arguments "path" = some path)
    (hopen : policy.openRegularFile root path opened = .ok file) :
    (∀ v, arguments.find? "root" = some v → conforms rootArgument v = true) ∧
      ∀ v, arguments.find? "path" = some v → conforms pathArgument v = true := by
  obtain ⟨hname, hlen⟩ := openRegularFile_ok hopen
  have hroot' : root.length ≤ 64 := by
    simp only [validRootName, Bool.and_eq_true, decide_eq_true_eq] at hname
    exact hname.1.2
  exact ⟨fun v hv => conforms_of_requiredString rfl hroot hroot' hv,
    fun v hv => conforms_of_requiredString rfl hpath' (hlen.trans hpath) hv⟩

theorem executeSearch_ok (hm : Sorted members) (hpath : policy.maxPathBytes ≤ 4096)
    (hr : executeSearch policy limits (.object members) s = some r) (hok : r.isError = false) :
    conforms (searchInputSchema limits) (.object members) = true := by
  have hbad {message : String} (h : some (invalidArguments message) = some r) : False := by
    rw [← Option.some.inj h] at hok
    cases hok
  unfold executeSearch at hr
  split at hr
  · exact (hbad hr).elim
  rename_i hfields
  split at hr
  rotate_left
  · exact (hbad hr).elim
  rename_i root path query hroot hpath' hquery
  split at hr
  · exact (hbad hr).elim
  rename_i caseSensitive hcase
  split at hr
  · exact (hbad hr).elim
  rename_i maxMatches hmatches
  split at hr
  · rw [← Option.some.inj hr] at hok
    cases hok
  rename_i file hopen
  obtain ⟨hcroot, hcpath⟩ := conforms_root_path hpath hroot hpath' hopen
  obtain ⟨outcome, hsearch, ho⟩ := Option.map_eq_some_iff.1 hr
  cases outcome with
  | error e =>
    rw [← ho] at hok
    cases hok
  | ok result =>
    have haccept := (LogAnalyzer.search_ok hsearch).1
    simp only [LogAnalyzer.searchAccepted, LogAnalyzer.queryIsValid, Bool.and_eq_true] at haccept
    have hquery' : query.length ≤ limits.maxQueryBytes := by
      by_contra hlt
      simp [Nat.lt_of_not_le hlt] at haccept
    simp only [isObject, Bool.not_true, Bool.false_or, Bool.not_eq_true', Bool.not_eq_false] at hfields
    refine (conforms_closedObjectOf hm (by simp)).2 ⟨hfields, ?_, ?_⟩
    · simp only [List.forall_mem_cons]
      simp [(requiredString_eq_some.1 hroot).1, (requiredString_eq_some.1 hpath').1, (requiredString_eq_some.1 hquery).1]
    · simp only [List.forall_mem_cons]
      refine ⟨hcroot, hcpath, fun v hv => ?_, fun v hv => ?_, fun v hv => ?_, by simp⟩
      · exact conforms_of_requiredString rfl hquery hquery' hv
      · exact (conforms_booleanArgument rfl v).2 (boolean_of_optionalBoolean hcase hv)
      · exact (conforms_integerArgument rfl rfl rfl v).2 (integer_of_optionalBoundedSize hmatches hv)

theorem executeTail_invalid (hm : ParsedMembers members) (hd : 20 ≤ limits.maxTailLines)
    (hp : limits.maxPreviewBytes ≠ 0) (hk : limits.readChunkBytes ≠ 0)
    (hc : conforms (tailInputSchema limits) (.object members) = true)
    (hr : executeTail policy limits (.object members) s = some r) : ¬ IsInvalidArguments r := by
  intro hi
  obtain ⟨⟨root, hroot⟩, path, hpath⟩ := root_path_of_conforms hm.sorted (by simp) (by simp) (by simp) (by simp)
    (by simp) hc
  obtain ⟨honly, hreq, hprop⟩ := (conforms_closedObjectOf hm.sorted (by simp)).1 hc
  simp only [List.forall_mem_cons] at hprop
  obtain ⟨-, -, hplines, -⟩ := hprop
  obtain ⟨maxLines, hlines, hbound⟩ := optionalBoundedSize_some 20 hm fun v hv =>
    (conforms_integerArgument rfl rfl rfl v).1 (hplines v hv)
  have haccept : LogAnalyzer.tailAccepted limits ⟨maxLines⟩ = true := by
    simp only [LogAnalyzer.tailAccepted, Bool.and_eq_true, bne_iff_ne, decide_eq_true_eq]
    omega
  simp only [executeTail, isObject, Bool.not_true, Bool.false_or, Bool.not_eq_true'] at hr
  rw [if_neg (by rw [Bool.not_eq_false]; exact honly), hroot, hpath, hlines] at hr
  dsimp only at hr
  split at hr
  · rw [← Option.some.inj hr] at hi
    exact not_isInvalidArguments_of_policyError _ hi
  · obtain ⟨outcome, htail, ho⟩ := Option.map_eq_some_iff.1 hr
    cases outcome with
    | error e =>
      rw [← ho] at hi
      have := tail_refused htail (code_of_analysisError hi)
      rw [haccept] at this
      cases this
    | ok result =>
      rw [← ho] at hi
      exact not_isInvalidArguments_of_ok _ hi

theorem executeTail_ok (hm : Sorted members) (hpath : policy.maxPathBytes ≤ 4096)
    (hr : executeTail policy limits (.object members) s = some r) (hok : r.isError = false) :
    conforms (tailInputSchema limits) (.object members) = true := by
  have hbad {message : String} (h : some (invalidArguments message) = some r) : False := by
    rw [← Option.some.inj h] at hok
    cases hok
  unfold executeTail at hr
  split at hr
  · exact (hbad hr).elim
  rename_i hfields
  split at hr
  rotate_left
  · exact (hbad hr).elim
  rename_i root path hroot hpath'
  split at hr
  · exact (hbad hr).elim
  rename_i maxLines hlines
  split at hr
  · rw [← Option.some.inj hr] at hok
    cases hok
  rename_i file hopen
  obtain ⟨hcroot, hcpath⟩ := conforms_root_path hpath hroot hpath' hopen
  simp only [isObject, Bool.not_true, Bool.false_or, Bool.not_eq_true', Bool.not_eq_false] at hfields
  refine (conforms_closedObjectOf hm (by simp)).2 ⟨hfields, ?_, ?_⟩
  · simp [(requiredString_eq_some.1 hroot).1, (requiredString_eq_some.1 hpath').1]
  · simp only [List.forall_mem_cons]
    refine ⟨hcroot, hcpath, fun v hv => ?_, by simp⟩
    exact (conforms_integerArgument rfl rfl rfl v).2 (integer_of_optionalBoundedSize hlines hv)

theorem executeElf_invalid (hm : Sorted members) (hc : conforms elfInputSchema (.object members) = true) :
    ¬ IsInvalidArguments (executeElf policy (.object members) s) := by
  obtain ⟨⟨root, hroot⟩, path, hpath⟩ := root_path_of_conforms hm (by simp) (by simp) (by simp) (by simp) (by simp) hc
  obtain ⟨honly, -, -⟩ := (conforms_closedObjectOf hm (by simp)).1 hc
  simp only [executeElf, isObject, Bool.not_true, Bool.false_or, Bool.not_eq_true']
  rw [if_neg (by rw [Bool.not_eq_false]; exact honly), hroot, hpath]
  dsimp only
  split
  · exact not_isInvalidArguments_of_policyError _
  · split
    · exact not_isInvalidArguments_of_elfError _
    · exact not_isInvalidArguments_of_ok _

theorem executeElf_ok (hm : Sorted members) (hpath : policy.maxPathBytes ≤ 4096)
    (hok : (executeElf policy (.object members) s).isError = false) :
    conforms elfInputSchema (.object members) = true := by
  unfold executeElf at hok
  split at hok
  · cases hok
  rename_i hfields
  split at hok
  rotate_left
  · cases hok
  rename_i root path hroot hpath'
  split at hok
  · cases hok
  rename_i file hopen
  obtain ⟨hcroot, hcpath⟩ := conforms_root_path hpath hroot hpath' hopen
  simp only [isObject, Bool.not_true, Bool.false_or, Bool.not_eq_true', Bool.not_eq_false] at hfields
  refine (conforms_closedObjectOf hm (by simp)).2 ⟨hfields, ?_, ?_⟩
  · simp [(requiredString_eq_some.1 hroot).1, (requiredString_eq_some.1 hpath').1]
  · simp only [List.forall_mem_cons]
    exact ⟨hcroot, hcpath, by simp⟩

theorem executeProcess_invalid {inspectMemory : Bytes → Outcome ProcessMemoryResult} (hm : Sorted members)
    (hc : conforms processInputSchema (.object members) = true) :
    ¬ IsInvalidArguments (executeProcess inspectMemory (.object members)) := by
  obtain ⟨honly, hreq, hprop⟩ := (conforms_closedObjectOf hm (by simp)).1 hc
  obtain ⟨process, hprocess, -⟩ := requiredString_of_conforms 64 rfl (hreq "process" (by simp))
    (hprop _ (List.mem_cons_self ..))
  simp only [executeProcess, isObject, Bool.not_true, Bool.false_or, Bool.not_eq_true']
  rw [if_neg (by rw [Bool.not_eq_false]; exact honly), hprocess]
  dsimp only
  split
  · exact not_isInvalidArguments_of_processError _
  · exact not_isInvalidArguments_of_ok _

theorem executeProcess_ok {inspectMemory : Bytes → Outcome ProcessMemoryResult} (hm : Sorted members)
    (hname : ∀ name result, inspectMemory name = .ok result → name.length ≤ 64)
    (hok : (executeProcess inspectMemory (.object members)).isError = false) :
    conforms processInputSchema (.object members) = true := by
  unfold executeProcess at hok
  split at hok
  · cases hok
  rename_i hfields
  split at hok
  · cases hok
  rename_i process hprocess
  split at hok
  · cases hok
  rename_i result hresult
  simp only [isObject, Bool.not_true, Bool.false_or, Bool.not_eq_true', Bool.not_eq_false] at hfields
  refine (conforms_closedObjectOf hm (by simp)).2 ⟨hfields, ?_, ?_⟩
  · simp [(requiredString_eq_some.1 hprocess).1]
  · simp only [List.forall_mem_cons]
    exact ⟨fun v hv => conforms_of_requiredString rfl hprocess (hname _ _ hresult) hv, by simp⟩

/-- A process that is observed has a configured name. -/
theorem length_of_inspectMemory {processes : ProcessPolicy} (h : processes.maxNameBytes ≤ 64) {name : Bytes}
    {o : Observation} {result : ProcessMemoryResult} (hr : processes.inspectMemory name o = .ok result) :
    name.length ≤ 64 := by
  unfold ProcessPolicy.inspectMemory at hr
  split at hr
  · cases hr
  split at hr
  · cases hr
  · rename_i target hfind
    have hname : target.name = name := by simpa using List.find?_some hfind
    have hvalid := processes.valid target (List.mem_of_find?_eq_some hfind)
    simp only [validProcessName, Bool.and_eq_true, decide_eq_true_eq] at hvalid
    rw [← hname]
    exact hvalid.1.2.trans h

end Tools

/-! ### Main result -/

private theorem find?_closeOutputSchema {definition : Json} {key : String} (h : key ≠ "outputSchema") :
    (ToolService.closeOutputSchema definition).find? key = definition.find? key := by
  cases definition with
  | object members =>
    show List.lookup (bytes key) (members.map _) = List.lookup (bytes key) members
    induction members with
    | nil => rfl
    | cons p members ih =>
      rw [List.map_cons, List.lookup_cons, List.lookup_cons, ih]
      by_cases hk : bytes key = p.1
      · have hne : p.1 ≠ bytes "outputSchema" := by
          rw [← hk]
          exact fun e => h (Utf8.bytes_inj.1 e)
        rw [if_neg hne]
      · rw [beq_false_of_ne hk]
  | _ => rfl

/-- The name and the input schema of an advertised tool. -/
private theorem advertised_cases {service : Service} {definitions : List Json}
    (hds : service.tools.toolDefinitions = .array definitions) {definition schema : Json} {name : Bytes}
    (hd : definition ∈ definitions) (hn : definition.find? "name" = some (.string name))
    (hs : definition.find? "inputSchema" = some schema) :
    (∃ policy, service.filesystem = some policy ∧
      (name = bytes kSearchTool ∧ schema = searchInputSchema service.logLimits ∨
        name = bytes kTailTool ∧ schema = tailInputSchema service.logLimits ∨
        name = bytes kElfInspectTool ∧ schema = elfInputSchema)) ∨
      ∃ policy, service.process = some policy ∧ name = bytes kProcessMemoryTool ∧ schema = processInputSchema := by
  rw [ToolService.toolDefinitions, Json.array.injEq] at hds
  rw [← hds, List.mem_map] at hd
  obtain ⟨d, hd, rfl⟩ := hd
  rw [find?_closeOutputSchema (by decide)] at hn hs
  have hfields (n t e : String) (i o : Json) (h : d = toolDefinition n t e i o) : name = bytes n ∧ schema = i := by
    have hname : d.find? "name" = some (Json.text n) := by
      rw [h, toolDefinition, find?_ofPairs]
      rfl
    have hschema : d.find? "inputSchema" = some i := by
      rw [h, toolDefinition, find?_ofPairs]
      rfl
    exact ⟨(Json.string.inj (Option.some.inj (hname.symm.trans hn))).symm, (Option.some.inj (hschema.symm.trans hs)).symm⟩
  rcases List.mem_append.1 hd with hd | hd
  · left
    cases hf : service.filesystem with
    | none => simp [Service.tools, hf] at hd
    | some policy =>
      refine ⟨policy, rfl, ?_⟩
      simp only [Service.tools, hf, Option.isSome_some, if_true, List.mem_cons, List.not_mem_nil, or_false] at hd
      rcases hd with hd | hd | hd
      · exact .inl (hfields _ _ _ _ _ hd)
      · exact .inr (.inl (hfields _ _ _ _ _ hd))
      · exact .inr (.inr (hfields _ _ _ _ _ hd))
  · right
    cases hp : service.process with
    | none => simp [Service.tools, hp] at hd
    | some policy =>
      simp only [Service.tools, hp, Option.isSome_some, if_true, List.mem_singleton] at hd
      exact ⟨policy, rfl, hfields _ _ _ _ _ hd⟩

private theorem execute_granted {service : Service} {name : Bytes} {arguments : Json} {s : Surroundings}
    {r : ToolExecutionResult} (hr : service.execute name arguments s = some r)
    (h : IsInvalidArguments r ∨ r.isError = false) : s.granted = true := by
  by_contra hg
  rw [Service.execute, if_pos (by simpa using hg)] at hr
  rw [← Option.some.inj hr] at h
  rcases h with ⟨message, h⟩ | h
  · exact absurd (toolError_code_inj h) (by decide)
  · cases h

/-- The advertised schema and the checks agree, but for the terminators that no schema excludes: arguments that conform are
refused as invalid only where they are a search for a query with one, and arguments that get a result conform. -/
theorem inputSchema_agrees {service : Service} (hl : service.LimitsAgree) {definitions : List Json}
    (hds : service.tools.toolDefinitions = .array definitions) {definition schema : Json} {name : Bytes}
    (hd : definition ∈ definitions) (hn : definition.find? "name" = some (.string name))
    (hs : definition.find? "inputSchema" = some schema) {members : List (Bytes × Json)} (hm : ParsedMembers members)
    {s : Surroundings} {r : ToolExecutionResult} (hr : service.execute name (.object members) s = some r) :
    (conforms schema (.object members) = true → IsInvalidArguments r → name = bytes kSearchTool ∧
      ∃ query, (Json.object members).find? "query" = some (.string query) ∧ HasTerminator query) ∧
    (r.isError = false → conforms schema (.object members) = true) := by
  have hgranted (h : IsInvalidArguments r ∨ r.isError = false) := execute_granted hr h
  have hne : bytes kTailTool ≠ bytes kSearchTool ∧ bytes kElfInspectTool ≠ bytes kSearchTool ∧
      bytes kElfInspectTool ≠ bytes kTailTool ∧ bytes kProcessMemoryTool ≠ bytes kSearchTool ∧
      bytes kProcessMemoryTool ≠ bytes kTailTool ∧ bytes kProcessMemoryTool ≠ bytes kElfInspectTool := by
    simp only [ne_eq, Utf8.bytes_inj]
    decide
  rcases advertised_cases hds hd hn hs with ⟨policy, hp, ⟨rfl, rfl⟩ | ⟨rfl, rfl⟩ | ⟨rfl, rfl⟩⟩ | ⟨policy, hp, rfl, rfl⟩
  · have hrun (hg : s.granted = true) : executeSearch policy service.logLimits (.object members) s = some r := by
      simpa [Service.execute, hg, hp] using hr
    exact ⟨fun hc hi => ⟨rfl, executeSearch_invalid hm hl.defaultMatches hl.preview hl.chunk hc (hrun (hgranted (.inl hi))) hi⟩,
      fun hok => executeSearch_ok hm.sorted (hl.path _ hp) (hrun (hgranted (.inr hok))) hok⟩
  · have hrun (hg : s.granted = true) : executeTail policy service.logLimits (.object members) s = some r := by
      simpa [Service.execute, hg, hp, hne.1] using hr
    refine ⟨fun hc hi => ?_, fun hok => executeTail_ok hm.sorted (hl.path _ hp) (hrun (hgranted (.inr hok))) hok⟩
    exact absurd hi (executeTail_invalid hm hl.defaultLines hl.preview hl.chunk hc (hrun (hgranted (.inl hi))))
  · have hrun (hg : s.granted = true) : executeElf policy (.object members) s = r := by
      simpa [Service.execute, hg, hp, hne.2.1, hne.2.2.1] using hr
    refine ⟨fun hc hi => ?_, fun hok => ?_⟩
    · rw [← hrun (hgranted (.inl hi))] at hi
      exact absurd hi (executeElf_invalid hm.sorted hc)
    · rw [← hrun (hgranted (.inr hok))] at hok
      exact executeElf_ok hm.sorted (hl.path _ hp) hok
  · have hrun (hg : s.granted = true) :
        executeProcess (policy.inspectMemory · s.observation) (.object members) = r := by
      simpa [Service.execute, hg, hp, hne.2.2.2] using hr
    refine ⟨fun hc hi => ?_, fun hok => ?_⟩
    · rw [← hrun (hgranted (.inl hi))] at hi
      exact absurd hi (executeProcess_invalid hm.sorted hc)
    · rw [← hrun (hgranted (.inr hok))] at hok
      exact executeProcess_ok hm.sorted (fun _ _ h => length_of_inspectMemory (hl.processName _ hp) h) hok

/-- A service with the one root `r`. -/
private def smallService : Service where
  filesystem := some { roots := [⟨bytes "r", 100⟩], valid := by decide +kernel }

private theorem smallService_limitsAgree : smallService.LimitsAgree where
  path p hp := by
    cases hp
    exact Nat.le_refl _
  processName p hp := by cases hp
  defaultMatches := by decide
  defaultLines := by decide
  preview := by decide
  chunk := by decide

/-- The file at every path is empty. -/
private def smallSurroundings : Surroundings where
  granted := true
  opened _ _ := .ok ⟨[], 0, 100, some 0⟩
  stopReason := .none
  turns := []
  inspected _ := .error ⟨.invalidFormat, []⟩
  observation := ⟨.none, false, .ok [], .ok [], 0, 0, .ok [], .ok [], .ok [], false⟩

theorem inputSchema_agrees_elf :
    conforms elfInputSchema (.object [(bytes "path", .text "f"), (bytes "root", .text "r")]) = true ∧
    ∃ r, smallService.execute (bytes kElfInspectTool) (.object [(bytes "path", .text "f"), (bytes "root", .text "r")])
      smallSurroundings = some r ∧ ¬ IsInvalidArguments r := by
  have hm : ParsedMembers [(bytes "path", .text "f"), (bytes "root", .text "r")] := by
    refine ⟨List.pairwise_pair.2 (by decide +kernel), fun p hp i hi => ?_⟩
    simp only [List.mem_cons, List.not_mem_nil, or_false] at hp
    rcases hp with rfl | rfl <;> cases hi
  have hc : conforms elfInputSchema (.object [(bytes "path", .text "f"), (bytes "root", .text "r")]) = true := by
    decide +kernel
  have hd : ToolService.closeOutputSchema (elfDefinition {}) ∈
      [searchDefinition {}, tailDefinition {}, elfDefinition {}].map ToolService.closeOutputSchema :=
    List.mem_cons_of_mem _ (List.mem_cons_of_mem _ (List.mem_cons_self ..))
  have hagree := (inputSchema_agrees smallService_limitsAgree rfl hd ((find?_closeOutputSchema (by decide)).trans rfl)
    ((find?_closeOutputSchema (by decide)).trans rfl) hm (s := smallSurroundings) rfl).1 hc
  refine ⟨hc, _, rfl, fun hi => ?_⟩
  have hname := Utf8.bytes_inj.1 (hagree hi).1
  exact absurd hname (by decide)

/-- A query with a line feed conforms, and is refused as invalid. -/
theorem invalidArguments_of_conforming :
    ∃ definition ∈ [searchDefinition {}, tailDefinition {}, elfDefinition {}].map ToolService.closeOutputSchema,
      ∃ schema r, definition.find? "name" = some (.text kSearchTool) ∧ definition.find? "inputSchema" = some schema ∧
        conforms schema (.object [(bytes "path", .text "f"), (bytes "query", .text "a\nb"), (bytes "root", .text "r")]) = true ∧
        smallService.execute (bytes kSearchTool)
          (.object [(bytes "path", .text "f"), (bytes "query", .text "a\nb"), (bytes "root", .text "r")])
          smallSurroundings = some r ∧ IsInvalidArguments r := by
  refine ⟨_, List.mem_cons_self .., searchInputSchema {}, _, ?_, ?_, by decide +kernel, by with_unfolding_all rfl, _, rfl⟩
  · exact (find?_closeOutputSchema (by decide)).trans rfl
  · exact (find?_closeOutputSchema (by decide)).trans rfl

end NativeMcp
