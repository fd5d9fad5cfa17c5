import NativeMcp.Agent.Rereading
import NativeMcp.Agent.TranscriptEvents

/-!
# The round trip of a transcript event

What `parse_transcript` makes of an event that `to_json_bytes` wrote.  The reader bounds the whole value, the writer only
its parts, and the redaction cuts long metadata: the event comes back as it was exactly within these bounds
(`parse_toJsonBytes_iff`).
-/

namespace NativeMcp.Agent

/-! ### Canonical identifiers -/

section

variable {L : Library}

theorem isAscii_of_canonical {s : Str} (h : isCanonicalCallId s = true) : isAscii s = true := by
  simp only [isCanonicalCallId, Bool.and_eq_true] at h
  obtain ⟨⟨hstart, -⟩, hdigits⟩ := h
  obtain ⟨digits, rfl⟩ := List.isPrefixOf_iff_prefix.1 hstart
  have hdrop : (chars "call-" ++ digits).drop 5 = digits := rfl
  rw [hdrop, List.all_eq_true] at hdigits
  have hcall : (chars "call-").all (· < 0x80) = true := by decide +kernel
  rw [isAscii, List.all_append, hcall, Bool.true_and, List.all_eq_true]
  intro c hc
  have hdigit := hdigits c hc
  simp only [isDigit, Bool.and_eq_true, decide_eq_true_eq] at hdigit
  exact decide_eq_true (by omega)

example : isCanonicalCallId (chars "call-1") = true := by decide +kernel

theorem requireCanonical_eq_ok_iff {s : Str} {id : ToolCallId} :
    ToolCallId.requireCanonical L (.str s) = .ok id ↔ isCanonicalCallId s = true ∧ s.length ≤ 128 ∧ id = ⟨s⟩ := by
  unfold ToolCallId.requireCanonical ToolCallId.ofValue
  rw [require_bind_eq_ok, require_bind_eq_ok]
  refine and_congr_right fun hcanonical => ?_
  have hne : (s != []) = true := by
    rw [bne_iff_ne]
    rintro rfl
    exact absurd hcanonical (by decide +kernel)
  rw [isAscii_of_canonical hcanonical, hne, if_pos hcanonical, Bool.true_and, Bool.true_and, decide_eq_true_iff]
  refine and_congr_right fun _ => ?_
  constructor
  · intro h
    exact (Except.ok.inj h).symm
  · rintro rfl
    rfl

/-- The identifiers of a transcript are read as they are, if they are canonical. -/
theorem mapM_requireCanonical_iff {ids ids' : List ToolCallId} :
    (ids.map fun id => PyVal.str id.text).mapM (ToolCallId.requireCanonical L) = .ok ids' ↔
      (∀ id ∈ ids, isCanonicalCallId id.text = true ∧ id.text.length ≤ 128) ∧ ids' = ids := by
  induction ids generalizing ids' with
  | nil =>
    constructor
    · intro h
      exact ⟨fun _ hid => (by cases hid), (Except.ok.inj h).symm⟩
    · rintro ⟨-, rfl⟩
      rfl
  | cons id ids ih =>
    rw [List.map_cons, List.mapM_cons, List.forall_mem_cons]
    constructor
    · intro h
      obtain ⟨id', hid, htail⟩ := ok_of_bind h
      obtain ⟨rest, hrest, hcons⟩ := ok_of_bind htail
      obtain ⟨hcanonical, hlength, rfl⟩ := requireCanonical_eq_ok_iff.1 hid
      obtain ⟨hids, rfl⟩ := ih.1 hrest
      exact ⟨⟨⟨hcanonical, hlength⟩, hids⟩, (Except.ok.inj hcons).symm⟩
    · rintro ⟨⟨⟨hcanonical, hlength⟩, hids⟩, rfl⟩
      rw [requireCanonical_eq_ok_iff.2 ⟨hcanonical, hlength, rfl⟩, ih.2 ⟨hids, rfl⟩]
      rfl

end

/-! ### Metadata -/

private theorem mapM_texts (items : List (Str × Str)) :
    ((items.map fun p => (p.1, PyVal.str p.2)).mapM fun p => p.2.text?.map fun text => (p.1, text)) = some items := by
  induction items with
  | nil => rfl
  | cons p items ih =>
    rw [List.map_cons, List.mapM_cons, ih]
    rfl

theorem metadataOf_texts (limit : Nat) (frozen : Bool) (items : List (Str × Str)) :
    metadataOf limit (.dict frozen (items.map fun p => (p.1, .str p.2))) =
      require (acceptsMetadata limit items) .localValidationFailure >>= fun _ => .ok items := by
  unfold metadataOf
  rw [show (PyVal.dict frozen (items.map fun p => (p.1, PyVal.str p.2))).members? =
    some (items.map fun p => (p.1, PyVal.str p.2)) from rfl, Option.bind_some, mapM_texts]
  rfl

theorem acceptsMetadata_perm {limit : Nat} {items items' : List (Str × Str)} (h : items.Perm items') :
    acceptsMetadata limit items = acceptsMetadata limit items' := by
  unfold acceptsMetadata
  rw [h.length_eq, h.all_eq]

theorem all_safe_of_accepts {limit : Nat} {items : List (Str × Str)} (h : acceptsMetadata limit items = true) :
    items.all isSafeMetadata = true := by
  rw [acceptsMetadata, Bool.and_eq_true] at h
  exact h.2

/-- No key of the metadata is hidden or diagnostic: only the bound of the redaction is left. -/
theorem redactMembers_safe (sensitive : Str → List Str → Nat → Str) {items : List (Str × Str)}
    (h : items.all isSafeMetadata = true) :
    redactMembers sensitive [] 4096 (items.map fun p => (p.1, .str p.2)) =
      items.map fun p => (p.1, .str (bounded p.2 4096)) := by
  have hkeys : ∀ key ∈ safeMetadataKeys, isHiddenKey (chars key) = false ∧ isDiagnosticKey (chars key) = false := by
    decide +kernel
  induction items with
  | nil => rfl
  | cons p items ih =>
    rw [List.all_cons, Bool.and_eq_true] at h
    obtain ⟨hp, hitems⟩ := h
    obtain ⟨key, hkey, hname⟩ : ∃ key ∈ safeMetadataKeys, (chars key == p.1) = true := by
      simp only [isSafeMetadata, Bool.and_eq_true] at hp
      exact List.any_eq_true.1 hp.1.1.1.1.1.1
    obtain ⟨hhidden, hdiagnostic⟩ := hkeys key hkey
    rw [eq_of_beq hname] at hhidden hdiagnostic
    rw [List.map_cons, redactMembers, hhidden, hdiagnostic, ih hitems, List.map_cons, redactJson,
      redactText_of_no_secrets _ (by decide)]
    rfl

namespace EventFields

variable {sensitive : Str → List Str → Nat → Str}

/-- The metadata as they are read back: each value is bounded, the items are in the order of their keys. -/
def readMetadata (e : EventFields) : List (Str × Str) :=
  sortItems (sortItems (e.metadata.map fun p => (p.1, bounded p.2 4096)))

theorem readMetadata_perm (e : EventFields) :
    e.readMetadata.Perm (e.metadata.map fun p => (p.1, bounded p.2 4096)) :=
  (sortItems_perm _).trans (sortItems_perm _)

theorem reread_metadata {e : EventFields} (h : e.metadata.all isSafeMetadata = true) :
    (redactJson sensitive [] 4096 e.metadataValue).reread = .dict false (e.readMetadata.map fun p => (p.1, .str p.2)) := by
  have htexts : ∀ l : List (Str × Str),
      PyVal.rereadMembers (l.map fun p => (p.1, .str p.2)) = l.map fun p => (p.1, .str p.2) := by
    intro l
    rw [rereadMembers_eq, List.map_map]
    rfl
  have hsplit : (e.metadata.map fun p => (p.1, PyVal.str (bounded p.2 4096))) =
      (e.metadata.map fun p => (p.1, bounded p.2 4096)).map fun p => (p.1, .str p.2) := by
    rw [List.map_map]
    rfl
  rw [metadataValue, redactJson, redactMembers_safe sensitive h, hsplit, sortItems_map, PyVal.reread, htexts,
    sortItems_map]
  rfl

/-! ### The fields of what is written -/

theorem valid_cases {e : EventFields} (h : e.isValid = true) :
    isSafeIdentity e.event = true ∧ isSafeIdentity e.adapter = true ∧ e.proposalIds.Nodup ∧
      e.byteCount ≤ 512 * 1024 ∧ (e.metadata.map Prod.fst).Nodup := by
  simp only [isValid, Bool.and_eq_true, decide_eq_true_eq] at h
  obtain ⟨⟨⟨⟨⟨⟨hevent, hadapter⟩, -⟩, hproposals⟩, hbytes⟩, -⟩, hnames⟩ := h
  exact ⟨hevent, hadapter, hproposals, hbytes, hnames⟩

/-- Valid fields stay valid when their metadata are given in another order. -/
theorem isValid_of_perm {e : EventFields} (h : e.isValid = true) {items : List (Str × Str)}
    (hperm : items.Perm e.metadata) : ({ e with metadata := items } : EventFields).isValid = true := by
  have hnames : decide (items.map Prod.fst).Nodup = decide (e.metadata.map Prod.fst).Nodup :=
    decide_eq_decide.2 (hperm.map Prod.fst).nodup_iff
  rw [← h]
  unfold isValid
  dsimp only
  rw [acceptsMetadata_perm hperm, hnames]

variable {L : Library} {limits : Limits}

/-- What `to_json_bytes` checks of an event, and what it writes. -/
theorem toJsonBytes_eq_ok_iff {e : EventFields} (hvalid : e.isValid = true) {raw : Bytes} :
    e.toJsonBytes L sensitive limits = .ok raw ↔
      (∀ id ∈ e.proposalIds, isCanonicalCallId id.text = true ∧ id.text.length ≤ 128) ∧
      e.proposalIds.length ≤ limits.proposedToolCallCount ∧
      acceptsMetadata limits.objectArrayItems e.metadata = true ∧
      (∀ p ∈ e.metadata, (encodedSize p.2).any (· ≤ limits.messageBytes) = true) ∧
      canon L (e.value sensitive) = .ok raw ∧ raw.length ≤ limits.transcriptBytes := by
  obtain ⟨hevent, hadapter, -, hbytes, -⟩ := valid_cases hvalid
  have hids : (e.proposalIds.mapM fun id => ToolCallId.requireCanonical L (.str id.text)) =
      (e.proposalIds.map fun id => PyVal.str id.text).mapM (ToolCallId.requireCanonical L) := by
    rw [List.mapM_map]
    rfl
  unfold toJsonBytes
  rw [hevent, hadapter, ModelIdentifier.ofValue_text, RequestCorrelationId.ofValue_text, hids, metadataValue,
    metadataOf_texts]
  constructor
  · intro h
    obtain ⟨_, -, h⟩ := ok_of_bind h
    obtain ⟨_, -, h⟩ := ok_of_bind h
    obtain ⟨_, -, h⟩ := ok_of_bind h
    obtain ⟨ids, hcanonical, h⟩ := ok_of_bind h
    obtain ⟨hcount, h⟩ := require_bind_eq_ok.1 h
    obtain ⟨items, hitems, h⟩ := ok_of_bind h
    obtain ⟨haccepts, hsame⟩ := require_bind_eq_ok.1 hitems
    rw [← Except.ok.inj hsame] at h
    obtain ⟨hsizes, h⟩ := require_bind_eq_ok.1 h
    obtain ⟨encoded, hencoded, h⟩ := ok_of_bind h
    obtain ⟨hlength, h⟩ := require_bind_eq_ok.1 h
    rw [Except.ok.inj h] at hencoded hlength
    rw [Bool.and_eq_true, decide_eq_true_eq, decide_eq_true_eq] at hcount
    exact ⟨(mapM_requireCanonical_iff.1 hcanonical).1, hcount.2, haccepts, List.all_eq_true.1 hsizes, hencoded,
      of_decide_eq_true hlength⟩
  · rintro ⟨hcanonical, hcount, haccepts, hsizes, hencoded, hlength⟩
    rw [mapM_requireCanonical_iff.2 ⟨hcanonical, rfl⟩, haccepts, hencoded, decide_eq_true hbytes, decide_eq_true hcount]
    show (require _ _ >>= fun _ => require _ _ >>= fun _ => Except.ok raw) = Except.ok raw
    rw [List.all_eq_true.2 hsizes, decide_eq_true hlength]
    rfl

theorem members_names (e : EventFields) :
    (e.members sensitive).map Prod.fst = (requiredEventKeys ++ (e.failureClass.map fun _ => "failureClass").toList ++
      (e.retryEligible.map fun _ => "retryEligible").toList).map chars := by
  unfold members
  cases e.failureClass <;> cases e.retryEligible <;> rfl

/-- The names are distinct, allowed and not empty. -/
theorem members_names_valid (e : EventFields) :
    ((e.members sensitive).map Prod.fst).Nodup ∧
      ∀ name ∈ (e.members sensitive).map Prod.fst, allowedEventKeys.any (chars · == name) = true ∧ name ≠ [] := by
  rw [members_names]
  cases e.failureClass <;> cases e.retryEligible
  all_goals
    dsimp only [Option.map, Option.toList]
    decide +kernel

theorem get?_value (e : EventFields) :
    (e.value sensitive).get? "schemaVersion" = some (.int 1) ∧
    (e.value sensitive).get? "event" = some (.str e.event) ∧
    (e.value sensitive).get? "adapter" = some (.str e.adapter) ∧
    (e.value sensitive).get? "model" = some (.str e.model.text) ∧
    (e.value sensitive).get? "correlationId" = some (.str e.correlationId.text) ∧
    (e.value sensitive).get? "provenance" = some (.str (chars e.provenance.value)) ∧
    (e.value sensitive).get? "proposalIds" = some (.list (e.proposalIds.map fun id => .str id.text)) ∧
    (e.value sensitive).get? "byteCount" = some (.int e.byteCount) ∧
    (e.value sensitive).get? "metadata" = some (redactJson sensitive [] 4096 e.metadataValue) ∧
    (e.value sensitive).get? "failureClass" = e.failureClass.map (fun c => PyVal.str (chars c.value)) ∧
    (e.value sensitive).get? "retryEligible" = e.retryEligible.map PyVal.bool := by
  refine ⟨rfl, rfl, rfl, rfl, rfl, rfl, rfl, rfl, rfl, ?_, ?_⟩
  · unfold value members
    cases e.failureClass <;> cases e.retryEligible <;> rfl
  · unfold value members
    cases e.failureClass <;> cases e.retryEligible <;> rfl

/-! ### The reader's view -/

theorem get?_reread_value (e : EventFields) (key : String) :
    (e.value sensitive).reread.get? key = ((e.value sensitive).get? key).map PyVal.reread :=
  get?_reread e.members_names_valid.1 key

theorem reread_int (i : Int) : (PyVal.int i).reread = .int i := rfl

theorem reread_str (s : Str) : (PyVal.str s).reread = .str s := rfl

theorem reread_ids (ids : List ToolCallId) :
    (PyVal.list (ids.map fun id => .str id.text)).reread = .list (ids.map fun id => .str id.text) := by
  rw [PyVal.reread, rereadItems_eq, List.map_map]
  rfl

/-- The checks of the names, and the version. -/
theorem reread_names (e : EventFields) : ∃ members, (e.value sensitive).reread.members? = some members ∧
    (members.all (fun p => allowedEventKeys.any (chars · == p.1)) &&
      requiredEventKeys.all (e.value sensitive).reread.has &&
      ((e.value sensitive).reread.get? "schemaVersion").any (isIntWithin 1 1)) = true := by
  refine ⟨_, rfl, ?_⟩
  rw [Bool.and_eq_true, Bool.and_eq_true]
  refine ⟨⟨?_, ?_⟩, ?_⟩
  · rw [List.all_eq_true]
    intro p hp
    obtain ⟨q, hq, rfl⟩ := List.mem_map.1 ((rereadMembers_perm _).mem_iff.1 hp)
    exact (e.members_names_valid.2 q.1 (List.mem_map_of_mem hq)).1
  · rw [List.all_eq_true]
    intro key hkey
    have hhas : (e.value sensitive).has key = true := by
      revert key
      rw [← List.all_eq_true]
      rfl
    rw [PyVal.has, get?_reread_value, Option.isSome_map]
    exact hhas
  · rw [get?_reread_value, e.get?_value.1]
    rfl

theorem natural?_int (n : Nat) : (PyVal.int n).natural? = some n := by
  rw [PyVal.natural?, if_pos (Int.natCast_nonneg n), Int.toNat_natCast]

/-- The constructor takes valid fields as they are. -/
theorem create_eq_ok {e : EventFields} (h : e.isValid = true) :
    TranscriptEvent.create (.str e.event) (.str e.adapter) (.str e.model.text) e.correlationId e.provenance
      e.proposalIds e.failureClass ((e.retryEligible.map PyVal.bool).getD .none) (.int e.byteCount)
      (.dict true (e.metadata.map fun p => (p.1, .str p.2))) = .ok ⟨e, h⟩ := by
  have hflag : ((e.retryEligible.map PyVal.bool).getD .none).flag? = some e.retryEligible := by
    cases e.retryEligible <;> rfl
  have haccepts : acceptsMetadata hardLimits.objectArrayItems e.metadata = true := by
    simp only [isValid, Bool.and_eq_true] at h
    exact h.1.2
  unfold TranscriptEvent.create
  rw [ModelIdentifier.ofValue_text, hflag, natural?_int, metadataOf_texts, haccepts]
  exact dif_pos h

/-- What is built has the metadata that were given. -/
theorem metadata_of_create {event adapter model : PyVal} {correlationId : RequestCorrelationId}
    {provenance : EvidenceProvenance} {proposalIds : List ToolCallId} {failureClass : Option FailureClass}
    {retryEligible byteCount : PyVal} {items : List (Str × Str)} {e : TranscriptEvent}
    (h : TranscriptEvent.create event adapter model correlationId provenance proposalIds failureClass retryEligible
      byteCount (.dict true (items.map fun p => (p.1, .str p.2))) = .ok e) : e.metadata = items := by
  unfold TranscriptEvent.create at h
  rw [metadataOf_texts] at h
  cases hevent : event.text? with
  | none =>
    rw [hevent] at h
    cases h
  | some event =>
  cases hadapter : adapter.text? with
  | none =>
    rw [hevent, hadapter] at h
    cases h
  | some adapter =>
  rw [hevent, hadapter] at h
  obtain ⟨model, -, h⟩ := ok_of_bind h
  cases hretry : retryEligible.flag? with
  | none =>
    rw [hretry] at h
    cases h
  | some retryEligible =>
  cases hbytes : byteCount.natural? with
  | none =>
    rw [hretry, hbytes] at h
    cases h
  | some byteCount =>
  rw [hretry, hbytes] at h
  obtain ⟨items', hitems, h⟩ := ok_of_bind h
  obtain ⟨-, hsame⟩ := require_bind_eq_ok.1 hitems
  dsimp only at h
  split at h
  · rw [← Except.ok.inj h]
    exact (Except.ok.inj hsame).symm
  · cases h

/-- The reader makes of a written event what the constructor makes of its fields and the metadata as they are read. -/
theorem parseEvent_reread {e : EventFields}
    (hcanonical : ∀ id ∈ e.proposalIds, isCanonicalCallId id.text = true ∧ id.text.length ≤ 128)
    (hcount : e.proposalIds.length ≤ limits.proposedToolCallCount) (hsafe : e.metadata.all isSafeMetadata = true) :
    parseEvent L limits (e.value sensitive).reread =
      (require (acceptsMetadata limits.objectArrayItems e.readMetadata) .localValidationFailure >>= fun _ =>
        TranscriptEvent.create (.str e.event) (.str e.adapter) (.str e.model.text) e.correlationId e.provenance
          e.proposalIds e.failureClass ((e.retryEligible.map PyVal.bool).getD .none) (.int e.byteCount)
          (.dict true (e.readMetadata.map fun p => (p.1, .str p.2)))) := by
  obtain ⟨members, hmembers, hnames⟩ := @EventFields.reread_names sensitive e
  obtain ⟨-, hevent, hadapter, hmodel, hcorrelation, hprovenance, hproposals, hbytes, hmetadata, hfailure, hretry⟩ :=
    @EventFields.get?_value sensitive e
  have hfailure' : ((e.failureClass.map fun c => PyVal.str (chars c.value)).map PyVal.reread).elim (.ok none)
      (fun v => (FailureClass.ofValue v).map some) = Except.ok (ε := Raised) e.failureClass := by
    cases e.failureClass with
    | none => rfl
    | some c =>
      show (FailureClass.ofValue (.str (chars c.value))).map some = _
      rw [FailureClass.ofValue_value]
      rfl
  have hretry' : (e.retryEligible.map PyVal.bool).map PyVal.reread = e.retryEligible.map PyVal.bool := by
    cases e.retryEligible <;> rfl
  unfold parseEvent
  rw [hmembers]
  dsimp only
  rw [hnames]
  simp only [get?_reread_value, hevent, hadapter, hmodel, hcorrelation, hprovenance, hproposals, hbytes, hmetadata,
    hfailure, hretry, Option.map_some, reread_ids, reread_metadata hsafe, hfailure', hretry']
  simp only [PyVal.reread, Option.getD_some, Option.bind_some, metadataOf_texts, List.length_map,
    decide_eq_true hcount, mapM_requireCanonical_iff.2 ⟨hcanonical, rfl⟩, RequestCorrelationId.ofValue_text,
    EvidenceProvenance.ofValue_value, natural?_int]
  cases acceptsMetadata limits.objectArrayItems e.readMetadata <;> rfl

/-! ### What the reader bounds -/

/-- The texts of an event besides its metadata. -/
def texts (e : EventFields) : List Str :=
  [e.event, e.adapter, e.model.text, e.correlationId.text, chars e.provenance.value] ++
    e.proposalIds.map ToolCallId.text ++ (e.failureClass.map fun c => chars c.value).toList

/-- The number of members that are written. -/
def memberCount (e : EventFields) : Nat := 9 + e.failureClass.toList.length + e.retryEligible.toList.length

/-- The bounds of the reader that the writer does not check, and the bound of the redaction: no more members and
identifiers than items, a nesting depth of two where there is a nested value, no text longer than a string may be, and
no metadata of more than 4096 bytes. -/
structure Preserved (e : EventFields) (limits : Limits) : Prop where
  members : e.memberCount ≤ limits.objectArrayItems
  proposals : e.proposalIds.length ≤ limits.objectArrayItems
  nesting : e.proposalIds ≠ [] ∨ e.metadata ≠ [] → 2 ≤ limits.jsonNestingDepth
  texts : ∀ text ∈ e.texts, fitsString limits text = true
  metadata : ∀ p ∈ e.metadata, (encodedSize p.2).any (· ≤ 4096) = true

theorem length_members (e : EventFields) : (e.members sensitive).length = e.memberCount := by
  unfold members memberCount
  cases e.failureClass <;> cases e.retryEligible <;> rfl

theorem jsonNestingDepth_pos (limits : Limits) : 1 ≤ limits.jsonNestingDepth := by
  have hv := limits.valid
  simp only [LimitValues.isValid, LimitValues.asList, hardMax, List.zip_cons_cons, List.zip_nil_right, List.all_cons,
    List.all_nil, Bool.and_eq_true, decide_eq_true_eq, and_true] at hv
  omega

private theorem jsonValue_ids_iff {ids : List ToolCallId} :
    jsonValue limits none 1 (.list (ids.map fun id => .str id.text)) = .ok () ↔
      ids.length ≤ limits.objectArrayItems ∧ (ids ≠ [] → 2 ≤ limits.jsonNestingDepth) ∧
        ∀ id ∈ ids, fitsString limits id.text = true := by
  rw [jsonValue_list_iff, List.length_map]
  constructor
  · rintro ⟨-, hlength, hids⟩
    have hid : ∀ id ∈ ids, 2 ≤ limits.jsonNestingDepth ∧ fitsString limits id.text = true := by
      intro id hid
      exact jsonValue_str_iff.1 (hids _ (List.mem_map_of_mem hid))
    refine ⟨hlength, ?_, fun id h => (hid id h).2⟩
    intro hne
    obtain ⟨id, h⟩ := List.exists_mem_of_ne_nil ids hne
    exact (hid id h).1
  · rintro ⟨hlength, hnesting, hids⟩
    refine ⟨jsonNestingDepth_pos limits, hlength, ?_⟩
    intro v hv
    obtain ⟨id, hid, rfl⟩ := List.mem_map.1 hv
    exact jsonValue_str_iff.2 ⟨hnesting (List.ne_nil_of_mem hid), hids id hid⟩

/-- Bounded metadata are within every bound but that of the nesting. -/
private theorem jsonValue_metadata_iff {e : EventFields}
    (haccepts : acceptsMetadata limits.objectArrayItems e.metadata = true)
    (hsizes : ∀ p ∈ e.metadata, (encodedSize p.2).any (· ≤ limits.messageBytes) = true) :
    jsonValue limits none 1 (.dict false (e.readMetadata.map fun p => (p.1, .str p.2))) = .ok () ↔
      (e.metadata ≠ [] → 2 ≤ limits.jsonNestingDepth) := by
  have hperm := e.readMetadata_perm
  rw [acceptsMetadata, Bool.and_eq_true, decide_eq_true_eq] at haccepts
  obtain ⟨hlength, hsafe⟩ := haccepts
  rw [jsonValue_dict_iff, List.length_map, hperm.length_eq, List.length_map]
  constructor
  · rintro ⟨-, -, hall⟩ hne
    obtain ⟨p, hp⟩ := List.exists_mem_of_ne_nil e.metadata hne
    have hread : (p.1, bounded p.2 4096) ∈ e.readMetadata := hperm.mem_iff.2 (List.mem_map_of_mem hp)
    exact (jsonValue_str_iff.1 (hall _ (List.mem_map_of_mem hread)).2).1
  · intro hnesting
    refine ⟨jsonNestingDepth_pos limits, hlength, ?_⟩
    intro q hq
    obtain ⟨r, hr, rfl⟩ := List.mem_map.1 hq
    obtain ⟨p, hp, rfl⟩ := List.mem_map.1 (hperm.mem_iff.1 hr)
    have hname : p.1 ≠ [] := by
      have hkeys : ∀ key ∈ safeMetadataKeys, chars key ≠ [] := by decide +kernel
      have hsafe := List.all_eq_true.1 hsafe p hp
      simp only [isSafeMetadata, Bool.and_eq_true] at hsafe
      obtain ⟨key, hkey, hsame⟩ := List.any_eq_true.1 hsafe.1.1.1.1.1.1
      rw [← eq_of_beq hsame]
      exact hkeys key hkey
    refine ⟨hname, jsonValue_str_iff.2 ⟨hnesting (List.ne_nil_of_mem hp), ?_⟩⟩
    obtain ⟨size, hsize, hle⟩ := (Option.any_eq_true _ _).1 (hsizes p hp)
    obtain ⟨size', hsize', -, hle'⟩ := encodedSize_bounded hsize 4096
    have hwithin : size ≤ limits.messageBytes := of_decide_eq_true hle
    show (encodedSize (bounded p.2 4096)).any _ = true
    rw [hsize', Option.any_some, decide_eq_true_eq]
    omega

/-- The reader's bounds on what was written. -/
theorem jsonValue_value_iff {e : EventFields}
    (haccepts : acceptsMetadata limits.objectArrayItems e.metadata = true)
    (hsizes : ∀ p ∈ e.metadata, (encodedSize p.2).any (· ≤ limits.messageBytes) = true) :
    jsonValue limits none 0 (e.value sensitive).reread = .ok () ↔
      e.memberCount ≤ limits.objectArrayItems ∧ e.proposalIds.length ≤ limits.objectArrayItems ∧
        (e.proposalIds ≠ [] ∨ e.metadata ≠ [] → 2 ≤ limits.jsonNestingDepth) ∧
        ∀ text ∈ e.texts, fitsString limits text = true := by
  have hsafe := all_safe_of_accepts haccepts
  have hpos := jsonNestingDepth_pos limits
  have hint : ∀ i, jsonValue limits none 1 (.int i) = .ok () := by
    intro i
    show require (1 ≤ limits.jsonNestingDepth) _ = _
    rw [decide_eq_true hpos]
    rfl
  have hbool : ∀ b, jsonValue limits none 1 (.bool b) = .ok () := by
    intro b
    show require (1 ≤ limits.jsonNestingDepth) _ = _
    rw [decide_eq_true hpos]
    rfl
  have hstr : ∀ s : Str, jsonValue limits none 1 (.str s) = .ok () ↔ fitsString limits s = true := by
    intro s
    rw [jsonValue_str_iff, and_iff_right hpos]
  rw [value, jsonValue_reread_dict_iff, length_members, and_iff_right (Nat.zero_le _)]
  refine and_congr_right fun _ => ?_
  have hnames : ∀ p ∈ e.members sensitive, p.1 ≠ [] := fun p hp =>
    (e.members_names_valid.2 p.1 (List.mem_map_of_mem hp)).2
  have hvalues : (∀ p ∈ e.members sensitive, p.1 ≠ [] ∧ jsonValue limits none (0 + 1) p.2.reread = .ok ()) ↔
      ∀ p ∈ e.members sensitive, jsonValue limits none 1 p.2.reread = .ok () :=
    forall₂_congr fun p hp => and_iff_right (hnames p hp)
  have hfailure : (∀ p ∈ (e.failureClass.map fun c => (chars "failureClass", PyVal.str (chars c.value))).toList,
      jsonValue limits none 1 p.2.reread = .ok ()) ↔
      ∀ text ∈ (e.failureClass.map fun c => chars c.value).toList, fitsString limits text = true := by
    cases e.failureClass with
    | none => exact ⟨fun _ _ h => (by cases h), fun _ _ h => (by cases h)⟩
    | some c =>
      simp only [Option.map_some, Option.toList_some, List.forall_mem_singleton]
      exact hstr _
  have hretry : ∀ p ∈ (e.retryEligible.map fun b => (chars "retryEligible", PyVal.bool b)).toList,
      jsonValue limits none 1 p.2.reread = .ok () := by
    cases e.retryEligible with
    | none =>
      intro p hp
      cases hp
    | some b =>
      simp only [Option.map_some, Option.toList_some, List.forall_mem_singleton]
      exact hbool b
  rw [hvalues, members, List.forall_mem_append, List.forall_mem_append, hfailure, and_iff_left hretry, texts,
    List.forall_mem_append, List.forall_mem_append, List.forall_mem_map]
  simp only [List.forall_mem_cons, reread_ids, reread_metadata hsafe, jsonValue_ids_iff,
    jsonValue_metadata_iff haccepts hsizes, reread_int, reread_str, hint, hstr, true_and]
  constructor
  · rintro ⟨⟨hevent, hadapter, hmodel, hcorrelation, hprovenance, ⟨hcount, hnesting, hids⟩, hmetadata, hnil⟩, hclass⟩
    refine ⟨hcount, ?_, ⟨⟨hevent, hadapter, hmodel, hcorrelation, hprovenance, fun _ h => (by cases h)⟩, hids⟩, hclass⟩
    rintro (hne | hne)
    · exact hnesting hne
    · exact hmetadata hne
  · rintro ⟨hcount, hnesting, ⟨⟨hevent, hadapter, hmodel, hcorrelation, hprovenance, -⟩, hids⟩, hclass⟩
    exact ⟨⟨hevent, hadapter, hmodel, hcorrelation, hprovenance, ⟨hcount, fun hne => hnesting (.inl hne), hids⟩,
      fun hne => hnesting (.inr hne), fun _ h => (by cases h)⟩, hclass⟩

end EventFields

/-! ### The round trip -/

theorem parseTranscript_of_loads {L : Library} {limits : Limits} {raw : Bytes} {value : PyVal}
    (hlength : raw.length ≤ limits.transcriptBytes) (hloads : L.loads raw = .ok value) :
    parseTranscript L raw limits =
      classified (jsonValue limits none 0 value >>= fun _ => parseEvent L limits value) := by
  unfold parseTranscript parseClosedJson
  rw [Option.getD_some, decide_eq_true hlength, hloads]
  cases hvalue : jsonValue limits none 0 value with
  | error raised =>
    show classified ((jsonValue limits none 0 value >>= fun _ => Except.ok value) >>= _) = _
    rw [hvalue]
    rfl
  | ok u =>
    show classified ((jsonValue limits none 0 value >>= fun _ => Except.ok value) >>= _) = _
    rw [hvalue]
    rfl

section

variable {L : Library} {sensitive : Str → List Str → Nat → Str} {limits : Limits} {e : TranscriptEvent} {raw : Bytes}

/-- An event that is read back as it was is within the bounds of the reader and of the redaction. -/
theorem preserved_of_parse (h : e.toJsonBytes L sensitive limits = .ok raw)
    (hloads : L.loads raw = .ok (e.value sensitive).reread) {e' : TranscriptEvent}
    (hread : parseTranscript L raw limits = .ok e') (hsame : e'.Same e.toEventFields) : e.Preserved limits := by
  obtain ⟨hcanonical, hcount, haccepts, hsizes, -, hlength⟩ := (EventFields.toJsonBytes_eq_ok_iff e.valid).1 h
  have hsafe := all_safe_of_accepts haccepts
  have hnodup : (e.metadata.map Prod.fst).Nodup := (EventFields.valid_cases e.valid).2.2.2.2
  have hread' : (jsonValue limits none 0 (e.value sensitive).reread >>= fun _ =>
      parseEvent L limits (e.value sensitive).reread) = .ok e' := by
    rw [parseTranscript_of_loads hlength hloads] at hread
    unfold classified at hread
    split at hread
    · cases hread
    · exact hread
  obtain ⟨u, hbounds, hevent⟩ := ok_of_bind hread'
  obtain ⟨hmembers, hproposals, hnesting, htexts⟩ := (EventFields.jsonValue_value_iff haccepts hsizes).1 hbounds
  rw [EventFields.parseEvent_reread hcanonical hcount hsafe] at hevent
  obtain ⟨-, hcreate⟩ := require_bind_eq_ok.1 hevent
  have hmetadata : e'.metadata = e.readMetadata := EventFields.metadata_of_create hcreate
  have hperm : e.readMetadata.Perm e.metadata := by
    rw [← hmetadata]
    exact hsame.2
  refine ⟨hmembers, hproposals, hnesting, htexts, fun p hp => ?_⟩
  -- the item of this name that is read is the one that was written
  have hcut : (p.1, bounded p.2 4096) ∈ e.metadata :=
    hperm.mem_iff.1 (e.readMetadata_perm.mem_iff.2 (List.mem_map_of_mem hp))
  have hkept : bounded p.2 4096 = p.2 := by
    have hlookup := (Registry.lookup_eq_some_iff hnodup).2 hcut
    rw [(Registry.lookup_eq_some_iff hnodup).2 hp] at hlookup
    exact (Option.some.inj hlookup).symm
  obtain ⟨size, hsize, -⟩ := (Option.any_eq_true _ _).1 (hsizes p hp)
  rw [hsize, Option.any_some]
  exact decide_eq_true ((bounded_eq_iff hsize 4096).1 hkept)

/-- An event within these bounds is read back as it was. -/
theorem parse_of_preserved (h : e.toJsonBytes L sensitive limits = .ok raw)
    (hloads : L.loads raw = .ok (e.value sensitive).reread) (hpreserved : e.Preserved limits) :
    ∃ e' : TranscriptEvent, parseTranscript L raw limits = .ok e' ∧ e'.Same e.toEventFields := by
  obtain ⟨hcanonical, hcount, haccepts, hsizes, -, hlength⟩ := (EventFields.toJsonBytes_eq_ok_iff e.valid).1 h
  obtain ⟨hmembers, hproposals, hnesting, htexts, hmetadata⟩ := hpreserved
  have hsafe := all_safe_of_accepts haccepts
  have hkept : (e.metadata.map fun p => (p.1, bounded p.2 4096)) = e.metadata := by
    conv_rhs => rw [← List.map_id e.metadata]
    refine List.map_congr_left fun p hp => ?_
    obtain ⟨size, hsize, hle⟩ := (Option.any_eq_true _ _).1 (hmetadata p hp)
    rw [(bounded_eq_iff hsize 4096).2 (of_decide_eq_true hle)]
    rfl
  have hperm : e.readMetadata.Perm e.metadata := by
    have hread := e.readMetadata_perm
    rwa [hkept] at hread
  have hvalid := EventFields.isValid_of_perm e.valid hperm
  have hbounds : jsonValue limits none 0 (e.value sensitive).reread = .ok () :=
    (EventFields.jsonValue_value_iff haccepts hsizes).2 ⟨hmembers, hproposals, hnesting, htexts⟩
  have hread : acceptsMetadata limits.objectArrayItems e.readMetadata = true := by
    rw [acceptsMetadata_perm hperm]
    exact haccepts
  have hevent : parseEvent L limits (e.value sensitive).reread =
      .ok ⟨{ e.toEventFields with metadata := e.readMetadata }, hvalid⟩ := by
    rw [EventFields.parseEvent_reread hcanonical hcount hsafe]
    exact require_bind_eq_ok.2 ⟨hread, EventFields.create_eq_ok hvalid⟩
  refine ⟨⟨{ e.toEventFields with metadata := e.readMetadata }, hvalid⟩, ?_, rfl, hperm⟩
  rw [parseTranscript_of_loads hlength hloads, hbounds, hevent]
  rfl

end

/-- An event that was written is read back as it was exactly if the reader's bounds admit it and no metadata are cut. -/
theorem parse_toJsonBytes_iff (L : Library) (sensitive : Str → List Str → Nat → Str) (limits : Limits)
    (e : TranscriptEvent) (raw : Bytes) (h : e.toJsonBytes L sensitive limits = .ok raw)
    (hloads : L.loads raw = .ok (e.value sensitive).reread) :
    (∃ e' : TranscriptEvent, parseTranscript L raw limits = .ok e' ∧ e'.Same e.toEventFields) ↔
      e.Preserved limits := by
  constructor
  · rintro ⟨e', hread, hsame⟩
    exact preserved_of_parse h hloads hread hsame
  · exact parse_of_preserved h hloads

/-- An event with one item of metadata. -/
def sampleFields (mode : Str) : EventFields where
  event := chars "provider_response"
  adapter := chars "fake-loopback"
  model := ⟨chars "synthetic-model", by decide +kernel⟩
  correlationId := ⟨chars "req-10-1", by decide +kernel⟩
  provenance := .providerSuggestion
  proposalIds := [⟨chars "call-1"⟩]
  failureClass := none
  retryEligible := some false
  byteCount := 17
  metadata := [(chars "mode", mode)]

/-- Reads this event back. -/
def eventLibrary (e : EventFields) : Library where
  loads _ := .ok (e.value fun s _ _ => s).reread
  floatRepr _ := []
  sha256 _ := []

private theorem acceptsMetadata_mode {limit : Nat} (hlimit : 1 ≤ limit) {mode : Str}
    (h : isSafeMetadata (chars "mode", mode) = true) : acceptsMetadata limit (sampleFields mode).metadata = true := by
  show (decide (1 ≤ limit) && (isSafeMetadata (chars "mode", mode) && true)) = true
  rw [h, decide_eq_true hlimit]
  rfl

private theorem sampleFields_valid {mode : Str} (h : isSafeMetadata (chars "mode", mode) = true) :
    (sampleFields mode).isValid = true := by
  have hfixed : (isSafeIdentity (chars "provider_response") && isSafeIdentity (chars "fake-loopback")) = true := by
    decide +kernel
  unfold EventFields.isValid
  rw [acceptsMetadata_mode (by decide) h]
  show ((isSafeIdentity (chars "provider_response") && isSafeIdentity (chars "fake-loopback")) && _ && _ && _ && _ &&
    _) = true
  rw [hfixed]
  rfl

/-- 4097 letters `a`. -/
def longText : Str := List.replicate 4097 0x61

private theorem longText_safe : isSafeMetadata (chars "mode", longText) = true := by
  have hmarkers : ∀ marker ∈ suspicious, ∃ c ∈ chars marker, c ≠ 0x61 := by decide +kernel
  have hlower : ∀ n, lowerText (List.replicate n 0x61) = List.replicate n 0x61 := by
    intro n
    induction n with
    | zero => rfl
    | succ n ih =>
      show [0x61] ++ lowerText (List.replicate n 0x61) = _
      rw [ih, List.singleton_append, List.replicate_succ]
  have hplain : containsAny suspicious (lowerText longText) = false := by
    rw [longText, hlower, containsAny, List.any_eq_false]
    intro marker hmarker hcontains
    obtain ⟨c, hc, hne⟩ := hmarkers marker hmarker
    exact hne (List.eq_of_mem_replicate (mem_of_containsText hcontains c hc))
  have hrest : (safeMetadataKeys.any (chars · == chars "mode") && longText != [] &&
      (encodedSize longText).any (· ≤ hardLimits.messageBytes) &&
      longText.all (fun c => 0x20 ≤ c && c != 0x7F) && (longText.head? != some 0x2F && !longText.any isSpace)) = true := by
    decide +kernel
  simp only [Bool.and_eq_true] at hrest
  obtain ⟨⟨⟨⟨hkey, hne⟩, hsize⟩, hchars⟩, hhead, hspace⟩ := hrest
  simp only [isSafeMetadata, hkey, hne, hsize, hchars, hplain, hhead, hspace, Bool.not_false, Bool.and_true]

def shortEvent : TranscriptEvent := ⟨sampleFields (chars "synthetic-only"), sampleFields_valid (by decide +kernel)⟩

def longEvent : TranscriptEvent := ⟨sampleFields longText, sampleFields_valid longText_safe⟩

private theorem exists_toJsonBytes {e : TranscriptEvent}
    (hids : ∀ id ∈ e.proposalIds, isCanonicalCallId id.text = true ∧ id.text.length ≤ 128)
    (hcount : e.proposalIds.length ≤ defaultLimits.proposedToolCallCount)
    (haccepts : acceptsMetadata defaultLimits.objectArrayItems e.metadata = true)
    (hsizes : (e.metadata.all fun p => (encodedSize p.2).any (· ≤ defaultLimits.messageBytes)) = true)
    (hcanon : ((canon (eventLibrary e.toEventFields) (e.value fun s _ _ => s)).toOption.any
      (·.length ≤ defaultLimits.transcriptBytes)) = true) :
    ∃ raw, e.toJsonBytes (eventLibrary e.toEventFields) (fun s _ _ => s) defaultLimits = .ok raw := by
  cases hraw : canon (eventLibrary e.toEventFields) (e.value fun s _ _ => s) with
  | error raised =>
    rw [hraw] at hcanon
    cases hcanon
  | ok raw =>
    rw [hraw] at hcanon
    exact ⟨raw, (EventFields.toJsonBytes_eq_ok_iff e.valid).2 ⟨hids, hcount, haccepts, List.all_eq_true.1 hsizes, hraw,
      of_decide_eq_true hcanon⟩⟩

private theorem shortEvent_written :
    ∃ raw, shortEvent.toJsonBytes (eventLibrary shortEvent.toEventFields) (fun s _ _ => s) defaultLimits = .ok raw :=
  exists_toJsonBytes (by decide +kernel) (by decide +kernel) (by decide +kernel) (by decide +kernel) (by decide +kernel)

theorem parse_toJsonBytes_sample :
    ∃ raw, shortEvent.toJsonBytes (eventLibrary shortEvent.toEventFields) (fun s _ _ => s) defaultLimits = .ok raw ∧
      ((∃ e' : TranscriptEvent, parseTranscript (eventLibrary shortEvent.toEventFields) raw defaultLimits = .ok e' ∧
        e'.Same shortEvent.toEventFields) ↔ shortEvent.Preserved defaultLimits) := by
  obtain ⟨raw, hraw⟩ := shortEvent_written
  exact ⟨raw, hraw, parse_toJsonBytes_iff _ _ defaultLimits shortEvent raw hraw rfl⟩

private theorem longEvent_written :
    ∃ raw, longEvent.toJsonBytes (eventLibrary longEvent.toEventFields) (fun s _ _ => s) defaultLimits = .ok raw :=
  exists_toJsonBytes (by decide +kernel) (by decide +kernel) (acceptsMetadata_mode (by decide) longText_safe)
    (by decide +kernel) (by decide +kernel)

/-- The default limits admit metadata of 8192 bytes, and the redaction cuts them to 4096. -/
theorem metadata_is_cut : ¬ ∀ (L : Library) (sensitive : Str → List Str → Nat → Str) (limits : Limits)
    (e : TranscriptEvent) (raw : Bytes), e.toJsonBytes L sensitive limits = .ok raw →
    L.loads raw = .ok (e.value sensitive).reread →
    ∃ e' : TranscriptEvent, parseTranscript L raw limits = .ok e' ∧ e'.Same e.toEventFields := by
  intro h
  obtain ⟨raw, hraw⟩ := longEvent_written
  obtain ⟨e', hread, hsame⟩ := h _ _ defaultLimits longEvent raw hraw rfl
  have hpreserved := preserved_of_parse hraw rfl hread hsame
  have hcut := hpreserved.metadata (chars "mode", longText) (List.mem_singleton_self _)
  exact absurd hcut (by decide +kernel)

end NativeMcp.Agent
