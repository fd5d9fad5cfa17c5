import NativeMcp.Agent.Proposals
import NativeMcp.Agent.TranscriptRoundTrip

/-!
# The identifiers of proposals

An identifier that `ToolCallId` accepts is `Usable` if each consumer takes it: `ToolCallId` itself, `require_canonical`,
the transcript events, the proposals and the control transcript.  A canonical identifier is too long for the last one
from 65 characters on, and the hash that replaces a legacy one is canonical only if it happens to have no letter
(`toolCallId_usable_iff`).
-/

namespace NativeMcp.Agent

/-! ### What the consumers ask for -/

/-- What SHA-256's `hexdigest()` is: 64 hexadecimal digits. -/
def IsHexDigest (digest : Bytes) : Prop := digest.length = 64 ∧ ∀ b ∈ digest, isHexDigit b.toNat = true

/-- The bounds on an event that do not depend on the form of its identifiers. -/
structure EventFields.Fits (e : EventFields) (L : Library) (sensitive : Str → List Str → Nat → Str) (limits : Limits) :
    Prop where
  proposals : e.proposalIds.length ≤ limits.proposedToolCallCount
  metadata : acceptsMetadata limits.objectArrayItems e.metadata = true
  sizes : ∀ p ∈ e.metadata, (encodedSize p.2).any (· ≤ limits.messageBytes) = true
  text : ∃ raw, canon L (e.value sensitive) = .ok raw ∧ raw.length ≤ limits.transcriptBytes
  preserved : e.Preserved limits

/-- Every consumer of identifiers takes this one. -/
structure ToolCallId.Usable (L : Library) (id : ToolCallId) : Prop where
  stable : ToolCallId.ofValue L (.str id.text) = .ok id
  canonical : ToolCallId.requireCanonical L (.str id.text) = .ok id
  /-- An event that carries it, other identifiers being canonical, is written and read back. -/
  transcript : ∀ (sensitive : Str → List Str → Nat → Str) (limits : Limits) (e : TranscriptEvent), id ∈ e.proposalIds →
    (∀ other ∈ e.proposalIds, other ≠ id → ToolCallId.requireCanonical L (.str other.text) = .ok other) →
    e.Fits L sensitive limits → ∃ raw, e.toJsonBytes L sensitive limits = .ok raw ∧
      (L.loads raw = .ok (e.value sensitive).reread →
        ∃ e' : TranscriptEvent, parseTranscript L raw limits = .ok e' ∧ e'.Same e.toEventFields)
  /-- A proposal that carries it is written, if its arguments are within the limits. -/
  proposal : ∀ (limits : Limits) (p : ProviderToolCallProposal) (frozen : PyVal) (raw : Bytes), p.callId = id →
    freezeJson limits none 0 p.arguments = .ok frozen → canon L (p.value frozen) = .ok raw →
    raw.length ≤ limits.toolArgumentBytes → p.toJsonBytes L limits = .ok raw
  /-- An event of the control transcript that names it is recorded with it. -/
  control : ∀ (limits : Limits) (t : BoundedTranscript) (kind : ControlKind) (metadata : List (Str × PyVal)),
    kind.admits (metadata.map Prod.fst) = true →
    (∀ p ∈ metadata, if p.1 = MetadataKey.proposal.text then p.2 = .str id.text else ∃ text, controlText p.2 = .ok text) →
    t.limited = false →
    ∃ event : ControlEvent, (∀ p ∈ event.metadata, p.1 = MetadataKey.proposal.text → p.2 = id.text) ∧
      t.add L limits (.str (chars kind.value)) metadata = t.append L limits event

/-! ### Canonical identifiers -/

/-- The characters of a canonical identifier. -/
private theorem mem_canonical {s : Str} (h : isCanonicalCallId s = true) :
    ∀ c ∈ s, c ∈ chars "call-" ∨ isDigit c = true := by
  simp only [isCanonicalCallId, Bool.and_eq_true] at h
  obtain ⟨⟨hstart, -⟩, hdigits⟩ := h
  obtain ⟨digits, rfl⟩ := List.isPrefixOf_iff_prefix.1 hstart
  intro c hc
  rcases List.mem_append.1 hc with hc | hc
  · exact .inl hc
  · exact .inr (List.all_eq_true.1 hdigits c hc)

/-- Nothing of a canonical identifier is suspicious. -/
theorem redactControl_of_canonical {s : Str} (h : isCanonicalCallId s = true) : redactControl s = s := by
  have hplain : ∀ c ∈ s, lowerAscii c = c ∧ c ≠ 0x2F ∧ c ≠ 0x5C := by
    intro c hc
    have hall : ∀ c ∈ chars "call-", lowerAscii c = c ∧ c ≠ 0x2F ∧ c ≠ 0x5C := by decide +kernel
    rcases mem_canonical h c hc with hcall | hdigit
    · exact hall c hcall
    · simp only [isDigit, Bool.and_eq_true, decide_eq_true_eq] at hdigit
      refine ⟨?_, by omega, by omega⟩
      unfold lowerAscii
      rw [if_neg]
      simp only [Bool.and_eq_true, decide_eq_true_eq]
      omega
  have hlower : s.map lowerAscii = s := by
    conv_rhs => rw [← List.map_id s]
    exact List.map_congr_left fun c hc => (hplain c hc).1
  have hmarkers : ∀ marker ∈ suspicious, ∃ c ∈ chars marker, c ∉ chars "call-" ∧ isDigit c = false := by decide +kernel
  have hsuspicious : (suspicious.any fun part => containsText (chars part) (s.map lowerAscii)) = false := by
    rw [hlower, List.any_eq_false]
    intro marker hmarker hcontains
    obtain ⟨c, hc, hcall, hdigit⟩ := hmarkers marker hmarker
    rcases mem_canonical h c (mem_of_containsText hcontains c hc) with h | h
    · exact hcall h
    · rw [hdigit] at h
      cases h
  have hslash : (s.head? == some 0x2F) = false := by
    rw [beq_eq_false_iff_ne]
    intro hhead
    exact (hplain _ (List.mem_of_mem_head? hhead)).2.1 rfl
  have hbackslash : s.contains 0x5C = false := by
    rw [Bool.eq_false_iff]
    intro hmem
    exact (hplain _ (List.contains_iff_mem.1 hmem)).2.2 rfl
  unfold redactControl
  rw [hsuspicious, hslash, hbackslash]
  rfl

private theorem ne_nil_of_canonical {s : Str} (h : isCanonicalCallId s = true) : s ≠ [] := by
  rintro rfl
  exact absurd h (by decide +kernel)

theorem controlText_of_canonical {s : Str} (h : isCanonicalCallId s = true) (hlength : s.length ≤ 64) :
    controlText (.str s) = .ok s := by
  have haccepted : s ≠ [] ∧ s.all (· < 0x80) = true ∧ s.length ≤ 64 :=
    ⟨ne_nil_of_canonical h, isAscii_of_canonical h, hlength⟩
  rw [controlText, if_pos haccepted, redactControl_of_canonical h]

example : redactControl (chars "sk-1") = chars "redacted" := by decide +kernel

theorem controlKind?_value (kind : ControlKind) : controlKind? (.str (chars kind.value)) = .ok (some kind) := by
  have hall : ∀ kind ∈ ControlKind.all, ControlKind.ofName? (chars kind.value) = some kind := by decide +kernel
  have hmem : kind ∈ ControlKind.all := by
    cases kind <;> decide
  rw [controlKind?, hall kind hmem]

/-- Metadata are recorded one by one. -/
private theorem exists_controlMetadata {good : Str → Str → Prop} {metadata : List (Str × PyVal)}
    (h : ∀ p ∈ metadata, ∃ text, controlText p.2 = .ok text ∧ good p.1 text) :
    ∃ texts, controlMetadata metadata = .ok texts ∧ ∀ q ∈ texts, good q.1 q.2 := by
  induction metadata with
  | nil => exact ⟨[], rfl, fun q hq => (by cases hq)⟩
  | cons p metadata ih =>
    obtain ⟨⟨text, htext, hgood⟩, hmetadata⟩ := List.forall_mem_cons.1 h
    obtain ⟨texts, htexts, hall⟩ := ih hmetadata
    refine ⟨(p.1, text) :: texts, ?_, List.forall_mem_cons.2 ⟨hgood, hall⟩⟩
    obtain ⟨name, value⟩ := p
    rw [controlMetadata, htext, htexts]
    rfl

theorem ToolCallId.usable_of_canonical {L : Library} {id : ToolCallId} (h : isCanonicalCallId id.text = true)
    (hlength : id.text.length ≤ 64) : id.Usable L where
  stable := by
    have hcanonical := (requireCanonical_eq_ok_iff (L := L)).2 ⟨h, by omega, rfl⟩
    unfold requireCanonical at hcanonical
    exact (require_bind_eq_ok.1 hcanonical).2
  canonical := requireCanonical_eq_ok_iff.2 ⟨h, by omega, rfl⟩
  transcript := by
    intro sensitive limits e _ hothers hfits
    obtain ⟨raw, hcanon, hraw⟩ := hfits.text
    have hids : ∀ other ∈ e.proposalIds, isCanonicalCallId other.text = true ∧ other.text.length ≤ 128 := by
      intro other hother
      by_cases hsame : other = id
      · rw [hsame]
        exact ⟨h, by omega⟩
      · obtain ⟨hcanonical, hle, -⟩ := requireCanonical_eq_ok_iff.1 (hothers other hother hsame)
        exact ⟨hcanonical, hle⟩
    have hwritten : e.toJsonBytes L sensitive limits = .ok raw :=
      (EventFields.toJsonBytes_eq_ok_iff e.valid).2
        ⟨hids, hfits.proposals, hfits.metadata, hfits.sizes, hcanon, hraw⟩
    exact ⟨raw, hwritten, fun hloads => parse_of_preserved hwritten hloads hfits.preserved⟩
  proposal := by
    intro limits p frozen raw hid hfreeze hcanon hraw
    have hdict : frozen.isDict = true := by
      rw [(freezeJson_spec hfreeze).1]
      cases hp : p.arguments with
      | dict _ members => rfl
      | _ =>
        have hfrozen := p.frozen
        rw [hp] at hfrozen
        cases hfrozen
    unfold ProviderToolCallProposal.toJsonBytes checkIdentifier
    rw [hid, h, p.validName, hfreeze]
    show (require frozen.isDict _ >>= fun _ => canon L (p.value frozen) >>= _) = _
    rw [hdict, hcanon]
    show (require (decide (raw.length ≤ limits.toolArgumentBytes)) _ >>= fun _ => Except.ok raw) = _
    rw [decide_eq_true hraw]
    rfl
  control := by
    intro limits t kind metadata hadmits hmetadata hopen
    have htexts : ∀ p ∈ metadata, ∃ text, controlText p.2 = .ok text ∧
        (p.1 = MetadataKey.proposal.text → text = id.text) := by
      intro p hp
      have hvalue := hmetadata p hp
      split at hvalue
      · rw [hvalue, controlText_of_canonical h hlength]
        exact ⟨id.text, rfl, fun _ => rfl⟩
      · rename_i hother
        obtain ⟨text, htext⟩ := hvalue
        exact ⟨text, htext, fun hname => absurd hname hother⟩
    obtain ⟨texts, hall, hgood⟩ := @exists_controlMetadata
      (fun name text => name = MetadataKey.proposal.text → text = id.text) metadata htexts
    refine ⟨⟨kind, texts⟩, hgood, ?_⟩
    have hcheck : BoundedTranscript.checkEvent (.str (chars kind.value)) metadata = .ok ⟨kind, texts⟩ := by
      unfold BoundedTranscript.checkEvent
      rw [controlKind?_value]
      show (require (kind.admits (metadata.map Prod.fst)) _ >>= fun _ => controlMetadata metadata >>= fun texts =>
        Except.ok (ControlEvent.mk kind texts)) = _
      rw [hadmits, hall]
      rfl
    unfold BoundedTranscript.add
    rw [hopen, hcheck]
    rfl

/-! ### What `ToolCallId` makes of an identifier -/

section

variable {L : Library}

/-- A canonical identifier is taken as it is, another one is replaced. -/
theorem ofValue_cases {x : PyVal} {id : ToolCallId} (h : ToolCallId.ofValue L x = .ok id) :
    ∃ s, x = .str s ∧ ((isCanonicalCallId s = true ∧ id = ⟨s⟩) ∨
      (isCanonicalCallId s = false ∧ id = ⟨hashedCallId L s⟩)) := by
  unfold ToolCallId.ofValue at h
  split at h
  · rename_i s
    refine ⟨s, rfl, ?_⟩
    obtain ⟨-, h⟩ := require_bind_eq_ok.1 h
    cases hcanonical : isCanonicalCallId s with
    | true =>
      rw [if_pos hcanonical] at h
      exact .inl ⟨rfl, (Except.ok.inj h).symm⟩
    | false =>
      rw [if_neg (by rw [hcanonical]; exact Bool.false_ne_true)] at h
      obtain ⟨-, h⟩ := require_bind_eq_ok.1 h
      exact .inr ⟨rfl, (Except.ok.inj h).symm⟩
  · cases h

variable (hsha : ∀ raw, IsHexDigest (L.sha256 raw))
include hsha

private theorem length_hashText (raw : Bytes) : (hashText L raw).length = 32 := by
  rw [hashText, List.length_take, List.length_map, (hsha raw).1]
  rfl

/-- The part of a hash is canonical if it has no letter. -/
theorem isCanonical_hashedCallId_iff (s : Str) :
    isCanonicalCallId (hashedCallId L s) = true ↔ (hashText L (s.map UInt8.ofNat)).all isDigit = true := by
  have hne : hashText L (s.map UInt8.ofNat) ≠ [] := by
    intro hnil
    have hlength := length_hashText hsha (s.map UInt8.ofNat)
    rw [hnil] at hlength
    cases hlength
  have hdrop : (hashedCallId L s).drop 5 = hashText L (s.map UInt8.ofNat) := rfl
  have hstart : (chars "call-").isPrefixOf (hashedCallId L s) = true :=
    List.isPrefixOf_iff_prefix.2 (List.prefix_append _ _)
  rw [isCanonicalCallId, hdrop, hstart, bne_iff_ne.2 hne, Bool.true_and, Bool.true_and]

end

private theorem rejected_admits : ControlKind.proposalRejected.admits [MetadataKey.proposal.text] = true := by
  decide +kernel

/-- The control transcript takes no longer texts. -/
private theorem add_refuses_long {L : Library} (limits : Limits) {s : Str} (h : 64 < s.length) :
    (BoundedTranscript.create.add L limits (.str (chars ControlKind.proposalRejected.value))
      [(MetadataKey.proposal.text, .str s)]).2 = .error (.provider .localValidationFailure) := by
  have hrefused : controlText (.str s) = .error (.provider .localValidationFailure) := by
    rw [controlText, if_neg]
    intro haccepted
    exact Nat.not_le.2 h haccepted.2.2
  have hcheck : BoundedTranscript.checkEvent (.str (chars ControlKind.proposalRejected.value))
      [(MetadataKey.proposal.text, .str s)] = .error (.provider .localValidationFailure) := by
    unfold BoundedTranscript.checkEvent
    rw [controlKind?_value]
    show (require (ControlKind.proposalRejected.admits [MetadataKey.proposal.text]) .localValidationFailure >>= fun _ =>
      controlMetadata [(MetadataKey.proposal.text, .str s)] >>= fun texts =>
        Except.ok (ControlEvent.mk .proposalRejected texts)) = _
    rw [rejected_admits, controlMetadata, hrefused]
    rfl
  unfold BoundedTranscript.add
  rw [hcheck]
  rfl

/-- An event that is well formed is refused for the size of the transcript only. -/
private theorem append_not_refused {L : Library} (limits : Limits) (t : BoundedTranscript) (event : ControlEvent) :
    (t.append L limits event).2 ≠ .error (.provider .localValidationFailure) := by
  unfold BoundedTranscript.append
  dsimp only
  intro heq
  split at heq
  · cases heq
  split at heq
  · cases heq
  · cases heq

/-- The identifiers that are taken everywhere: canonical ones of at most 64 characters, and legacy ones in whose hash
the first 32 digits are decimal. -/
def IsKeptCallId (L : Library) (x : PyVal) : Prop :=
  ∃ s, x = .str s ∧ ((isCanonicalCallId s = true ∧ s.length ≤ 64) ∨
    (isCanonicalCallId s = false ∧ (hashText L (s.map UInt8.ofNat)).all isDigit = true))

theorem toolCallId_usable_iff (L : Library) (hsha : ∀ raw, IsHexDigest (L.sha256 raw)) (x : PyVal) (id : ToolCallId)
    (h : ToolCallId.ofValue L x = .ok id) : id.Usable L ↔ IsKeptCallId L x := by
  obtain ⟨s, rfl, hcases⟩ := ofValue_cases h
  constructor
  · intro husable
    refine ⟨s, rfl, ?_⟩
    have hcanonical := (requireCanonical_eq_ok_iff.1 husable.canonical).1
    rcases hcases with ⟨hs, rfl⟩ | ⟨hs, rfl⟩
    · obtain ⟨event, -, hadd⟩ := husable.control defaultLimits .create .proposalRejected
        [(MetadataKey.proposal.text, .str s)] rejected_admits
        (by
          intro p hp
          rw [List.mem_singleton.1 hp, if_pos rfl]) rfl
      by_cases hlength : s.length ≤ 64
      · exact .inl ⟨hs, hlength⟩
      · have hraised := add_refuses_long (L := L) defaultLimits (by omega : 64 < s.length)
        rw [hadd] at hraised
        exact absurd hraised (append_not_refused _ _ _)
    · exact .inr ⟨hs, (isCanonical_hashedCallId_iff hsha s).1 hcanonical⟩
  · rintro ⟨s', hsame, hkept⟩
    cases hsame
    rcases hcases with ⟨hs, rfl⟩ | ⟨hs, rfl⟩
    · rcases hkept with ⟨-, hlength⟩ | ⟨hother, -⟩
      · exact ToolCallId.usable_of_canonical hs hlength
      · rw [hs] at hother
        cases hother
    · rcases hkept with ⟨hother, -⟩ | ⟨-, hdigits⟩
      · rw [hs] at hother
        cases hother
      · refine ToolCallId.usable_of_canonical ((isCanonical_hashedCallId_iff hsha s).2 hdigits) ?_
        show (chars "call-" ++ hashText L (s.map UInt8.ofNat)).length ≤ 64
        rw [List.length_append, length_hashText hsha]
        decide +kernel

/-- A library in which every hash is this one. -/
def hashLibrary (digest : String) : Library where
  loads _ := .error .malformedJson
  floatRepr _ := []
  sha256 _ := bytes digest

/-- The SHA-256 of `legacy-id`. -/
def legacyDigest : String := "f04fb56ceb292d8ab75069db52d8ae9ab2acc76e0cc006981295a2d9a2323482"

private theorem legacyDigest_hex : ∀ raw, IsHexDigest ((hashLibrary legacyDigest).sha256 raw) := by
  intro raw
  show (bytes legacyDigest).length = 64 ∧ ∀ b ∈ bytes legacyDigest, isHexDigit b.toNat = true
  decide +kernel

theorem toolCallId_usable_sample :
    (⟨chars "call-1"⟩ : ToolCallId).Usable (hashLibrary legacyDigest) ↔
      IsKeptCallId (hashLibrary legacyDigest) (.str (chars "call-1")) :=
  toolCallId_usable_iff _ legacyDigest_hex _ _ (by rfl)

/-- The identifier that replaces `legacy-id` has letters. -/
theorem legacy_id_is_not_canonical : ¬ ∀ (L : Library) (x : PyVal) (id : ToolCallId),
    (∀ raw, IsHexDigest (L.sha256 raw)) → ToolCallId.ofValue L x = .ok id → id.Usable L := by
  intro h
  have haccepted : ToolCallId.ofValue (hashLibrary legacyDigest) (.str (chars "legacy-id")) =
      .ok ⟨hashedCallId (hashLibrary legacyDigest) (chars "legacy-id")⟩ := by rfl
  have husable := h _ _ _ legacyDigest_hex haccepted
  have hcanonical := (requireCanonical_eq_ok_iff.1 husable.canonical).1
  revert hcanonical
  decide +kernel

end NativeMcp.Agent
