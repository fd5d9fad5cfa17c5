import NativeMcp.Agent.Orchestrator
import NativeMcp.Agent.TranscriptAcceptance

/-!
# A control transcript that grows

The replay passes one more event if the events before it permit it (`Replays.concat`).  A transcript `Traces` what has
been authorized, requested and validated so far: it is the invariant of everything that a run records, and `records`
says how an event that is permitted keeps it, also where it is the one that ends the transcript.
-/

namespace NativeMcp.Agent

open BoundedTranscript (Reserved fits)

/-! ### One more event -/

/-- The replay passes these events. -/
def Replays (events : List ControlEvent) : Prop := ∃ r, events.foldlM Replay.step .start = .ok r

/-- The replay passes this event after these. -/
structure Permitted (events : List ControlEvent) (e : ControlEvent) : Prop where
  authorized : ∀ action, authorizedAction e = some action → action ∉ events.filterMap authorizedAction
  requested : ∀ pair, requestedPair e = some pair → pair.1 ∈ events.filterMap authorizedAction ∧
    pair.1 ∉ (events.filterMap requestedPair).map Prod.fst ∧ pair.2 ∉ (events.filterMap requestedPair).map Prod.snd
  responded : ∀ pair, respondedPair e = some pair → pair ∈ events.filterMap requestedPair ∧
    pair ∉ events.filterMap respondedPair
  evidenced : ∀ pair, evidencedPair e = some pair → pair ∈ events.filterMap respondedPair ∧
    pair ∉ events.filterMap evidencedPair

/-- What the sets allow, the step passes. -/
theorem Replay.step_of_allows {r : Replay} {e : ControlEvent} (h : r.Allows e) : ∃ r', r.step e = .ok r' := by
  unfold Replay.step
  dsimp only
  cases hkind : e.kind
  case authorized =>
    have hfresh := h.authorized (e.get .action) (if_pos hkind)
    dsimp only
    rw [require_eq_ok_iff.2 (by simpa using hfresh)]
    exact ⟨_, rfl⟩
  case mcpRequest =>
    obtain ⟨hauthorized, hpair, haction, hresponse⟩ := h.requested e.pair (if_pos hkind)
    have hpair : (e.get .action, e.get .response) ∉ r.requestedPairs := hpair
    have haction : e.get .action ∉ r.requestActions := haction
    have hresponse : e.get .response ∉ r.requestResponses := hresponse
    have hauthorized : e.get .action ∈ r.authorizedActions := hauthorized
    dsimp only
    rw [require_eq_ok_iff.2 (by simp [hauthorized, hpair, haction, hresponse])]
    exact ⟨_, rfl⟩
  case mcpResponse =>
    obtain ⟨hrequested, hfresh⟩ := h.responded e.pair (if_pos hkind)
    have hrequested : (e.get .action, e.get .response) ∈ r.requestedPairs := hrequested
    have hfresh : (e.get .action, e.get .response) ∉ r.respondedPairs := hfresh
    dsimp only
    rw [require_eq_ok_iff.2 (by simp [hrequested, hfresh])]
    exact ⟨_, rfl⟩
  case evidenceValidated =>
    obtain ⟨hresponded, hfresh⟩ := h.evidenced e.pair (if_pos hkind)
    have hresponded : (e.get .action, e.get .response) ∈ r.respondedPairs := hresponded
    have hfresh : (e.get .action, e.get .response) ∉ r.evidencedPairs := hfresh
    dsimp only
    rw [require_eq_ok_iff.2 (by simp [hresponded, hfresh])]
    exact ⟨_, rfl⟩
  all_goals exact ⟨r, rfl⟩

namespace Replays

variable {events : List ControlEvent} {e : ControlEvent}

theorem nil : Replays [] := ⟨.start, rfl⟩

theorem concat (h : Replays events) (he : Permitted events e) : Replays (events ++ [e]) := by
  obtain ⟨r, hr⟩ := h
  have hholds : r.Holds events := Replay.sets_of_replay Replay.holds_start hr
  have hallows : r.Allows e := by
    constructor
    · intro action haction
      rw [hholds.authorized]
      exact he.authorized action haction
    · intro pair hpair
      obtain ⟨hauthorized, haction, hresponse⟩ := he.requested pair hpair
      rw [hholds.authorized, hholds.requested, hholds.actions, hholds.responses]
      exact ⟨hauthorized, fun hmem => haction (List.mem_map_of_mem hmem), haction, hresponse⟩
    · intro pair hpair
      rw [hholds.requested, hholds.responded]
      exact he.responded pair hpair
    · intro pair hpair
      rw [hholds.responded, hholds.evidenced]
      exact he.evidenced pair hpair
  obtain ⟨r', hr'⟩ := Replay.step_of_allows hallows
  refine ⟨r', ?_⟩
  rw [List.foldlM_append, hr]
  show List.foldlM Replay.step r [e] = _
  rw [List.foldlM_cons, hr']
  rfl

/-- Each response goes back to a request. -/
theorem requested_of_responded (h : Replays events) {pair : Str × Str} (hpair : pair ∈ events.filterMap respondedPair) :
    pair ∈ events.filterMap requestedPair := by
  obtain ⟨r, hr⟩ := h
  obtain ⟨e, he, hkey⟩ := List.mem_filterMap.1 hpair
  obtain ⟨before, after, hsplit⟩ := List.append_of_mem he
  obtain ⟨s, hholds, hallows⟩ := Replay.allowed hr hsplit
  have hbefore := (hholds.requested pair).1 (hallows.responded pair hkey).1
  rw [hsplit, List.filterMap_append]
  exact List.mem_append_left _ hbefore

/-- All evidence goes back to a response. -/
theorem responded_of_evidenced (h : Replays events) {pair : Str × Str} (hpair : pair ∈ events.filterMap evidencedPair) :
    pair ∈ events.filterMap respondedPair := by
  obtain ⟨r, hr⟩ := h
  obtain ⟨e, he, hkey⟩ := List.mem_filterMap.1 hpair
  obtain ⟨before, after, hsplit⟩ := List.append_of_mem he
  obtain ⟨s, hholds, hallows⟩ := Replay.allowed hr hsplit
  have hbefore := (hholds.responded pair).1 (hallows.evidenced pair hkey).1
  rw [hsplit, List.filterMap_append]
  exact List.mem_append_left _ hbefore

end Replays

/-! ### What `add` records -/

/-- A call of `add` on this transcript leaves that one: it is limited, it takes the event, or it takes the terminal
record in its place. -/
def Records (t : BoundedTranscript) (e : ControlEvent) (t' : BoundedTranscript) : Prop :=
  t.limited = true ∧ t' = t ∨ t.limited = false ∧ t' = ⟨t.events ++ [e], false⟩ ∨
    t.limited = false ∧ t' = ⟨t.events ++ [terminal], true⟩

/-- The event that `add` makes of its arguments. -/
def recordedEvent (kind : ControlKind) (metadata : List (MetadataKey × Str)) : ControlEvent :=
  ⟨kind, metadata.map fun p => (p.1.text, redactControl p.2)⟩

/-- `add` accepts each text. -/
def AreTexts (metadata : List (MetadataKey × Str)) : Prop :=
  ∀ p ∈ metadata, p.2 ≠ [] ∧ isAscii p.2 = true ∧ p.2.length ≤ 64

section

variable {kind : ControlKind} {metadata : List (MetadataKey × Str)}

private theorem controlMetadata_eq (metadata : List (MetadataKey × Str)) :
    (AreTexts metadata ∧ controlMetadata (metadata.map fun p => (p.1.text, .str p.2)) =
      .ok (recordedEvent kind metadata).metadata) ∨
    (¬ AreTexts metadata ∧ controlMetadata (metadata.map fun p => (p.1.text, .str p.2)) =
      .error (.provider .localValidationFailure)) := by
  induction metadata with
  | nil => exact .inl ⟨fun p hp => absurd hp List.not_mem_nil, rfl⟩
  | cons p metadata ih =>
    have hcons : AreTexts (p :: metadata) ↔ (p.2 ≠ [] ∧ isAscii p.2 = true ∧ p.2.length ≤ 64) ∧ AreTexts metadata :=
      List.forall_mem_cons
    rw [List.map_cons, controlMetadata, controlText]
    by_cases hp : p.2 ≠ [] ∧ p.2.all (· < 0x80) = true ∧ p.2.length ≤ 64
    · rw [if_pos hp]
      rcases ih with ⟨htexts, heq⟩ | ⟨htexts, heq⟩
      · refine .inl ⟨hcons.2 ⟨hp, htexts⟩, ?_⟩
        rw [heq]
        rfl
      · refine .inr ⟨fun h => htexts (hcons.1 h).2, ?_⟩
        rw [heq]
        rfl
    · rw [if_neg hp]
      exact .inr ⟨fun h => hp (hcons.1 h).1, rfl⟩

theorem length_redactControl {s : Str} (h : isAscii s = true ∧ s.length ≤ 64) :
    (redactControl s).length ≤ 64 ∧ isAscii (redactControl s) = true := by
  unfold redactControl
  split
  · decide
  · exact ⟨h.2, h.1⟩

theorem recordedEvent_shaped (hschema : metadata.map Prod.fst = kind.schema) (htexts : AreTexts metadata) :
    (recordedEvent kind metadata).IsShaped := by
  constructor
  · show (metadata.map _).map Prod.fst = kind.schema.map _
    rw [← hschema, List.map_map, List.map_map]
    rfl
  · intro p hp
    obtain ⟨q, hq, rfl⟩ := List.mem_map.1 hp
    obtain ⟨-, hascii, hlength⟩ := htexts q hq
    exact length_redactControl ⟨hascii, hlength⟩

variable {L : Library} {limits : Limits} {t : BoundedTranscript}

/-- There is always room for the terminal record. -/
theorem fits_of_reserved (hroom : fits L limits [] = true) (h : Reserved L limits t) (hopen : t.limited = false) :
    fits L limits t.events = true := by
  by_cases hnil : t.events = []
  · rw [hnil]
    exact hroom
  · exact h.fits hopen hnil

/-- A call with the metadata of the schema: it records its event, or a text is refused and nothing changes. -/
theorem add_records (hroom : fits L limits [] = true) (hreserved : Reserved L limits t)
    (hschema : metadata.map Prod.fst = kind.schema) :
    (∃ t', t.add L limits (.str (chars kind.value)) (metadata.map fun p => (p.1.text, .str p.2)) = (t', .ok ()) ∧
      Records t (recordedEvent kind metadata) t' ∧ Reserved L limits t' ∧ (t.limited = false → AreTexts metadata)) ∨
    (t.limited = false ∧ ¬ AreTexts metadata ∧
      t.add L limits (.str (chars kind.value)) (metadata.map fun p => (p.1.text, .str p.2)) =
        (t, .error (.provider .localValidationFailure))) := by
  have hafter := hreserved.after ⟨.str (chars kind.value), metadata.map fun p => (p.1.text, .str p.2)⟩
  unfold BoundedTranscript.after at hafter
  dsimp only at hafter
  by_cases hlimited : t.limited = true
  · refine .inl ⟨t, ?_, .inl ⟨hlimited, rfl⟩, hreserved, fun h => by rw [hlimited] at h; cases h⟩
    unfold BoundedTranscript.add
    rw [if_pos hlimited]
  · have hopen : t.limited = false := by simpa using hlimited
    have hnames : kind.admits ((metadata.map fun p => (p.1.text, PyVal.str p.2)).map Prod.fst) = true := by
      have hadmits := ControlEvent.admits_schema kind
      rw [← hschema, List.map_map] at hadmits
      rw [List.map_map]
      exact hadmits
    have hcheck : BoundedTranscript.checkEvent (.str (chars kind.value))
        (metadata.map fun p => (p.1.text, .str p.2)) =
        controlMetadata (metadata.map fun p => (p.1.text, .str p.2)) >>= fun texts => .ok ⟨kind, texts⟩ := by
      unfold BoundedTranscript.checkEvent
      rw [controlKind?_value]
      show (require (kind.admits _) .localValidationFailure >>= fun _ => _) = _
      rw [hnames, require_eq_ok_iff.2 rfl]
      rfl
    unfold BoundedTranscript.add at hafter ⊢
    rw [if_neg hlimited, hcheck] at hafter ⊢
    rcases @controlMetadata_eq kind metadata with ⟨htexts, heq⟩ | ⟨htexts, heq⟩
    · left
      rw [heq] at hafter ⊢
      dsimp only [ok_bind] at hafter ⊢
      have hfits := fits_of_reserved hroom hreserved hopen
      have hevent : (⟨kind, (recordedEvent kind metadata).metadata⟩ : ControlEvent) = recordedEvent kind metadata := rfl
      rw [hevent] at hafter ⊢
      unfold BoundedTranscript.append at hafter ⊢
      dsimp only at hafter ⊢
      by_cases haccept : (recordedEvent kind metadata).kind ≠ .transcriptLimit ∧
          (t.events ++ [recordedEvent kind metadata]).length < limits.transcriptEventCount ∧
          fits L limits (t.events ++ [recordedEvent kind metadata]) = true
      · rw [if_pos haccept] at hafter ⊢
        exact ⟨_, rfl, .inr (.inl ⟨hopen, by rw [hopen]⟩), hafter, fun _ => htexts⟩
      · rw [if_neg haccept, if_pos hfits] at hafter ⊢
        exact ⟨_, rfl, .inr (.inr ⟨hopen, rfl⟩), hafter, fun _ => htexts⟩
    · right
      rw [heq]
      exact ⟨hopen, htexts, rfl⟩

end

/-! ### The invariant of a run -/

/-- The transcript traces what has been done: these actions have been registered, this identifier comes next, and this
is the evidence. -/
structure Traces (L : Library) (limits : Limits) (t : BoundedTranscript) (actions : List Str) (nextId : Nat)
    (evidence : List (Str × Str)) : Prop where
  reserved : Reserved L limits t
  shaped : ∀ e ∈ t.events, e.IsShaped
  replays : Replays t.events
  authorized : ∀ action ∈ t.events.filterMap authorizedAction, action ∈ actions
  requested : ∀ pair ∈ t.events.filterMap requestedPair, pair.1 ∈ actions ∧ ∃ n < nextId, pair.2 = decimalText n
  evidenced : t.limited = false → t.events.filterMap evidencedPair = evidence

section

variable {L : Library} {limits : Limits} {t t' : BoundedTranscript} {actions actions' : List Str}
  {nextId nextId' : Nat} {evidence evidence' : List (Str × Str)} {e : ControlEvent}

private theorem mem_filterMap_concat {κ : Type} {key : ControlEvent → Option κ} {events : List ControlEvent} {k : κ} :
    k ∈ (events ++ [e]).filterMap key ↔ k ∈ events.filterMap key ∨ key e = some k := by
  rw [List.filterMap_append, List.mem_append]
  refine or_congr_right ?_
  simp [List.mem_filterMap]

theorem Traces.create : Traces L limits .create actions nextId [] where
  reserved := .empty
  shaped := fun _ he => absurd he List.not_mem_nil
  replays := .nil
  authorized := fun _ haction => absurd haction List.not_mem_nil
  requested := fun _ hpair => absurd hpair List.not_mem_nil
  evidenced := fun _ => rfl

/-- What is not in the transcript can grow. -/
theorem Traces.mono (h : Traces L limits t actions nextId evidence) (hactions : actions ⊆ actions')
    (hnext : nextId ≤ nextId') : Traces L limits t actions' nextId' evidence where
  reserved := h.reserved
  shaped := h.shaped
  replays := h.replays
  authorized := fun action haction => hactions (h.authorized action haction)
  requested := by
    intro pair hpair
    obtain ⟨haction, n, hn, htext⟩ := h.requested pair hpair
    exact ⟨hactions haction, n, by omega, htext⟩
  evidenced := h.evidenced

/-- An event that is permitted keeps the trace, with the evidence that it adds. -/
theorem Traces.records (h : Traces L limits t actions nextId evidence) (hrecords : Records t e t')
    (hreserved : Reserved L limits t') (hshaped : t.limited = false → e.IsShaped)
    (hpermitted : t.limited = false → Permitted t.events e)
    (hauthorized : ∀ action, authorizedAction e = some action → action ∈ actions)
    (hrequested : ∀ pair, requestedPair e = some pair → pair.1 ∈ actions ∧ ∃ n < nextId, pair.2 = decimalText n) :
    Traces L limits t' actions nextId (evidence ++ (evidencedPair e).toList) := by
  rcases hrecords with ⟨hlimited, rfl⟩ | ⟨hopen, rfl⟩ | ⟨hopen, rfl⟩
  · exact ⟨h.reserved, h.shaped, h.replays, h.authorized, h.requested, fun hopen => by rw [hlimited] at hopen; cases hopen⟩
  · refine ⟨hreserved, ?_, h.replays.concat (hpermitted hopen), ?_, ?_, ?_⟩
    · intro e' he'
      rcases List.mem_append.1 he' with hold | hnew
      · exact h.shaped e' hold
      · rw [List.mem_singleton.1 hnew]
        exact hshaped hopen
    · intro action haction
      rcases mem_filterMap_concat.1 haction with hold | hnew
      · exact h.authorized action hold
      · exact hauthorized action hnew
    · intro pair hpair
      rcases mem_filterMap_concat.1 hpair with hold | hnew
      · exact h.requested pair hold
      · exact hrequested pair hnew
    · intro _
      show (t.events ++ [e]).filterMap evidencedPair = _
      have hlast : [e].filterMap evidencedPair = (evidencedPair e).toList := by
        cases hpair : evidencedPair e with
        | none => exact List.filterMap_cons_none hpair
        | some pair => exact List.filterMap_cons_some hpair
      rw [List.filterMap_append, h.evidenced hopen, hlast]
  · -- the terminal record refers to nothing
    have hterminal : Permitted t.events terminal := by
      constructor
      · intro action haction
        cases haction
      · intro pair hpair
        cases hpair
      · intro pair hpair
        cases hpair
      · intro pair hpair
        cases hpair
    refine ⟨hreserved, ?_, h.replays.concat hterminal, ?_, ?_, fun hopen' => by cases hopen'⟩
    · intro e' he'
      rcases List.mem_append.1 he' with hold | hnew
      · exact h.shaped e' hold
      · rw [List.mem_singleton.1 hnew]
        exact ⟨rfl, fun p hp => absurd hp List.not_mem_nil⟩
    · intro action haction
      rcases mem_filterMap_concat.1 haction with hold | hnew
      · exact h.authorized action hold
      · cases hnew
    · intro pair hpair
      rcases mem_filterMap_concat.1 hpair with hold | hnew
      · exact h.requested pair hold
      · cases hnew

end

/-! ### The texts of a call -/

/-- Nothing of a hexadecimal text is suspicious. -/
theorem redactControl_of_hex {s : Str} (h : ∀ c ∈ s, isHexDigit c = true) : redactControl s = s := by
  have hplain : ∀ c ∈ s, lowerAscii c = c ∧ c ≠ 0x2F ∧ c ≠ 0x5C := by
    intro c hc
    have hhex := h c hc
    simp only [isHexDigit, isDigit, Bool.or_eq_true, Bool.and_eq_true, decide_eq_true_eq] at hhex
    refine ⟨?_, by omega, by omega⟩
    unfold lowerAscii
    rw [if_neg]
    simp only [Bool.and_eq_true, decide_eq_true_eq]
    omega
  have hlower : s.map lowerAscii = s := by
    conv_rhs => rw [← List.map_id s]
    exact List.map_congr_left fun c hc => (hplain c hc).1
  have hmarkers : ∀ marker ∈ suspicious, ∃ c ∈ chars marker, isHexDigit c = false := by decide +kernel
  have hsuspicious : (suspicious.any fun part => containsText (chars part) (s.map lowerAscii)) = false := by
    rw [hlower, List.any_eq_false]
    intro marker hmarker hcontains
    obtain ⟨c, hc, hother⟩ := hmarkers marker hmarker
    have hhex := h c (mem_of_containsText hcontains c hc)
    rw [hother] at hhex
    cases hhex
  have hslash : (s.head? == some 0x2F) = false := by
    rw [beq_eq_false_iff_ne]
    intro hhead
    exact (hplain _ (List.mem_of_mem_head? hhead)).2.1 rfl
  have hbackslash : s.contains 0x5C = false := by
    rw [Bool.eq_false_iff]
    intro hmem
    exact (hplain _ (List.contains_iff_mem.1 hmem)).2.2 rfl
  unfold redactControl
  rw [hsuspicious, hslash, hbackslash]
  rfl

theorem LocalActionIdentity.hex (action : LocalActionIdentity) : ∀ c ∈ action.value, isHexDigit c = true := by
  have hvalid := action.valid
  unfold isActionIdentity at hvalid
  rw [Bool.and_eq_true, List.all_eq_true] at hvalid
  exact hvalid.2

theorem decimalText_hex (n : Nat) : ∀ c ∈ decimalText n, isHexDigit c = true := by
  intro c hc
  obtain ⟨d, hd, rfl⟩ := List.mem_map.1 hc
  have hdigit := Nat.isDigit_of_mem_toDigits (by decide) (by decide) hd
  have hlow : 0x30 ≤ d.toNat := of_decide_eq_true (Bool.and_eq_true_iff.1 hdigit).1
  have hhigh : d.toNat ≤ 0x39 := of_decide_eq_true (Bool.and_eq_true_iff.1 hdigit).2
  unfold isHexDigit isDigit
  simp only [Bool.or_eq_true, Bool.and_eq_true, decide_eq_true_eq]
  omega

theorem decimalText_inj {n m : Nat} (h : decimalText n = decimalText m) : n = m := by
  have hback : ∀ k, (decimalText k).map Char.ofNat = Nat.toDigits 10 k := by
    intro k
    unfold decimalText
    rw [List.map_map]
    conv_rhs => rw [← List.map_id (Nat.toDigits 10 k)]
    exact List.map_congr_left fun c _ => Char.ofNat_toNat c
  have hdigits : Nat.toDigits 10 n = Nat.toDigits 10 m := by
    rw [← hback n, ← hback m, h]
  have hn := @Nat.ofDigitChars_ten_toDigits n
  rw [hdigits, Nat.ofDigitChars_ten_toDigits] at hn
  exact hn.symm

private theorem text_beq (a b : MetadataKey) : (a.text == b.text) = (a == b) := by
  cases a <;> cases b <;> decide +kernel

theorem get_recordedEvent (kind : ControlKind) (metadata : List (MetadataKey × Str)) (key : MetadataKey) :
    (recordedEvent kind metadata).get key = ((metadata.lookup key).map redactControl).getD [] := by
  have hlookup : (metadata.map fun p => (p.1.text, redactControl p.2)).lookup key.text =
      (metadata.lookup key).map redactControl := by
    induction metadata with
    | nil => rfl
    | cons p metadata ih =>
      rw [List.map_cons, List.lookup_cons, List.lookup_cons, text_beq, ih]
      cases key == p.1 <;> rfl
  unfold ControlEvent.get recordedEvent
  rw [hlookup]

/-- The event of a call of this action under this identifier. -/
def callEvent (kind : ControlKind) (action : LocalActionIdentity) (id : Nat) : ControlEvent :=
  recordedEvent kind [(.action, action.value), (.response, decimalText id)]

theorem pair_callEvent (kind : ControlKind) (action : LocalActionIdentity) (id : Nat) :
    (callEvent kind action id).pair = (action.value, decimalText id) := by
  have haction := redactControl_of_hex action.hex
  have hid := redactControl_of_hex (decimalText_hex id)
  unfold ControlEvent.pair callEvent
  rw [get_recordedEvent, get_recordedEvent]
  show (redactControl action.value, redactControl (decimalText id)) = _
  rw [haction, hid]

/-! ### The events of a call -/

section

variable {L : Library} {limits : Limits} {t t' : BoundedTranscript} {actions : List Str} {nextId : Nat}
  {evidence : List (Str × Str)} {action : LocalActionIdentity} {id : Nat}

theorem Records.opened {e : ControlEvent} (h : Records t e t') (hopen : t'.limited = false) :
    t.limited = false ∧ t'.events = t.events ++ [e] := by
  rcases h with ⟨hlimited, rfl⟩ | ⟨hopen', rfl⟩ | ⟨hopen', rfl⟩
  · rw [hlimited] at hopen
    cases hopen
  · exact ⟨hopen', rfl⟩
  · cases hopen

/-- An event that refers to nothing keeps the trace. -/
theorem Traces.plain {e : ControlEvent} (h : Traces L limits t actions nextId evidence) (hrecords : Records t e t')
    (hreserved : Reserved L limits t') (hshaped : t.limited = false → e.IsShaped)
    (hplain : e.kind ∉ [ControlKind.authorized, .mcpRequest, .mcpResponse, .evidenceValidated]) :
    Traces L limits t' actions nextId evidence := by
  have hauthorized : authorizedAction e = none := if_neg fun hkind => hplain (by simp [hkind])
  have hrequested : requestedPair e = none := if_neg fun hkind => hplain (by simp [hkind])
  have hresponded : respondedPair e = none := if_neg fun hkind => hplain (by simp [hkind])
  have hevidenced : evidencedPair e = none := if_neg fun hkind => hplain (by simp [hkind])
  have hpermitted : Permitted t.events e := by
    constructor
    · intro action haction
      rw [hauthorized] at haction
      cases haction
    · intro pair hpair
      rw [hrequested] at hpair
      cases hpair
    · intro pair hpair
      rw [hresponded] at hpair
      cases hpair
    · intro pair hpair
      rw [hevidenced] at hpair
      cases hpair
  have htraces := h.records hrecords hreserved hshaped (fun _ => hpermitted)
    (fun action haction => by rw [hauthorized] at haction; cases haction)
    (fun pair hpair => by rw [hrequested] at hpair; cases hpair)
  rw [hevidenced] at htraces
  rwa [show evidence ++ (none : Option (Str × Str)).toList = evidence from List.append_nil _] at htraces

/-- An action is authorized for the first time. -/
theorem Traces.authorize {proposalId : Str} (h : Traces L limits t actions nextId evidence)
    (hfresh : action.value ∉ actions)
    (hrecords : Records t (recordedEvent .authorized [(.action, action.value), (.proposal, proposalId)]) t')
    (hreserved : Reserved L limits t')
    (hshaped : t.limited = false →
      (recordedEvent .authorized [(.action, action.value), (.proposal, proposalId)]).IsShaped) :
    Traces L limits t' (action.value :: actions) nextId evidence ∧
      (t'.limited = false → action.value ∈ t'.events.filterMap authorizedAction ∧
        action.value ∉ (t'.events.filterMap requestedPair).map Prod.fst) := by
  generalize he : recordedEvent .authorized [(.action, action.value), (.proposal, proposalId)] = e at *
  have haction : authorizedAction e = some action.value := by
    have hget : e.get .action = redactControl action.value := by
      rw [← he, get_recordedEvent]
      rfl
    have hkind : e.kind = .authorized := by rw [← he]; rfl
    unfold authorizedAction
    rw [if_pos hkind, hget, redactControl_of_hex action.hex]
  have hrequested : requestedPair e = none := by
    rw [← he]
    rfl
  have hevidenced : evidencedPair e = none := by
    rw [← he]
    rfl
  have hgrown := h.mono (List.subset_cons_self action.value actions) (Nat.le_refl nextId)
  have hpermitted : Permitted t.events e := by
    constructor
    · intro other hother hmem
      rw [haction] at hother
      cases hother
      exact hfresh (h.authorized _ hmem)
    · intro pair hpair
      rw [hrequested] at hpair
      cases hpair
    · intro pair hpair
      rw [← he] at hpair
      cases hpair
    · intro pair hpair
      rw [hevidenced] at hpair
      cases hpair
  have htraces := hgrown.records hrecords hreserved hshaped (fun _ => hpermitted)
    (fun other hother => by rw [haction] at hother; cases hother; exact List.mem_cons_self)
    (fun pair hpair => by rw [hrequested] at hpair; cases hpair)
  rw [hevidenced, show evidence ++ (none : Option (Str × Str)).toList = evidence from List.append_nil _] at htraces
  refine ⟨htraces, fun hopen => ?_⟩
  obtain ⟨-, hevents⟩ := hrecords.opened hopen
  rw [hevents, List.filterMap_append, List.filterMap_append, List.filterMap_cons_some haction,
    List.filterMap_cons_none hrequested]
  refine ⟨List.mem_append_right _ List.mem_cons_self, ?_⟩
  rw [List.filterMap_nil, List.append_nil]
  intro hmem
  obtain ⟨pair, hpair, hsame⟩ := List.mem_map.1 hmem
  exact hfresh (hsame ▸ (h.requested pair hpair).1)

/-- An authorized action is requested for the first time. -/
theorem Traces.request (h : Traces L limits t actions nextId evidence) (haction : action.value ∈ actions)
    (hauthorized : t.limited = false → action.value ∈ t.events.filterMap authorizedAction ∧
      action.value ∉ (t.events.filterMap requestedPair).map Prod.fst)
    (hrecords : Records t (callEvent .mcpRequest action nextId) t') (hreserved : Reserved L limits t')
    (hshaped : t.limited = false → (callEvent .mcpRequest action nextId).IsShaped) :
    Traces L limits t' actions (nextId + 1) evidence ∧
      (t'.limited = false → (action.value, decimalText nextId) ∈ t'.events.filterMap requestedPair ∧
        (action.value, decimalText nextId) ∉ t'.events.filterMap respondedPair) := by
  have hpair : requestedPair (callEvent .mcpRequest action nextId) = some (action.value, decimalText nextId) :=
    congrArg some (pair_callEvent .mcpRequest action nextId)
  have hresponded : respondedPair (callEvent .mcpRequest action nextId) = none := rfl
  -- no request has used the identifier
  have hid : decimalText nextId ∉ (t.events.filterMap requestedPair).map Prod.snd := by
    intro hmem
    obtain ⟨pair, hmem, hsame⟩ := List.mem_map.1 hmem
    obtain ⟨-, n, hn, htext⟩ := h.requested pair hmem
    have heq : n = nextId := decimalText_inj (htext.symm.trans hsame)
    omega
  have hgrown := h.mono (List.Subset.refl actions) (Nat.le_succ nextId)
  have hpermitted : t.limited = false → Permitted t.events (callEvent .mcpRequest action nextId) := by
    intro hopen
    constructor
    · intro other hother
      cases hother
    · intro pair hsome
      rw [hpair] at hsome
      cases hsome
      exact ⟨(hauthorized hopen).1, (hauthorized hopen).2, hid⟩
    · intro pair hsome
      cases hsome
    · intro pair hsome
      cases hsome
  have htraces := hgrown.records hrecords hreserved hshaped hpermitted (fun other hother => by cases hother)
    (fun pair hsome => by
      rw [hpair] at hsome
      cases hsome
      exact ⟨haction, nextId, Nat.lt_succ_self _, rfl⟩)
  rw [show evidence ++ (evidencedPair (callEvent .mcpRequest action nextId)).toList = evidence from
    List.append_nil _] at htraces
  refine ⟨htraces, fun hopen => ?_⟩
  obtain ⟨hopen', hevents⟩ := hrecords.opened hopen
  rw [hevents, List.filterMap_append, List.filterMap_append, List.filterMap_cons_some hpair,
    List.filterMap_cons_none hresponded]
  refine ⟨List.mem_append_right _ List.mem_cons_self, ?_⟩
  rw [List.filterMap_nil, List.append_nil]
  intro hmem
  exact (hauthorized hopen').2 (List.mem_map_of_mem (h.replays.requested_of_responded hmem))

/-- A request is answered for the first time. -/
theorem Traces.respond (h : Traces L limits t actions nextId evidence)
    (hrequested : t.limited = false → (action.value, decimalText id) ∈ t.events.filterMap requestedPair ∧
      (action.value, decimalText id) ∉ t.events.filterMap respondedPair)
    (hrecords : Records t (callEvent .mcpResponse action id) t') (hreserved : Reserved L limits t')
    (hshaped : t.limited = false → (callEvent .mcpResponse action id).IsShaped) :
    Traces L limits t' actions nextId evidence ∧
      (t'.limited = false → (action.value, decimalText id) ∈ t'.events.filterMap respondedPair ∧
        (action.value, decimalText id) ∉ t'.events.filterMap evidencedPair) := by
  have hpair : respondedPair (callEvent .mcpResponse action id) = some (action.value, decimalText id) :=
    congrArg some (pair_callEvent .mcpResponse action id)
  have hevidenced : evidencedPair (callEvent .mcpResponse action id) = none := rfl
  have hpermitted : t.limited = false → Permitted t.events (callEvent .mcpResponse action id) := by
    intro hopen
    constructor
    · intro other hother
      cases hother
    · intro pair hsome
      cases hsome
    · intro pair hsome
      rw [hpair] at hsome
      cases hsome
      exact hrequested hopen
    · intro pair hsome
      cases hsome
  have htraces := h.records hrecords hreserved hshaped hpermitted (fun other hother => by cases hother)
    (fun pair hsome => by cases hsome)
  rw [hevidenced, show evidence ++ (none : Option (Str × Str)).toList = evidence from List.append_nil _] at htraces
  refine ⟨htraces, fun hopen => ?_⟩
  obtain ⟨hopen', hevents⟩ := hrecords.opened hopen
  rw [hevents, List.filterMap_append, List.filterMap_append, List.filterMap_cons_some hpair,
    List.filterMap_cons_none hevidenced]
  refine ⟨List.mem_append_right _ List.mem_cons_self, ?_⟩
  rw [List.filterMap_nil, List.append_nil]
  intro hmem
  exact (hrequested hopen').2 (h.replays.responded_of_evidenced hmem)

/-- The answer of a request becomes evidence. -/
theorem Traces.validate (h : Traces L limits t actions nextId evidence)
    (hresponded : t.limited = false → (action.value, decimalText id) ∈ t.events.filterMap respondedPair ∧
      (action.value, decimalText id) ∉ t.events.filterMap evidencedPair)
    (hrecords : Records t (callEvent .evidenceValidated action id) t') (hreserved : Reserved L limits t')
    (hshaped : t.limited = false → (callEvent .evidenceValidated action id).IsShaped) :
    Traces L limits t' actions nextId (evidence ++ [(action.value, decimalText id)]) := by
  have hpair : evidencedPair (callEvent .evidenceValidated action id) = some (action.value, decimalText id) :=
    congrArg some (pair_callEvent .evidenceValidated action id)
  have hpermitted : t.limited = false → Permitted t.events (callEvent .evidenceValidated action id) := by
    intro hopen
    constructor
    · intro other hother
      cases hother
    · intro pair hsome
      cases hsome
    · intro pair hsome
      cases hsome
    · intro pair hsome
      rw [hpair] at hsome
      cases hsome
      exact hresponded hopen
  have htraces := h.records hrecords hreserved hshaped hpermitted (fun other hother => by cases hother)
    (fun pair hsome => by cases hsome)
  rwa [hpair] at htraces

end

end NativeMcp.Agent
