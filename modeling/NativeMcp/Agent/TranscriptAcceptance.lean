import NativeMcp.Agent.ProposalIds
import NativeMcp.Agent.TranscriptBounds

/-!
# A control transcript that is read back

The writer of the transcript and its reader are two programs.  The reader accepts what has been written if the room of
the terminal record was reserved (`BoundedTranscript.Reserved`), each event has the metadata of its schema
(`ControlEvent.IsShaped`), the replay passes all events and the limits are wide enough (`parse_written`).
-/

namespace NativeMcp.Agent

open BoundedTranscript (Reserved)

/-- The limits leave room for the form of a transcript. -/
structure Readable (limits : Limits) : Prop where
  depth : 4 ≤ limits.jsonNestingDepth
  items : 3 ≤ max limits.objectArrayItems limits.transcriptEventCount
  strings : 64 ≤ max limits.messageBytes (max limits.toolArgumentBytes limits.toolDefinitionBytes)

/-! ### Events that have their metadata -/

namespace ControlEvent

/-- The metadata are those of the schema; their texts are short and ASCII. -/
def IsShaped (e : ControlEvent) : Prop :=
  e.metadata.map Prod.fst = e.kind.schema.map MetadataKey.text ∧
    ∀ p ∈ e.metadata, p.2.length ≤ 64 ∧ isAscii p.2 = true

/-- The event as it is read: its metadata are in the order of their keys. -/
def reread (e : ControlEvent) : ControlEvent := ⟨e.kind, sortItems e.metadata⟩

variable {e : ControlEvent}

theorem schema_nodup (kind : ControlKind) : (kind.schema.map MetadataKey.text).Nodup := by
  have hall : ∀ kind ∈ ControlKind.all, (kind.schema.map MetadataKey.text).Nodup := by decide +kernel
  have hmem : kind ∈ ControlKind.all := by
    cases kind <;> decide
  exact hall kind hmem

theorem admits_schema (kind : ControlKind) : kind.admits (kind.schema.map MetadataKey.text) = true := by
  unfold ControlKind.admits
  rw [Bool.or_eq_true]
  left
  rw [sameNames_iff]
  intro name
  exact List.mem_map

theorem IsShaped.nodup (h : e.IsShaped) : (e.metadata.map Prod.fst).Nodup := by
  rw [h.1]
  exact schema_nodup e.kind

/-- The order of the metadata does not matter. -/
theorem IsShaped.get_reread (h : e.IsShaped) (key : MetadataKey) : e.reread.get key = e.get key := by
  unfold ControlEvent.get reread
  rw [← lookup_perm (sortItems_perm e.metadata).symm h.nodup]

theorem IsShaped.pair_reread (h : e.IsShaped) : e.reread.pair = e.pair := by
  unfold ControlEvent.pair
  rw [h.get_reread, h.get_reread]

theorem IsShaped.step_reread (h : e.IsShaped) (r : Replay) : r.step e.reread = r.step e := by
  unfold Replay.step
  rw [h.get_reread, h.get_reread]
  rfl

theorem IsShaped.evidencedPair_reread (h : e.IsShaped) : evidencedPair e.reread = evidencedPair e := by
  unfold evidencedPair
  rw [h.pair_reread]
  rfl

/-! ### One event -/

theorem reread_toValue (e : ControlEvent) : e.toValue.reread = e.reread.toValue := by
  have htexts : ∀ l : List (Str × Str),
      (PyVal.dict false (l.map fun p => (p.1, PyVal.str p.2))).reread =
        .dict false ((sortItems l).map fun p => (p.1, .str p.2)) := by
    intro l
    rw [PyVal.reread, rereadMembers_eq, List.map_map]
    exact congrArg (PyVal.dict false) (sortItems_map PyVal.str l)
  unfold toValue
  rw [PyVal.reread, PyVal.rereadMembers, PyVal.rereadMembers, PyVal.rereadMembers, htexts]
  rfl

private theorem metadataTexts_map {items : List (Str × Str)} (h : ∀ p ∈ items, p.2.length ≤ 64) :
    metadataTexts (items.map fun p => (p.1, .str p.2)) = some items := by
  induction items with
  | nil => rfl
  | cons p items ih =>
    obtain ⟨hp, hitems⟩ := List.forall_mem_cons.1 h
    rw [List.map_cons, metadataTexts, if_pos hp, ih hitems]
    rfl

theorem IsShaped.parse_reread (h : e.IsShaped) : parseControlEvent e.reread.toValue = .ok e.reread := by
  have hnames : e.kind.admits ((e.reread.metadata.map fun p => (p.1, PyVal.str p.2)).map Prod.fst) = true := by
    have hadmits := admits_schema e.kind
    unfold ControlKind.admits at hadmits ⊢
    rw [← h.1] at hadmits
    have hfst : (e.reread.metadata.map fun p => (p.1, PyVal.str p.2)).map Prod.fst = e.reread.metadata.map Prod.fst := by
      rw [List.map_map]
      rfl
    have hperm : ∀ name, name ∈ e.reread.metadata.map Prod.fst ↔ name ∈ e.metadata.map Prod.fst :=
      fun name => ((sortItems_perm e.metadata).map Prod.fst).mem_iff
    have hsame : ∀ keys, sameNames (e.reread.metadata.map Prod.fst) keys = sameNames (e.metadata.map Prod.fst) keys := by
      intro keys
      rw [Bool.eq_iff_iff, sameNames_iff, sameNames_iff]
      exact forall_congr' fun name => by rw [hperm]
    rw [hfst, hsame, hsame]
    exact hadmits
  have htexts : metadataTexts (e.reread.metadata.map fun p => (p.1, .str p.2)) = some e.reread.metadata := by
    refine metadataTexts_map fun p hp => ?_
    exact (h.2 p ((sortItems_perm e.metadata).mem_iff.1 hp)).1
  have hclosed : e.reread.toValue.closed? ["event", "metadata"] =
      some [.str (chars e.kind.value), .dict false (e.reread.metadata.map fun p => (p.1, .str p.2))] := rfl
  unfold parseControlEvent
  rw [hclosed]
  dsimp only
  rw [controlKind?_value]
  show (require (e.kind.admits _) .localValidationFailure >>= fun _ => _) = _
  rw [hnames, require_eq_ok_iff.2 rfl, ok_bind, htexts]
  rfl

end ControlEvent

/-! ### All events -/

theorem parseControlEvents_written {events : List ControlEvent} (hshaped : ∀ e ∈ events, e.IsShaped) {r r' : Replay}
    (hreplay : events.foldlM Replay.step r = .ok r') :
    parseControlEvents r (events.map fun e => e.reread.toValue) = .ok (events.map ControlEvent.reread) := by
  induction events generalizing r with
  | nil => rfl
  | cons e events ih =>
    obtain ⟨he, hevents⟩ := List.forall_mem_cons.1 hshaped
    rw [List.foldlM_cons] at hreplay
    obtain ⟨middle, hstep, hrest⟩ := ok_of_bind hreplay
    rw [List.map_cons, parseControlEvents, he.parse_reread, ok_bind, he.step_reread, hstep, ok_bind, ih hevents hrest]
    rfl

/-- What the replay passes, it passes as it is read. -/
theorem provenance_reread {events : List ControlEvent} (hshaped : ∀ e ∈ events, e.IsShaped)
    (hreplay : ∃ r, events.foldlM Replay.step .start = .ok r) : Provenance (events.map ControlEvent.reread) := by
  obtain ⟨r, hr⟩ := hreplay
  obtain ⟨⟨r', hr'⟩, -⟩ := parseControlEvents_spec (parseControlEvents_written hshaped hr)
  exact Replay.provenance hr'

theorem evidence_reread {events : List ControlEvent} (hshaped : ∀ e ∈ events, e.IsShaped) :
    (events.map ControlEvent.reread).filterMap evidencedPair = events.filterMap evidencedPair := by
  rw [List.filterMap_map]
  exact List.filterMap_congr fun e he => (hshaped e he).evidencedPair_reread

private theorem terminal_index (events : List ControlEvent) (h : ∀ e ∈ events, e.kind ≠ .transcriptLimit) (k : Nat) :
    (events.zipIdx k).filter (fun p => p.1.kind == .transcriptLimit) = [] := by
  rw [List.filter_eq_nil_iff]
  intro p hp
  have hmem := List.fst_mem_of_mem_zipIdx hp
  simpa using h p.1 hmem

theorem terminalIsValid_of_reserved {L : Library} {limits : Limits} {t : BoundedTranscript} (h : Reserved L limits t) :
    terminalIsValid t.events t.limited = true := by
  unfold terminalIsValid
  dsimp only
  cases h with
  | empty => rfl
  | ordinary events hordinary hcount hfits =>
    rw [if_neg (by simp), terminal_index events hordinary]
    rfl
  | limited events hordinary hcount hfits =>
    have hlast : ([terminal].zipIdx (0 + events.length)).filter (fun p => p.1.kind == .transcriptLimit) =
        [(terminal, events.length)] := by
      rw [Nat.zero_add]
      rfl
    rw [if_pos rfl, List.zipIdx_append, List.filter_append, terminal_index events hordinary, hlast]
    simp

theorem terminalIsValid_reread (events : List ControlEvent) (limited : Bool) :
    terminalIsValid (events.map ControlEvent.reread) limited = terminalIsValid events limited := by
  have hindexes : ∀ k, (((events.map ControlEvent.reread).zipIdx k).filter fun p => p.1.kind == .transcriptLimit).map
      Prod.snd = ((events.zipIdx k).filter fun p => p.1.kind == .transcriptLimit).map Prod.snd := by
    induction events with
    | nil => exact fun _ => rfl
    | cons e events ih =>
      intro k
      rw [List.map_cons, List.zipIdx_cons, List.zipIdx_cons]
      by_cases hkind : (e.kind == .transcriptLimit) = true
      · rw [List.filter_cons_of_pos (by exact hkind), List.filter_cons_of_pos (by exact hkind), List.map_cons,
          List.map_cons, ih]
      · rw [List.filter_cons_of_neg (by exact hkind), List.filter_cons_of_neg (by exact hkind), ih]
  unfold terminalIsValid
  dsimp only
  rw [hindexes, List.length_map]
  have hnil : decide (events.map ControlEvent.reread ≠ []) = decide (events ≠ []) := by
    rw [decide_eq_decide]
    exact not_congr List.map_eq_nil_iff
  rw [hnil]

/-! ### The whole transcript -/

theorem reread_transcriptValue (events : List ControlEvent) (limited : Bool) :
    (transcriptValue events limited).reread =
      .dict false [(chars "events", .list (events.map fun e => e.reread.toValue)), (chars "limited", .bool limited),
        (chars "schemaVersion", .int 2)] := by
  have hevents : (PyVal.list (events.map ControlEvent.toValue)).reread =
      .list (events.map fun e => e.reread.toValue) := by
    rw [PyVal.reread, rereadItems_eq, List.map_map]
    exact congrArg PyVal.list (List.map_congr_left fun e _ => e.reread_toValue)
  unfold transcriptValue
  rw [PyVal.reread, PyVal.rereadMembers, PyVal.rereadMembers, PyVal.rereadMembers, PyVal.rereadMembers, hevents]
  rfl

private theorem fitsString_of_ascii {limits : Limits} (h : Readable limits) {s : Str} (hlength : s.length ≤ 64)
    (hascii : isAscii s = true) : fitsString (controlLimits limits) s = true := by
  have hall : ∀ c ∈ s, c < 0x80 := by
    intro c hc
    simpa using List.all_eq_true.1 hascii c hc
  have hplain : s.any isSurrogate = false := by
    rw [List.any_eq_false]
    intro c hc
    have := hall c hc
    simp only [isSurrogate, Bool.and_eq_true, decide_eq_true_eq, not_and]
    omega
  have hsize : (s.map utf8Size).sum = s.length := by
    have hone : ∀ c ∈ s, utf8Size c = 1 := by
      intro c hc
      unfold utf8Size
      rw [if_pos (hall c hc)]
    rw [List.map_congr_left hone, List.map_const', List.sum_replicate_nat]
    omega
  have hencoded : encodedSize s = some s.length := encodedSize_eq_some.2 ⟨hplain, hsize⟩
  have hstrings := h.strings
  have hlimit : max (controlLimits limits).messageBytes
      (max (controlLimits limits).toolArgumentBytes (controlLimits limits).toolDefinitionBytes) =
      max limits.messageBytes (max limits.toolArgumentBytes limits.toolDefinitionBytes) := rfl
  unfold fitsString
  rw [hencoded, hlimit]
  simp only [Option.any_some, decide_eq_true_eq]
  omega

private theorem kind_fits (kind : ControlKind) : (chars kind.value).length ≤ 64 ∧ isAscii (chars kind.value) = true := by
  have hall : ∀ kind ∈ ControlKind.all, (chars kind.value).length ≤ 64 ∧ isAscii (chars kind.value) = true := by
    decide +kernel
  have hmem : kind ∈ ControlKind.all := by
    cases kind <;> decide
  exact hall kind hmem

private theorem schema_length (kind : ControlKind) : kind.schema.length ≤ 2 := by
  cases kind <;> decide

private theorem text_ne_nil (key : MetadataKey) : key.text ≠ [] := by
  cases key <;> decide

/-- The value of an event is within the bounds of the reader. -/
theorem ControlEvent.IsShaped.jsonValue_reread {limits : Limits} (hlimits : Readable limits) {e : ControlEvent}
    (h : e.IsShaped) : jsonValue (controlLimits limits) none 2 e.reread.toValue = .ok () := by
  have hdepth : 4 ≤ (controlLimits limits).jsonNestingDepth := hlimits.depth
  have hitems : 3 ≤ (controlLimits limits).objectArrayItems := hlimits.items
  have hperm := sortItems_perm e.metadata
  have hcount : e.metadata.length ≤ 2 := by
    have hlength := congrArg List.length h.1
    rw [List.length_map, List.length_map] at hlength
    rw [hlength]
    exact schema_length e.kind
  have hevent : chars "event" ≠ [] ∧ chars "metadata" ≠ [] := by decide
  unfold ControlEvent.toValue
  rw [jsonValue_dict_iff]
  refine ⟨by omega, ?_, ?_⟩
  · show 2 ≤ _
    omega
  · intro p hp
    rcases List.mem_cons.1 hp with rfl | hp
    · refine ⟨hevent.1, jsonValue_str_iff.2 ⟨by omega, ?_⟩⟩
      exact fitsString_of_ascii hlimits (kind_fits e.kind).1 (kind_fits e.kind).2
    · rw [List.mem_singleton.1 hp]
      refine ⟨hevent.2, ?_⟩
      dsimp only
      rw [jsonValue_dict_iff]
      refine ⟨by omega, ?_, ?_⟩
      · show ((sortItems e.metadata).map _).length ≤ _
        rw [List.length_map, hperm.length_eq]
        omega
      · intro q hq
        obtain ⟨item, hitem, rfl⟩ := List.mem_map.1 hq
        have hmem : item ∈ e.metadata := hperm.mem_iff.1 hitem
        have hname : item.1 ∈ e.kind.schema.map MetadataKey.text := by
          rw [← h.1]
          exact List.mem_map_of_mem hmem
        obtain ⟨key, -, htext⟩ := List.mem_map.1 hname
        refine ⟨?_, jsonValue_str_iff.2 ⟨by omega, ?_⟩⟩
        · show item.1 ≠ []
          rw [← htext]
          exact text_ne_nil key
        · exact fitsString_of_ascii hlimits (h.2 item hmem).1 (h.2 item hmem).2

theorem bounded_of_reserved {L : Library} {limits : Limits} {t : BoundedTranscript}
    (hroom : BoundedTranscript.fits L limits [] = true) (hreserved : Reserved L limits t) :
    (t.toJsonBytes L).length ≤ limits.transcriptBytes ∧ t.events.length ≤ limits.transcriptEventCount := by
  cases hreserved with
  | empty =>
    have hbytes : (transcriptBytes L ([] ++ [terminal]) true).length ≤ limits.transcriptBytes := by
      simpa [BoundedTranscript.fits] using hroom
    exact ⟨(length_transcriptBytes_le L []).trans hbytes, Nat.zero_le _⟩
  | ordinary events hordinary hcount hfits =>
    have hbytes : (transcriptBytes L (events ++ [terminal]) true).length ≤ limits.transcriptBytes := by
      simpa [BoundedTranscript.fits] using hfits
    exact ⟨(length_transcriptBytes_le L events).trans hbytes, hcount.le⟩
  | limited events hordinary hcount hfits =>
    exact (Reserved.limited events hordinary hcount hfits).bounded (by simp)

/-- What has been written within the reserve is accepted when it is read, event by event. -/
theorem parse_written {L : Library} {limits : Limits} {t : BoundedTranscript} (hlimits : Readable limits)
    (hroom : BoundedTranscript.fits L limits [] = true) (hreserved : Reserved L limits t) (hshaped : ∀ e ∈ t.events, e.IsShaped) {r : Replay}
    (hreplay : t.events.foldlM Replay.step .start = .ok r)
    (hloads : L.loads (t.toJsonBytes L) = .ok (transcriptValue t.events t.limited).reread) :
    parseBoundedTranscript L (t.toJsonBytes L) limits = .ok (t.events.map ControlEvent.reread) := by
  obtain ⟨hbytes, hcount⟩ := bounded_of_reserved hroom hreserved
  have hdepth : 4 ≤ (controlLimits limits).jsonNestingDepth := hlimits.depth
  have hitems : 3 ≤ (controlLimits limits).objectArrayItems := hlimits.items
  have hroom : limits.transcriptEventCount ≤ (controlLimits limits).objectArrayItems := le_max_right _ _
  have hnames : chars "events" ≠ [] ∧ chars "limited" ≠ [] ∧ chars "schemaVersion" ≠ [] := by decide
  have hvalue : jsonValue (controlLimits limits) none 0 (transcriptValue t.events t.limited).reread = .ok () := by
    rw [reread_transcriptValue, jsonValue_dict_iff]
    refine ⟨by omega, hitems, ?_⟩
    intro p hp
    simp only [List.mem_cons, List.not_mem_nil, or_false] at hp
    rcases hp with rfl | rfl | rfl
    · refine ⟨hnames.1, jsonValue_list_iff.2 ⟨by omega, ?_, ?_⟩⟩
      · rw [List.length_map]
        omega
      · intro v hv
        obtain ⟨e, he, rfl⟩ := List.mem_map.1 hv
        exact (hshaped e he).jsonValue_reread hlimits
    · exact ⟨hnames.2.1, require_eq_ok_iff.2 (decide_eq_true (by omega))⟩
    · exact ⟨hnames.2.2, require_eq_ok_iff.2 (decide_eq_true (by omega))⟩
  have hparsed : parseClosedJson L (t.toJsonBytes L) (controlLimits limits) (some limits.transcriptBytes) none =
      .ok (transcriptValue t.events t.limited).reread := parseClosedJson_eq_ok_iff.2 ⟨hbytes, hloads, hvalue⟩
  have hclosed : (transcriptValue t.events t.limited).reread.closed? ["schemaVersion", "events", "limited"] =
      some [.int 2, .list (t.events.map fun e => e.reread.toValue), .bool t.limited] := by
    rw [reread_transcriptValue]
    rfl
  have hversion : (PyVal.int 2).equal (.int 2) = true := by decide +kernel
  unfold parseBoundedTranscript
  rw [hparsed, ok_bind, hclosed]
  dsimp only
  rw [hversion, List.length_map, decide_eq_true hcount, require_eq_ok_iff.2 (by rfl), ok_bind,
    parseControlEvents_written hshaped hreplay, ok_bind, terminalIsValid_reread, terminalIsValid_of_reserved hreserved]
  rfl

end NativeMcp.Agent
