import NativeMcp.Agent.TranscriptReplay

/-!
# The bounds of a control transcript

Before `BoundedTranscript.add` takes an event it reserves the room of the terminal record, under both limits
(`Reserved`).  What one call can do is `add_cases`; from it the reserve is there after every run, and the transcript
stays within its limits whatever the calls were (`boundedTranscript_sound`).
-/

namespace NativeMcp.Agent

/-! ### The text of a transcript -/

theorem length_commaSeparated_concat (ts : List Bytes) (t : Bytes) :
    (Json.commaSeparated ts).length + t.length ≤ (Json.commaSeparated (ts ++ [t])).length := by
  induction ts with
  | nil => simp [Json.commaSeparated]
  | cons u ts ih =>
    cases ts with
    | nil =>
      show u.length + t.length ≤ (u ++ bytes "," ++ t).length
      rw [List.length_append, List.length_append]
      omega
    | cons v ts =>
      show (u ++ bytes "," ++ Json.commaSeparated (v :: ts)).length + t.length ≤
        (u ++ bytes "," ++ Json.commaSeparated (v :: ts ++ [t])).length
      simp only [List.length_append]
      simp only [List.cons_append] at ih
      simp only [List.cons_append]
      omega

variable (L : Library) (limits : Limits)

private theorem canonMembers_texts (metadata : List (Str × Str)) :
    ∃ ts, canonMembers L (metadata.map fun p => (p.1, .str p.2)) = .ok ts := by
  induction metadata with
  | nil => exact ⟨[], rfl⟩
  | cons p metadata ih =>
    obtain ⟨ts, hts⟩ := ih
    refine ⟨(p.1, dumpsString p.2) :: ts, ?_⟩
    rw [List.map_cons, canonMembers, hts]
    rfl

private theorem canon_toValue (e : ControlEvent) : ∃ t, canon L e.toValue = .ok t := by
  obtain ⟨ts, hts⟩ := canonMembers_texts L e.metadata
  unfold ControlEvent.toValue
  simp [canon, canonMembers, hts, Except.map, Except.bind]

def eventText (e : ControlEvent) : Bytes :=
  match canon L e.toValue with
  | .ok t => t
  | .error _ => []

private theorem canonItems_events (events : List ControlEvent) :
    canonItems L (events.map ControlEvent.toValue) = .ok (events.map (eventText L)) := by
  induction events with
  | nil => rfl
  | cons e events ih =>
    obtain ⟨t, ht⟩ := canon_toValue L e
    have htext : eventText L e = t := by
      unfold eventText
      rw [ht]
    rw [List.map_cons, List.map_cons, canonItems, ih, ht, htext]
    rfl

theorem transcriptBytes_eq (events : List ControlEvent) (limited : Bool) :
    transcriptBytes L events limited =
      bytes "\x7b" ++ Json.commaSeparated
        [dumpsString (chars "events") ++ bytes ":" ++
            (bytes "[" ++ Json.commaSeparated (events.map (eventText L)) ++ bytes "]"),
          dumpsString (chars "limited") ++ bytes ":" ++ bytes (if limited then "true" else "false"),
          dumpsString (chars "schemaVersion") ++ bytes ":" ++ Json.decimalInt 2] ++ bytes "\x7d" := by
  have hcanon : canon L (transcriptValue events limited) = .ok (bytes "\x7b" ++ Json.commaSeparated
        [dumpsString (chars "events") ++ bytes ":" ++
            (bytes "[" ++ Json.commaSeparated (events.map (eventText L)) ++ bytes "]"),
          dumpsString (chars "limited") ++ bytes ":" ++ bytes (if limited then "true" else "false"),
          dumpsString (chars "schemaVersion") ++ bytes ":" ++ Json.decimalInt 2] ++ bytes "\x7d") := by
    unfold transcriptValue
    rw [canon, canonMembers, canonMembers, canonMembers, canonMembers, canon, canon, canon, canonItems_events]
    rfl
  unfold transcriptBytes
  rw [hcanon]

/-- The terminal record takes more room than the mark that there is none. -/
theorem length_transcriptBytes_le (events : List ControlEvent) :
    (transcriptBytes L events false).length ≤ (transcriptBytes L (events ++ [terminal]) true).length := by
  have hterminal : 1 ≤ (eventText L terminal).length := by
    have htext : eventText L terminal = bytes "\x7b\"event\":\"transcript_limit\",\"metadata\":\x7b\x7d\x7d" := by rfl
    rw [htext]
    decide +kernel
  have hconcat := length_commaSeparated_concat (events.map (eventText L)) (eventText L terminal)
  rw [transcriptBytes_eq, transcriptBytes_eq, List.map_append, List.map_singleton]
  have hfalse : (bytes "false").length = 5 := by decide +kernel
  have htrue : (bytes "true").length = 4 := by decide +kernel
  simp only [Json.commaSeparated, List.length_append, Bool.false_eq_true, if_false, if_true, hfalse, htrue]
  omega

/-! ### One call -/

/-- A call of `add`. -/
structure Call where
  event : PyVal
  metadata : List (Str × PyVal)

namespace BoundedTranscript

variable (t : BoundedTranscript) (c : Call)

/-- The transcript after a call. -/
def after : BoundedTranscript := (t.add L limits c.event c.metadata).1

def outcome : Except Raised Unit := (t.add L limits c.event c.metadata).2

/-- The transcript after these calls on a new one. -/
def run (calls : List Call) : BoundedTranscript := calls.foldl (after L limits) create

private theorem controlMetadata_error {metadata : List (Str × PyVal)} {raised : Raised}
    (h : controlMetadata metadata = .error raised) : raised ≠ .provider .oversizedResponse := by
  induction metadata with
  | nil => cases h
  | cons p metadata ih =>
    rw [controlMetadata] at h
    cases htext : controlText p.2 with
    | error raised' =>
      rw [htext] at h
      cases h
      unfold controlText at htext
      split at htext
      · split at htext
        · cases htext
        · cases htext
          simp
      · cases htext
        simp
    | ok text =>
      rw [htext] at h
      cases hrest : controlMetadata metadata with
      | error raised' =>
        rw [hrest] at h
        cases h
        exact ih hrest
      | ok rest =>
        rw [hrest] at h
        cases h

/-- The limits play no part in the checks of an event. -/
theorem checkEvent_error {event : PyVal} {metadata : List (Str × PyVal)} {raised : Raised}
    (h : checkEvent event metadata = .error raised) : raised ≠ .provider .oversizedResponse := by
  unfold checkEvent at h
  cases hkind : controlKind? event with
  | error raised' =>
    rw [hkind] at h
    cases h
    unfold controlKind? at hkind
    split at hkind
    · cases hkind
    · split at hkind
      · cases hkind
      · cases hkind
        simp
  | ok kind? =>
    rw [hkind] at h
    cases kind? with
    | none =>
      cases h
      simp
    | some kind =>
      have h : (require (kind.admits (metadata.map Prod.fst)) .localValidationFailure >>= fun _ =>
          controlMetadata metadata >>= fun texts => Except.ok (ControlEvent.mk kind texts)) = Except.error raised := h
      cases hadmits : kind.admits (metadata.map Prod.fst) with
      | false =>
        rw [hadmits] at h
        cases h
        simp
      | true =>
        rw [hadmits] at h
        cases hmetadata : controlMetadata metadata with
        | error raised' =>
          rw [hmetadata] at h
          cases h
          exact controlMetadata_error hmetadata
        | ok texts =>
          rw [hmetadata] at h
          cases h

/-- What one call can do. -/
theorem add_cases :
    (t.limited = true ∧ t.after L limits c = t ∧ t.outcome L limits c = .ok ()) ∨
    (t.limited = false ∧ t.after L limits c = t ∧ ∃ raised, t.outcome L limits c = .error raised ∧
      (raised = .provider .oversizedResponse → fits L limits t.events = false)) ∨
    (t.limited = false ∧ t.outcome L limits c = .ok () ∧ ∃ e : ControlEvent, e.kind ≠ .transcriptLimit ∧
      (t.events ++ [e]).length < limits.transcriptEventCount ∧ fits L limits (t.events ++ [e]) = true ∧
      t.after L limits c = ⟨t.events ++ [e], false⟩) ∨
    (t.limited = false ∧ t.outcome L limits c = .ok () ∧ fits L limits t.events = true ∧
      t.after L limits c = ⟨t.events ++ [terminal], true⟩) := by
  obtain ⟨events, limited⟩ := t
  unfold after outcome add
  cases limited with
  | true => exact .inl ⟨rfl, rfl, rfl⟩
  | false =>
    rw [if_neg (by simp)]
    refine .inr ?_
    cases hcheck : checkEvent c.event c.metadata with
    | error raised => exact .inl ⟨rfl, rfl, raised, rfl, fun h => absurd h (checkEvent_error hcheck)⟩
    | ok e =>
      unfold append
      dsimp only
      by_cases haccept : e.kind ≠ .transcriptLimit ∧ (events ++ [e]).length < limits.transcriptEventCount ∧
          fits L limits (events ++ [e]) = true
      · rw [if_pos haccept]
        exact .inr (.inl ⟨rfl, rfl, e, haccept.1, haccept.2.1, haccept.2.2, rfl⟩)
      · rw [if_neg haccept]
        by_cases hfits : fits L limits events = true
        · rw [if_pos hfits]
          exact .inr (.inr ⟨rfl, rfl, hfits, rfl⟩)
        · rw [if_neg hfits]
          exact .inl ⟨rfl, rfl, _, rfl, fun _ => by simpa using hfits⟩

/-! ### Runs -/

/-- The events that are not the terminal record. -/
def ordinary : List ControlEvent := t.events.filter (·.kind ≠ .transcriptLimit)

/-- The room of the terminal record is reserved, or taken by it. -/
inductive Reserved : BoundedTranscript → Prop
  | empty : Reserved ⟨[], false⟩
  | ordinary (events : List ControlEvent) (hordinary : ∀ e ∈ events, e.kind ≠ .transcriptLimit)
      (hcount : events.length < limits.transcriptEventCount) (hfits : fits L limits events = true) :
      Reserved ⟨events, false⟩
  | limited (events : List ControlEvent) (hordinary : ∀ e ∈ events, e.kind ≠ .transcriptLimit)
      (hcount : events.length < limits.transcriptEventCount) (hfits : fits L limits events = true) :
      Reserved ⟨events ++ [terminal], true⟩

variable {L limits t c}

theorem Reserved.forall_ordinary (h : Reserved L limits t) (hopen : t.limited = false) :
    ∀ e ∈ t.events, e.kind ≠ .transcriptLimit := by
  cases h with
  | empty =>
    intro e he
    cases he
  | ordinary events hordinary hcount hfits => exact hordinary
  | limited events hordinary hcount hfits => cases hopen

theorem Reserved.count_lt (h : Reserved L limits t) (hopen : t.limited = false) :
    t.events.length < limits.transcriptEventCount := by
  cases h with
  | empty =>
    have hv := limits.valid
    simp only [LimitValues.isValid, LimitValues.asList, hardMax, List.zip_cons_cons, List.zip_nil_right, List.all_cons,
      List.all_nil, Bool.and_eq_true, decide_eq_true_eq, and_true] at hv
    show 0 < limits.transcriptEventCount
    omega
  | ordinary events hordinary hcount hfits => exact hcount
  | limited events hordinary hcount hfits => cases hopen

/-- Each call keeps the reserve. -/
theorem Reserved.after (h : Reserved L limits t) (c : Call) : Reserved L limits (t.after L limits c) := by
  rcases add_cases L limits t c with ⟨-, hsame, -⟩ | ⟨-, hsame, -⟩ | ⟨hopen, -, e, hkind, hcount, hfits, hafter⟩ |
    ⟨hopen, -, hfits, hafter⟩
  · rwa [hsame]
  · rwa [hsame]
  · rw [hafter]
    refine .ordinary _ ?_ hcount hfits
    intro e' he'
    rcases List.mem_append.1 he' with hold | hnew
    · exact h.forall_ordinary hopen e' hold
    · rw [List.mem_singleton.1 hnew]
      exact hkind
  · rw [hafter]
    exact .limited _ (h.forall_ordinary hopen) (h.count_lt hopen) hfits

theorem run_append (calls more : List Call) :
    run L limits (calls ++ more) = more.foldl (BoundedTranscript.after L limits) (run L limits calls) :=
  List.foldl_append

theorem reserved_foldl (h : Reserved L limits t) (calls : List Call) :
    Reserved L limits (calls.foldl (BoundedTranscript.after L limits) t) := by
  induction calls generalizing t with
  | nil => exact h
  | cons c calls ih => exact ih (h.after c)

theorem reserved_run (calls : List Call) : Reserved L limits (run L limits calls) := reserved_foldl .empty calls

/-- A transcript with an event is within its limits. -/
theorem Reserved.bounded (h : Reserved L limits t) (hne : t.events ≠ []) :
    (t.toJsonBytes L).length ≤ limits.transcriptBytes ∧ t.events.length ≤ limits.transcriptEventCount := by
  cases h with
  | empty => exact absurd rfl hne
  | ordinary events hordinary hcount hfits =>
    have hbytes : (transcriptBytes L (events ++ [terminal]) true).length ≤ limits.transcriptBytes := by
      simpa [fits] using hfits
    exact ⟨(length_transcriptBytes_le L events).trans hbytes, hcount.le⟩
  | limited events hordinary hcount hfits =>
    have hbytes : (transcriptBytes L (events ++ [terminal]) true).length ≤ limits.transcriptBytes := by
      simpa [fits] using hfits
    refine ⟨hbytes, ?_⟩
    show (events ++ [terminal]).length ≤ _
    rw [List.length_append, List.length_singleton]
    exact hcount

theorem Reserved.limited_iff (h : Reserved L limits t) :
    (∃ e ∈ t.events, e.kind = .transcriptLimit) ↔ t.limited = true := by
  cases h with
  | empty => simp
  | ordinary events hordinary hcount hfits =>
    refine iff_of_false ?_ (by simp)
    rintro ⟨e, he, hkind⟩
    exact hordinary e he hkind
  | limited events hordinary hcount hfits => exact iff_of_true ⟨terminal, by simp, rfl⟩ rfl

theorem Reserved.terminal_last (h : Reserved L limits t) (hlimited : t.limited = true) :
    t.events = t.ordinary ++ [terminal] := by
  cases h with
  | empty => cases hlimited
  | ordinary events hordinary hcount hfits => cases hlimited
  | limited events hordinary hcount hfits =>
    show events ++ [terminal] = (events ++ [terminal]).filter _ ++ [terminal]
    have hself : events.filter (fun e => decide (e.kind ≠ .transcriptLimit)) = events :=
      List.filter_eq_self.2 fun e he => by simpa using hordinary e he
    rw [List.filter_append, hself, List.filter_cons_of_neg (by simp [terminal]), List.filter_nil, List.append_nil]

theorem Reserved.ordinary_prefix (h : Reserved L limits t) : t.ordinary <+: t.events := by
  cases hlimited : t.limited with
  | true =>
    rw [h.terminal_last hlimited]
    exact List.prefix_append _ _
  | false =>
    have hself : t.ordinary = t.events :=
      List.filter_eq_self.2 fun e he => by simpa using h.forall_ordinary hlimited e he
    exact ⟨[], by rw [hself, List.append_nil]⟩

/-- A transcript that has an ordinary event can take the terminal record. -/
theorem Reserved.fits (h : Reserved L limits t) (hopen : t.limited = false) (hne : t.events ≠ []) :
    BoundedTranscript.fits L limits t.events = true := by
  cases h with
  | empty => exact absurd rfl hne
  | ordinary events hordinary hcount hfits => exact hfits
  | limited events hordinary hcount hfits => cases hopen

/-- A call does not touch the events that are there. -/
theorem prefix_after (t : BoundedTranscript) (c : Call) : t.events <+: (t.after L limits c).events := by
  rcases add_cases L limits t c with ⟨-, hsame, -⟩ | ⟨-, hsame, -⟩ | ⟨-, -, e, -, -, -, hafter⟩ | ⟨-, -, -, hafter⟩
  · exact ⟨[], by rw [hsame, List.append_nil]⟩
  · exact ⟨[], by rw [hsame, List.append_nil]⟩
  · rw [hafter]
    exact List.prefix_append _ _
  · rw [hafter]
    exact List.prefix_append _ _

theorem prefix_foldl (t : BoundedTranscript) (calls : List Call) :
    t.events <+: (calls.foldl (BoundedTranscript.after L limits) t).events := by
  induction calls generalizing t with
  | nil => exact List.prefix_rfl
  | cons c calls ih => exact (prefix_after t c).trans (ih _)

/-- A limited transcript stays as it is. -/
theorem foldl_of_limited (h : t.limited = true) (calls : List Call) :
    calls.foldl (BoundedTranscript.after L limits) t = t := by
  induction calls with
  | nil => rfl
  | cons c calls ih =>
    have hsame : t.after L limits c = t := by
      unfold BoundedTranscript.after add
      rw [if_pos h]
    rw [List.foldl_cons, hsame, ih]

theorem after_of_error {raised : Raised} (h : t.outcome L limits c = .error raised) : t.after L limits c = t := by
  rcases add_cases L limits t c with ⟨-, hsame, -⟩ | ⟨-, hsame, -⟩ | ⟨-, hok, -⟩ | ⟨-, hok, -⟩
  · exact hsame
  · exact hsame
  · rw [hok] at h
    cases h
  · rw [hok] at h
    cases h

theorem events_ne_nil_of_ok (h : t.outcome L limits c = .ok ()) (hreserved : Reserved L limits t) :
    (t.after L limits c).events ≠ [] := by
  rcases add_cases L limits t c with ⟨hlimited, hsame, -⟩ | ⟨-, -, raised, herror, -⟩ | ⟨-, -, e, -, -, -, hafter⟩ |
    ⟨-, -, -, hafter⟩
  · rw [hsame, hreserved.terminal_last hlimited]
    simp
  · rw [herror] at h
    cases h
  · rw [hafter]
    simp
  · rw [hafter]
    simp

/-- Some call was accepted. -/
def Accepted (L : Library) (limits : Limits) (calls : List Call) : Prop :=
  ∃ before c after, calls = before ++ c :: after ∧ (run L limits before).outcome L limits c = .ok ()

theorem events_ne_nil_of_accepted {calls : List Call} (h : Accepted L limits calls) :
    (run L limits calls).events ≠ [] := by
  obtain ⟨before, c, after, rfl, hok⟩ := h
  have hne := events_ne_nil_of_ok hok (reserved_run before)
  rw [run_append, List.foldl_cons]
  intro hnil
  have hlead := @prefix_foldl L limits ((run L limits before).after L limits c) after
  rw [hnil] at hlead
  exact hne (List.prefix_nil.1 hlead)

/-- Where there is an event, no call fails for want of room. -/
theorem not_oversized (h : Reserved L limits t) (hne : t.events ≠ []) (c : Call) :
    t.outcome L limits c ≠ .error (.provider .oversizedResponse) := by
  intro herror
  rcases add_cases L limits t c with ⟨-, -, hok⟩ | ⟨hopen, -, raised, hraised, hfull⟩ | ⟨-, hok, -⟩ | ⟨-, hok, -⟩
  · rw [hok] at herror
    cases herror
  · rw [hraised] at herror
    cases herror
    have hfits := h.fits hopen hne
    rw [hfull rfl] at hfits
    cases hfits
  · rw [hok] at herror
    cases herror
  · rw [hok] at herror
    cases herror

/-- The call that ends a transcript. -/
def terminalCall : Call := ⟨.str (chars "transcript_limit"), []⟩

theorem terminalCall_ok (h : Reserved L limits t) (hne : t.events ≠ []) :
    t.outcome L limits terminalCall = .ok () := by
  have hcheck : checkEvent terminalCall.event terminalCall.metadata = .ok terminal := by decide +kernel
  have hroom := not_oversized h hne terminalCall
  revert hroom
  unfold outcome add
  split
  · exact fun _ => rfl
  · rw [hcheck]
    dsimp only
    unfold append
    dsimp only
    rw [if_neg (by simp [terminal])]
    split
    · exact fun _ => rfl
    · exact fun hroom => absurd rfl hroom

end BoundedTranscript

end NativeMcp.Agent
