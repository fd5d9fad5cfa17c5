import NativeMcp.Agent.Transcript
import NativeMcp.Lib.Monitor

/-!
# The provenance of the evidence in a control transcript

The replay of `parse_bounded_transcript` is a monitor: each of its sets holds the references of the events so far
(`sets_of_replay`), so that its checks of an event are facts about the events before it.  In a transcript that it passes
all evidence goes back to one authorized action (`parse_provenance`).
-/

namespace NativeMcp.Agent

open Monitor (PrecededByOne allowed_of_foldlM nodup_of_fresh precededByOne_of_mem)

/-! ### What the events refer to -/

def ControlEvent.pair (e : ControlEvent) : Str × Str := (e.get .action, e.get .response)

def authorizedAction (e : ControlEvent) : Option Str := if e.kind = .authorized then some (e.get .action) else none

def requestedPair (e : ControlEvent) : Option (Str × Str) := if e.kind = .mcpRequest then some e.pair else none

def respondedPair (e : ControlEvent) : Option (Str × Str) := if e.kind = .mcpResponse then some e.pair else none

def evidencedPair (e : ControlEvent) : Option (Str × Str) :=
  if e.kind = .evidenceValidated then some e.pair else none

/-- Evidence goes back to one response, this to one request and this to one authorization; nothing is used twice. -/
structure Provenance (events : List ControlEvent) : Prop where
  evidence : ∀ before e after pair, events = before ++ e :: after → evidencedPair e = some pair →
    PrecededByOne (respondedPair · = some pair) before fun before =>
      PrecededByOne (requestedPair · = some pair) before fun before =>
        PrecededByOne (authorizedAction · = some pair.1) before fun _ => True
  authorizedOnce : (events.filterMap authorizedAction).Nodup
  requestedOnce : ((events.filterMap requestedPair).map Prod.fst).Nodup
  responsesOnce : ((events.filterMap requestedPair).map Prod.snd).Nodup
  respondedOnce : (events.filterMap respondedPair).Nodup
  evidencedOnce : (events.filterMap evidencedPair).Nodup

/-! ### The sets of the replay -/

namespace Replay

/-- The sets hold what the events refer to. -/
structure Holds (r : Replay) (events : List ControlEvent) : Prop where
  authorized : ∀ action, action ∈ r.authorizedActions ↔ action ∈ events.filterMap authorizedAction
  requested : ∀ pair, pair ∈ r.requestedPairs ↔ pair ∈ events.filterMap requestedPair
  responded : ∀ pair, pair ∈ r.respondedPairs ↔ pair ∈ events.filterMap respondedPair
  evidenced : ∀ pair, pair ∈ r.evidencedPairs ↔ pair ∈ events.filterMap evidencedPair
  actions : ∀ action, action ∈ r.requestActions ↔ action ∈ (events.filterMap requestedPair).map Prod.fst
  responses : ∀ response, response ∈ r.requestResponses ↔ response ∈ (events.filterMap requestedPair).map Prod.snd

theorem holds_start : start.Holds [] :=
  ⟨fun _ => Iff.rfl, fun _ => Iff.rfl, fun _ => Iff.rfl, fun _ => Iff.rfl, fun _ => Iff.rfl, fun _ => Iff.rfl⟩

/-- What the replay checks of an event. -/
structure Allows (r : Replay) (e : ControlEvent) : Prop where
  authorized : ∀ action, authorizedAction e = some action → action ∉ r.authorizedActions
  requested : ∀ pair, requestedPair e = some pair → pair.1 ∈ r.authorizedActions ∧ pair ∉ r.requestedPairs ∧
    pair.1 ∉ r.requestActions ∧ pair.2 ∉ r.requestResponses
  responded : ∀ pair, respondedPair e = some pair → pair ∈ r.requestedPairs ∧ pair ∉ r.respondedPairs
  evidenced : ∀ pair, evidencedPair e = some pair → pair ∈ r.respondedPairs ∧ pair ∉ r.evidencedPairs

end Replay

namespace Replay

/-- What an event adds to the sets. -/
structure Takes (r : Replay) (e : ControlEvent) (r' : Replay) : Prop where
  authorized : ∀ action, action ∈ r'.authorizedActions ↔ action ∈ r.authorizedActions ∨ authorizedAction e = some action
  requested : ∀ pair, pair ∈ r'.requestedPairs ↔ pair ∈ r.requestedPairs ∨ requestedPair e = some pair
  responded : ∀ pair, pair ∈ r'.respondedPairs ↔ pair ∈ r.respondedPairs ∨ respondedPair e = some pair
  evidenced : ∀ pair, pair ∈ r'.evidencedPairs ↔ pair ∈ r.evidencedPairs ∨ evidencedPair e = some pair
  actions : ∀ action, action ∈ r'.requestActions ↔
    action ∈ r.requestActions ∨ ∃ pair, requestedPair e = some pair ∧ pair.1 = action
  responses : ∀ response, response ∈ r'.requestResponses ↔
    response ∈ r.requestResponses ∨ ∃ pair, requestedPair e = some pair ∧ pair.2 = response

private theorem mem_filterMap_append {κ : Type} {key : ControlEvent → Option κ} {events : List ControlEvent}
    {e : ControlEvent} {k : κ} : k ∈ (events ++ [e]).filterMap key ↔ k ∈ events.filterMap key ∨ key e = some k := by
  rw [List.filterMap_append, List.mem_append]
  refine or_congr_right ?_
  rw [List.mem_filterMap]
  constructor
  · rintro ⟨e', he', hkey⟩
    rwa [List.mem_singleton.1 he'] at hkey
  · intro hkey
    exact ⟨e, List.mem_singleton_self e, hkey⟩

private theorem mem_map_filterMap_append {κ ρ : Type} {key : ControlEvent → Option κ} {f : κ → ρ}
    {events : List ControlEvent} {e : ControlEvent} {x : ρ} :
    x ∈ ((events ++ [e]).filterMap key).map f ↔ x ∈ (events.filterMap key).map f ∨ ∃ k, key e = some k ∧ f k = x := by
  rw [List.mem_map, List.mem_map]
  constructor
  · rintro ⟨k, hk, hx⟩
    rcases mem_filterMap_append.1 hk with hold | hnew
    · exact .inl ⟨k, hold, hx⟩
    · exact .inr ⟨k, hnew, hx⟩
  · rintro (⟨k, hk, hx⟩ | ⟨k, hk, hx⟩)
    · exact ⟨k, mem_filterMap_append.2 (.inl hk), hx⟩
    · exact ⟨k, mem_filterMap_append.2 (.inr hk), hx⟩

theorem Takes.holds {r r' : Replay} {e : ControlEvent} {events : List ControlEvent} (h : r.Takes e r')
    (hholds : r.Holds events) : r'.Holds (events ++ [e]) where
  authorized action := by rw [h.authorized, hholds.authorized, mem_filterMap_append]
  requested pair := by rw [h.requested, hholds.requested, mem_filterMap_append]
  responded pair := by rw [h.responded, hholds.responded, mem_filterMap_append]
  evidenced pair := by rw [h.evidenced, hholds.evidenced, mem_filterMap_append]
  actions action := by rw [h.actions, hholds.actions, mem_map_filterMap_append]
  responses response := by rw [h.responses, hholds.responses, mem_map_filterMap_append]

/-- A step checks an event and takes its references into the sets. -/
theorem step_spec {r r' : Replay} {e : ControlEvent} (h : r.step e = .ok r') : r.Allows e ∧ r.Takes e r' := by
  unfold step at h
  dsimp only at h
  cases hkind : e.kind
  case authorized =>
    rw [hkind] at h
    obtain ⟨_, hcheck, h⟩ := ok_of_bind h
    have hfresh := require_eq_ok hcheck
    cases h
    constructor
    · constructor <;> simp_all [authorizedAction, requestedPair, respondedPair, evidencedPair]
    · constructor <;> simp [authorizedAction, requestedPair, respondedPair, evidencedPair, hkind, or_comm, eq_comm]
  case mcpRequest =>
    rw [hkind] at h
    obtain ⟨_, hcheck, h⟩ := ok_of_bind h
    have hfresh := require_eq_ok hcheck
    cases h
    constructor
    · constructor <;> simp_all [authorizedAction, requestedPair, respondedPair, evidencedPair, ControlEvent.pair]
    · constructor <;> simp [authorizedAction, requestedPair, respondedPair, evidencedPair, hkind, ControlEvent.pair,
        or_comm, eq_comm]
  case mcpResponse =>
    rw [hkind] at h
    obtain ⟨_, hcheck, h⟩ := ok_of_bind h
    have hfresh := require_eq_ok hcheck
    cases h
    constructor
    · constructor <;> simp_all [authorizedAction, requestedPair, respondedPair, evidencedPair, ControlEvent.pair]
    · constructor <;> simp [authorizedAction, requestedPair, respondedPair, evidencedPair, hkind, ControlEvent.pair,
        or_comm, eq_comm]
  case evidenceValidated =>
    rw [hkind] at h
    obtain ⟨_, hcheck, h⟩ := ok_of_bind h
    have hfresh := require_eq_ok hcheck
    cases h
    constructor
    · constructor <;> simp_all [authorizedAction, requestedPair, respondedPair, evidencedPair, ControlEvent.pair]
    · constructor <;> simp [authorizedAction, requestedPair, respondedPair, evidencedPair, hkind, ControlEvent.pair,
        or_comm, eq_comm]
  all_goals
    rw [hkind] at h
    cases h
    constructor
    · constructor <;> simp [authorizedAction, requestedPair, respondedPair, evidencedPair, hkind]
    · constructor <;> simp [authorizedAction, requestedPair, respondedPair, evidencedPair, hkind]

/-- The sets hold what the events so far refer to. -/
theorem sets_of_replay {past events : List ControlEvent} {r r' : Replay} (hholds : r.Holds past)
    (h : events.foldlM step r = .ok r') : r'.Holds (past ++ events) := by
  induction events generalizing past r with
  | nil =>
    cases h
    rw [List.append_nil]
    exact hholds
  | cons e events ih =>
    rw [List.foldlM_cons] at h
    obtain ⟨middle, hstep, hrest⟩ := ok_of_bind h
    have hmiddle := (step_spec hstep).2.holds hholds
    have hrun := ih hmiddle hrest
    rwa [List.append_assoc, List.singleton_append] at hrun

section

variable {events : List ControlEvent} {r : Replay}

/-- An event was allowed with the references of those before it. -/
theorem allowed (h : events.foldlM step start = .ok r) {before after : List ControlEvent} {e : ControlEvent}
    (hsplit : events = before ++ e :: after) : ∃ s : Replay, s.Holds before ∧ s.Allows e := by
  rw [hsplit] at h
  obtain ⟨s, s', hbefore, hstep⟩ := allowed_of_foldlM h
  exact ⟨s, sets_of_replay holds_start hbefore, (step_spec hstep).1⟩

private theorem authorized_nodup (h : events.foldlM step start = .ok r) : (events.filterMap authorizedAction).Nodup := by
  refine nodup_of_fresh fun before e after action hsplit haction hmem => ?_
  obtain ⟨s, hholds, hallows⟩ := allowed h hsplit
  exact hallows.authorized action haction ((hholds.authorized action).2 hmem)

private theorem responded_nodup (h : events.foldlM step start = .ok r) : (events.filterMap respondedPair).Nodup := by
  refine nodup_of_fresh fun before e after pair hsplit hpair hmem => ?_
  obtain ⟨s, hholds, hallows⟩ := allowed h hsplit
  exact (hallows.responded pair hpair).2 ((hholds.responded pair).2 hmem)

private theorem evidenced_nodup (h : events.foldlM step start = .ok r) : (events.filterMap evidencedPair).Nodup := by
  refine nodup_of_fresh fun before e after pair hsplit hpair hmem => ?_
  obtain ⟨s, hholds, hallows⟩ := allowed h hsplit
  exact (hallows.evidenced pair hpair).2 ((hholds.evidenced pair).2 hmem)

/-- A part of the pair of a request is new. -/
private theorem requested_nodup (h : events.foldlM step start = .ok r) :
    ((events.filterMap requestedPair).map Prod.fst).Nodup ∧ ((events.filterMap requestedPair).map Prod.snd).Nodup := by
  rw [List.map_filterMap, List.map_filterMap]
  constructor
  · refine nodup_of_fresh fun before e after action hsplit haction hmem => ?_
    obtain ⟨s, hholds, hallows⟩ := allowed h hsplit
    obtain ⟨pair, hpair, rfl⟩ := Option.map_eq_some_iff.1 haction
    rw [← List.map_filterMap] at hmem
    exact (hallows.requested pair hpair).2.2.1 ((hholds.actions pair.1).2 hmem)
  · refine nodup_of_fresh fun before e after response hsplit hresponse hmem => ?_
    obtain ⟨s, hholds, hallows⟩ := allowed h hsplit
    obtain ⟨pair, hpair, rfl⟩ := Option.map_eq_some_iff.1 hresponse
    rw [← List.map_filterMap] at hmem
    exact (hallows.requested pair hpair).2.2.2 ((hholds.responses pair.2).2 hmem)

private theorem nodup_before {κ : Type} {key : ControlEvent → Option κ} {before after : List ControlEvent}
    {e : ControlEvent} (h : ((before ++ e :: after).filterMap key).Nodup) : (before.filterMap key).Nodup := by
  rw [List.filterMap_append] at h
  exact (List.nodup_append.1 h).1

/-- A replay that ends has the provenance of all its evidence. -/
theorem provenance (h : events.foldlM step start = .ok r) : Provenance events := by
  have hrequested := (requested_nodup h).1.of_map
  refine ⟨?_, authorized_nodup h, (requested_nodup h).1, (requested_nodup h).2, responded_nodup h, evidenced_nodup h⟩
  intro before e after pair hsplit hpair
  obtain ⟨s, hholds, hallows⟩ := allowed h hsplit
  have hresponded := (hholds.responded pair).1 (hallows.evidenced pair hpair).1
  have hnodup : (before.filterMap respondedPair).Nodup := nodup_before (hsplit ▸ responded_nodup h)
  refine (precededByOne_of_mem hresponded hnodup).mono fun before₁ e₁ later₁ hsplit₁ hpair₁ _ => ?_
  -- the response was allowed
  have hwhole₁ : events = before₁ ++ e₁ :: (later₁ ++ e :: after) := by rw [hsplit, hsplit₁, List.append_assoc]; rfl
  obtain ⟨s₁, hholds₁, hallows₁⟩ := allowed h hwhole₁
  have hrequest := (hholds₁.requested pair).1 (hallows₁.responded pair hpair₁).1
  refine (precededByOne_of_mem hrequest (nodup_before (hwhole₁ ▸ hrequested))).mono
    fun before₂ e₂ later₂ hsplit₂ hpair₂ _ => ?_
  -- the request was allowed
  have hwhole₂ : events = before₂ ++ e₂ :: (later₂ ++ e₁ :: (later₁ ++ e :: after)) := by
    rw [hwhole₁, hsplit₂, List.append_assoc]; rfl
  obtain ⟨s₂, hholds₂, hallows₂⟩ := allowed h hwhole₂
  have hauthorized := (hholds₂.authorized pair.1).1 (hallows₂.requested pair hpair₂).1
  exact precededByOne_of_mem hauthorized (nodup_before (hwhole₂ ▸ authorized_nodup h))

end

end Replay

/-! ### What is accepted -/

/-- The names of the metadata are those of the keys. -/
def HasKeys (e : ControlEvent) (keys : List MetadataKey) : Prop :=
  ∀ name, name ∈ e.metadata.map Prod.fst ↔ ∃ key ∈ keys, key.text = name

theorem sameNames_iff {names : List Str} {keys : List MetadataKey} :
    sameNames names keys = true ↔ ∀ name, name ∈ names ↔ ∃ key ∈ keys, key.text = name := by
  unfold sameNames
  rw [Bool.and_eq_true, List.all_eq_true, List.all_eq_true]
  constructor
  · rintro ⟨hnames, hkeys⟩ name
    constructor
    · intro hname
      obtain ⟨key, hkey, htext⟩ := List.any_eq_true.1 (hnames name hname)
      exact ⟨key, hkey, by simpa using htext⟩
    · rintro ⟨key, hkey, rfl⟩
      exact List.contains_iff_mem.1 (hkeys key hkey)
  · intro h
    constructor
    · intro name hname
      obtain ⟨key, hkey, htext⟩ := (h name).1 hname
      exact List.any_eq_true.2 ⟨key, hkey, by simpa using htext⟩
    · intro key hkey
      exact List.contains_iff_mem.2 ((h key.text).2 ⟨key, hkey, rfl⟩)

private theorem metadataTexts_names {members : List (Str × PyVal)} {texts : List (Str × Str)}
    (h : metadataTexts members = some texts) : texts.map Prod.fst = members.map Prod.fst := by
  induction members generalizing texts with
  | nil =>
    cases h
    rfl
  | cons p members ih =>
    obtain ⟨name, value⟩ := p
    cases value with
    | str s =>
      rw [metadataTexts] at h
      split at h
      · obtain ⟨rest, hrest, rfl⟩ := Option.map_eq_some_iff.1 h
        rw [List.map_cons, List.map_cons, ih hrest]
      · cases h
    | _ => cases h

theorem parseControlEvent_keys {item : PyVal} {e : ControlEvent} (h : parseControlEvent item = .ok e) :
    HasKeys e e.kind.schema ∨ e.kind = .failed ∧ HasKeys e [.failure] := by
  unfold parseControlEvent at h
  split at h
  · obtain ⟨kind?, hkind, h⟩ := ok_of_bind h
    split at h
    · split at h
      · rename_i members hmembers
        obtain ⟨_, hadmits, h⟩ := ok_of_bind h
        split at h
        · rename_i texts htexts
          cases h
          have hadmits := require_eq_ok hadmits
          unfold ControlKind.admits at hadmits
          rw [← metadataTexts_names htexts, Bool.or_eq_true, Bool.and_eq_true, beq_iff_eq, sameNames_iff,
            sameNames_iff] at hadmits
          exact hadmits
        · cases h
      · cases h
    · cases h
  · cases h

/-- Each event that the loop returns was read, and all of them were replayed. -/
theorem parseControlEvents_spec {r : Replay} {items : List PyVal} {events : List ControlEvent}
    (h : parseControlEvents r items = .ok events) :
    (∃ r', events.foldlM Replay.step r = .ok r') ∧ ∀ e ∈ events, ∃ item ∈ items, parseControlEvent item = .ok e := by
  induction items generalizing r events with
  | nil =>
    cases h
    refine ⟨⟨r, rfl⟩, ?_⟩
    intro e he
    cases he
  | cons item items ih =>
    rw [parseControlEvents] at h
    obtain ⟨e, hread, h⟩ := ok_of_bind h
    obtain ⟨r', hstep, h⟩ := ok_of_bind h
    obtain ⟨rest, hrest, h⟩ := ok_of_bind h
    cases h
    obtain ⟨⟨r'', hrun⟩, hread'⟩ := ih hrest
    constructor
    · refine ⟨r'', ?_⟩
      rw [List.foldlM_cons, hstep]
      exact hrun
    · rintro e' he'
      rcases List.mem_cons.1 he' with rfl | he'
      · exact ⟨item, List.mem_cons_self, hread⟩
      · obtain ⟨item', hitem', hread'⟩ := hread' e' he'
        exact ⟨item', List.mem_cons_of_mem _ hitem', hread'⟩

/-- The terminal record stands at the end of a limited transcript, and only there. -/
theorem terminal_of_valid {events : List ControlEvent} {limited : Bool} (h : terminalIsValid events limited = true) :
    ((∃ e ∈ events, e.kind = .transcriptLimit) ↔ limited = true) ∧
      ∀ before e after, events = before ++ e :: after → e.kind = .transcriptLimit → after = [] := by
  unfold terminalIsValid at h
  dsimp only at h
  have hindex : ∀ before e after, events = before ++ e :: after → e.kind = .transcriptLimit →
      before.length ∈ (events.zipIdx.filter fun p => p.1.kind == .transcriptLimit).map Prod.snd := by
    rintro before e after rfl hkind
    refine List.mem_map.2 ⟨(e, before.length), List.mem_filter.2 ⟨?_, by simp [hkind]⟩, rfl⟩
    rw [List.mk_mem_zipIdx_iff_getElem?]
    simp
  have hevent : ∀ i ∈ (events.zipIdx.filter fun p => p.1.kind == .transcriptLimit).map Prod.snd,
      ∃ e ∈ events, e.kind = .transcriptLimit := by
    intro i hi
    obtain ⟨p, hp, -⟩ := List.mem_map.1 hi
    obtain ⟨hmem, hkind⟩ := List.mem_filter.1 hp
    exact ⟨p.1, List.fst_mem_of_mem_zipIdx hmem, by simpa using hkind⟩
  cases limited with
  | true =>
    rw [if_pos rfl, Bool.and_eq_true, beq_iff_eq] at h
    obtain ⟨-, hindexes⟩ := h
    rw [hindexes] at hindex hevent
    refine ⟨iff_of_true (hevent _ (List.mem_singleton_self _)) rfl, ?_⟩
    intro before e after hsplit hkind
    have hlast := List.mem_singleton.1 (hindex before e after hsplit hkind)
    rw [hsplit, List.length_append, List.length_cons] at hlast
    exact List.length_eq_zero_iff.1 (by omega)
  | false =>
    rw [if_neg (by simp), beq_iff_eq] at h
    rw [h] at hindex
    have hnone : ∀ before e after, events = before ++ e :: after → e.kind ≠ .transcriptLimit := by
      intro before e after hsplit hkind
      cases hindex before e after hsplit hkind
    refine ⟨iff_of_false ?_ (by simp), fun before e after hsplit hkind => absurd hkind (hnone before e after hsplit)⟩
    rintro ⟨e, he, hkind⟩
    obtain ⟨before, after, hsplit⟩ := List.append_of_mem he
    exact hnone before e after hsplit hkind

private theorem get?_of_closed {value : PyVal} {a b c : PyVal} {ka kb kc : String}
    (h : value.closed? [ka, kb, kc] = some [a, b, c]) : value.get? kc = some c := by
  unfold PyVal.closed? at h
  split at h
  · split at h
    · simp only [List.mapM_cons, List.mapM_nil, Option.bind_eq_bind, Option.bind_eq_some_iff, Option.pure_def,
        Option.some_inj] at h
      obtain ⟨a', -, l, ⟨b', -, l', ⟨c', hc, l'', rfl, rfl⟩, rfl⟩, hl⟩ := h
      cases hl
      exact hc
    · cases h
  · cases h

/-- An accepted transcript has the provenance of its evidence, the metadata of its events and a terminal record
exactly if it is limited; an event `failed` may leave out its action. -/
theorem parse_provenance (L : Library) (raw : Bytes) (limits : Limits) (events : List ControlEvent)
    (h : parseBoundedTranscript L raw limits = .ok events) :
    Provenance events ∧
      (∀ e ∈ events, HasKeys e e.kind.schema ∨ e.kind = .failed ∧ HasKeys e [.failure]) ∧
      ∃ value limited, L.loads raw = .ok value ∧ value.get? "limited" = some (.bool limited) ∧
        ((∃ e ∈ events, e.kind = .transcriptLimit) ↔ limited = true) ∧
        ∀ before e after, events = before ++ e :: after → e.kind = .transcriptLimit → after = [] := by
  unfold parseBoundedTranscript at h
  obtain ⟨value, hvalue, h⟩ := ok_of_bind h
  split at h
  · rename_i schemaVersion items limited hclosed
    obtain ⟨_, -, h⟩ := ok_of_bind h
    obtain ⟨events', hevents, h⟩ := ok_of_bind h
    obtain ⟨_, hterminal, h⟩ := ok_of_bind h
    cases h
    have hterminal := terminal_of_valid (require_eq_ok hterminal)
    obtain ⟨⟨r, hrun⟩, hread⟩ := parseControlEvents_spec hevents
    refine ⟨Replay.provenance hrun, ?_, value, limited, ?_, get?_of_closed hclosed, hterminal⟩
    · intro e he
      obtain ⟨item, -, hitem⟩ := hread e he
      exact parseControlEvent_keys hitem
    · exact (parseClosedJson_eq_ok_iff.1 hvalue).2.1
  · cases h

/-- A call whose answer is evidence, and a failure without an action. -/
def sampleEvents : List ControlEvent :=
  let call := [(chars "action", chars "a1"), (chars "response", chars "r1")]
  [⟨.authorized, [(chars "action", chars "a1"), (chars "proposal", chars "p1")]⟩, ⟨.mcpRequest, call⟩,
    ⟨.mcpResponse, call⟩, ⟨.evidenceValidated, call⟩, ⟨.failed, [(chars "failure", chars "cancelled")]⟩]

/-- A library that knows the text of these events. -/
def sampleLibrary : Library where
  loads raw :=
    if raw = transcriptBytes ⟨fun _ => .error .malformedJson, fun _ => [], fun _ => []⟩ sampleEvents false then
      .ok (transcriptValue sampleEvents false)
    else .error .malformedJson
  floatRepr _ := []
  sha256 _ := []

private theorem parse_sample :
    parseBoundedTranscript sampleLibrary (transcriptBytes sampleLibrary sampleEvents false) defaultLimits =
      .ok sampleEvents := by
  decide +kernel

theorem parse_provenance_sample : Provenance sampleEvents ∧
    (∀ e ∈ sampleEvents, HasKeys e e.kind.schema ∨ e.kind = .failed ∧ HasKeys e [.failure]) ∧
    ∃ value limited, sampleLibrary.loads (transcriptBytes sampleLibrary sampleEvents false) = .ok value ∧
      value.get? "limited" = some (.bool limited) ∧
      ((∃ e ∈ sampleEvents, e.kind = .transcriptLimit) ↔ limited = true) ∧
      ∀ before e after, sampleEvents = before ++ e :: after → e.kind = .transcriptLimit → after = [] :=
  parse_provenance sampleLibrary (transcriptBytes sampleLibrary sampleEvents false) defaultLimits sampleEvents parse_sample

/-- An event `failed` is accepted without the action that its schema names. -/
theorem failed_without_action : ¬ ∀ L raw limits events, parseBoundedTranscript L raw limits = .ok events →
    ∀ e ∈ events, HasKeys e e.kind.schema := by
  intro h
  have hkeys := h _ _ _ _ parse_sample ⟨.failed, [(chars "failure", chars "cancelled")]⟩ (by simp [sampleEvents])
  have haction := (hkeys (MetadataKey.text .action)).2 ⟨.action, by decide, rfl⟩
  revert haction
  decide +kernel

end NativeMcp.Agent
