import NativeMcp.Agent.OrchestratorRuns
import NativeMcp.Agent.TranscriptTraces

/-!
# What a run records

Everything that a run adds to its transcript is permitted by what it has added before: an action is registered before it
is authorized, and the identifier of its request is the client's next one.  So the transcript `Traces` the run, and the
reader accepts it whatever the provider and the child do (`run_recorded`).
-/

namespace NativeMcp.Agent

open BoundedTranscript (Reserved fits)

/-- What a transcript says of this evidence. -/
def Evidence.pair (e : Evidence) : Str × Str := (e.actionId.value, decimalText e.responseId)

/-- The transcript of the outcome is accepted by its reader and all evidence in it goes back to one authorized action.  If
it has no terminal record, its evidence is that of the outcome, in the order in which the actions were executed. -/
structure OrchestrationOutcome.Recorded (L : Library) (limits : Limits) (result : OrchestrationOutcome) : Prop where
  accepted : ∃ events, parseBoundedTranscript L result.transcript limits = .ok events ∧ Provenance events ∧
    ((∀ e ∈ events, e.kind ≠ .transcriptLimit) →
      events.filterMap evidencedPair = result.evidence.map Evidence.pair)
  order : result.executionOrder = result.evidence.map Evidence.actionId

namespace Orchestrator

/-- The transcript traces the run, which uses the identifiers from this one on. -/
def Traced (L : Library) (limits : Limits) (nextId : Nat) (o : Orchestrator) : Prop :=
  Traces L limits o.transcript o.actions nextId (o.evidence.map Evidence.pair) ∧ o.order = o.evidence.map Evidence.actionId

/-- The program changes nothing but the transcript, and this still traces the run. -/
def Keeps (L : Library) (limits : Limits) {α : Type} (x : Program Orchestrator Raised α) : Prop :=
  ∀ nextId o, Traced L limits nextId o → ∃ t, (x o).2 = o.withTranscript t ∧ Traced L limits nextId (o.withTranscript t)

section

variable {L : Library} {sensitive : Str → List Str → Nat → Str} {limits : Limits} {α β : Type} {o : Orchestrator}

theorem Keeps.pure (a : α) : Keeps L limits (pure a : Program Orchestrator Raised α) :=
  fun _ o h => ⟨o.transcript, rfl, h⟩

theorem Keeps.raise (raised : Raised) : Keeps L limits (Program.raise raised : Program Orchestrator Raised α) :=
  fun _ o h => ⟨o.transcript, rfl, h⟩

theorem Keeps.get : Keeps L limits (Program.get : Program Orchestrator Raised Orchestrator) :=
  fun _ o h => ⟨o.transcript, rfl, h⟩

theorem Keeps.lift (v : Except Raised α) : Keeps L limits (Program.lift v : Program Orchestrator Raised α) := by
  cases v with
  | ok a => exact .pure a
  | error raised => exact .raise raised

theorem Keeps.bind {x : Program Orchestrator Raised α} {f : α → Program Orchestrator Raised β} (hx : Keeps L limits x)
    (hf : ∀ a, Keeps L limits (f a)) : Keeps L limits (x >>= f) := by
  intro nextId o ho
  obtain ⟨t, ht, htraced⟩ := hx nextId o ho
  rw [Program.bind_apply]
  generalize x o = r at ht
  obtain ⟨a | raised | _, o'⟩ := r
  · have hsame : o' = o.withTranscript t := ht
    obtain ⟨t', ht', htraced'⟩ := hf a nextId o' (by rw [hsame]; exact htraced)
    rw [hsame] at htraced'
    exact ⟨t', by rw [ht', hsame]; rfl, htraced'⟩
  · exact ⟨t, ht, htraced⟩
  · exact ⟨t, ht, htraced⟩

/-- However the program ends, the transcript traces the run. -/
theorem Keeps.traced {x : Program Orchestrator Raised α} (hx : Keeps L limits x) {nextId : Nat}
    (h : Traced L limits nextId o) : Traced L limits nextId (x o).2 := by
  obtain ⟨t, ht, htraced⟩ := hx nextId o h
  rw [ht]
  exact htraced

variable (hroom : fits L limits [] = true)
include hroom

/-! ### Events that refer to nothing -/

/-- A call of `add` in a run. -/
theorem add_eq (kind : ControlKind) (metadata : List (MetadataKey × Str)) (o : Orchestrator)
    (hschema : metadata.map Prod.fst = kind.schema) (h : Reserved L limits o.transcript) :
    (∃ t, add L limits kind metadata o = (.returned (), o.withTranscript t) ∧
      Records o.transcript (recordedEvent kind metadata) t ∧ Reserved L limits t ∧
      (o.transcript.limited = false → AreTexts metadata)) ∨
    (o.transcript.limited = false ∧ ¬ AreTexts metadata ∧
      add L limits kind metadata o = (.raised (.provider .localValidationFailure), o)) := by
  unfold add
  rcases add_records hroom h hschema with ⟨t, heq, hrecords, hreserved, htexts⟩ | ⟨hopen, htexts, heq⟩
  · rw [heq]
    exact .inl ⟨t, rfl, hrecords, hreserved, htexts⟩
  · rw [heq]
    exact .inr ⟨hopen, htexts, rfl⟩

theorem keeps_add {kind : ControlKind} {metadata : List (MetadataKey × Str)}
    (hschema : metadata.map Prod.fst = kind.schema)
    (hplain : kind ∉ [ControlKind.authorized, .mcpRequest, .mcpResponse, .evidenceValidated]) :
    Keeps L limits (add L limits kind metadata) := by
  intro nextId o ⟨htraces, horder⟩
  rcases add_eq hroom kind metadata o hschema htraces.reserved with ⟨t, heq, hrecords, hreserved, htexts⟩ | ⟨-, -, heq⟩
  · rw [heq]
    refine ⟨t, rfl, ?_, horder⟩
    exact htraces.plain hrecords hreserved (fun hopen => recordedEvent_shaped hschema (htexts hopen)) hplain
  · rw [heq]
    exact ⟨o.transcript, rfl, htraces, horder⟩

theorem keeps_skip (ps : List ProviderToolCallProposal) : Keeps L limits (skip L limits ps) := by
  induction ps with
  | nil => exact .pure ()
  | cons p ps ih => exact .bind (keeps_add hroom rfl (by decide)) fun _ => ih

theorem keeps_addAll {kinds : List ControlKind} (h : ∀ kind ∈ kinds, kind.schema = [] ∧
    kind ∉ [ControlKind.authorized, .mcpRequest, .mcpResponse, .evidenceValidated]) :
    Keeps L limits (addAll L limits kinds) := by
  induction kinds with
  | nil => exact .pure ()
  | cons kind kinds ih =>
    obtain ⟨⟨hschema, hplain⟩, hkinds⟩ := List.forall_mem_cons.1 h
    exact .bind (keeps_add hroom hschema.symm hplain) fun _ => ih hkinds

omit hroom in
theorem shutdownEvents_plain (mode : CloseMode) : ∀ kind ∈ shutdownEvents mode, kind.schema = [] ∧
    kind ∉ [ControlKind.authorized, .mcpRequest, .mcpResponse, .evidenceValidated] := by
  cases mode <;> decide

theorem keeps_outcome (mode : CloseMode) (verdict : String) : Keeps L limits (outcome L limits mode verdict) := by
  refine .bind (keeps_add hroom rfl (by decide)) fun _ => ?_
  refine .bind (keeps_addAll hroom (shutdownEvents_plain mode)) fun _ => ?_
  refine .bind (keeps_add hroom rfl (by decide)) fun _ => ?_
  exact .bind .get fun o => .bind (.lift _) fun _ => .pure _

theorem keeps_recover (env : RunSurroundings) (raised : Raised) : Keeps L limits (recover L limits env raised) := by
  unfold recover
  split
  · exact .raise _
  · split
    · exact .bind (keeps_add hroom rfl (by decide)) fun _ => keeps_outcome hroom _ _
    · split
      · exact .bind (keeps_add hroom rfl (by decide)) fun _ => keeps_outcome hroom _ _
      · exact .bind (keeps_add hroom rfl (by decide)) fun _ => keeps_outcome hroom _ _

theorem keeps_ask (request : ProviderRequest) (deadline : Deadline) (surface : ToolSurface) (k : Nat)
    (env : TurnSurroundings) : Keeps L limits (ask L limits request deadline surface k env) := by
  refine .bind (.lift _) fun _ => .bind (.lift _) fun _ => .bind (.lift _) fun raw => ?_
  exact .bind (keeps_add hroom rfl (by decide)) fun _ => .lift _

theorem keeps_prepare (context : Str) (surface : ToolSurface) (prepared : List Prepared)
    (items : List (Option ProviderToolCallProposal)) :
    Keeps L limits (prepare L limits context surface prepared items) := by
  induction items generalizing prepared with
  | nil => exact .pure _
  | cons item items ih =>
    cases item with
    | none => exact .bind (keeps_add hroom rfl (by decide)) fun _ => .pure _
    | some p =>
      rw [prepare]
      cases surface.tool? p.name with
      | none => exact .bind (keeps_add hroom rfl (by decide)) fun _ => .pure _
      | some tool =>
        dsimp only
        rcases proposedArguments limits tool p with (kind | _) | frozen
        · exact .bind (keeps_add hroom rfl (by decide)) fun _ => .bind (keeps_skip hroom _) fun _ => .pure _
        · exact .raise _
        refine .bind (.lift _) fun content => .bind (.lift _) fun action => .bind .get fun o => ?_
        by_cases hrepeats : o.repeats prepared p action = true
        · rw [if_pos hrepeats]
          exact .bind (keeps_add hroom rfl (by decide)) fun _ => .pure _
        · rw [if_neg hrepeats]
          exact ih _

/-! ### One call -/

omit hroom in
/-- The metadata of the events of a call. -/
theorem callEvent_shaped {action : LocalActionIdentity} {id : Nat}
    (htexts : AreTexts [(.action, action.value), (.response, decimalText id)]) {kind : ControlKind}
    (hschema : [MetadataKey.action, .response] = kind.schema) : (callEvent kind action id).IsShaped :=
  recordedEvent_shaped hschema htexts

/-- The answer of a request is recorded, and then its result as evidence; neither is refused. -/
theorem answer_traced {action : LocalActionIdentity} {id : Nat} {evidence : List (Str × Str)}
    (h : Traces L limits o.transcript o.actions o.client.nextId evidence)
    (htexts : o.transcript.limited = false → AreTexts [(.action, action.value), (.response, decimalText id)])
    (hrequested : o.transcript.limited = false →
      (action.value, decimalText id) ∈ o.transcript.events.filterMap requestedPair ∧
        (action.value, decimalText id) ∉ o.transcript.events.filterMap respondedPair)
    (hevidence : o.evidence.map Evidence.pair = evidence ++ [(action.value, decimalText id)])
    (horder : o.order = o.evidence.map Evidence.actionId) :
    ∃ t, (do
        add L limits .mcpResponse [(.action, action.value), (.response, decimalText id)]
        add L limits .evidenceValidated [(.action, action.value), (.response, decimalText id)]) o =
      (.returned (), o.withTranscript t) ∧ Traced L limits o.client.nextId (o.withTranscript t) := by
  rw [Program.bind_apply]
  rcases add_eq hroom .mcpResponse [(.action, action.value), (.response, decimalText id)] o rfl h.reserved with
    ⟨t, heq, hrecords, hreserved, -⟩ | ⟨hopen, hrefused, -⟩
  · obtain ⟨hresponse, hresponded⟩ := h.respond hrequested hrecords hreserved
      (fun hopen => callEvent_shaped (htexts hopen) rfl)
    rw [heq]
    dsimp only
    rcases add_eq hroom .evidenceValidated [(.action, action.value), (.response, decimalText id)] (o.withTranscript t)
      rfl hreserved with ⟨t', heq', hrecords', hreserved', -⟩ | ⟨hopen, hrefused, -⟩
    · have hvalidated := hresponse.validate hresponded hrecords' hreserved'
        (fun hopen => callEvent_shaped (htexts (hrecords.opened hopen).1) rfl)
      rw [heq']
      refine ⟨t', rfl, ?_, horder⟩
      show Traces L limits t' o.actions o.client.nextId (o.evidence.map Evidence.pair)
      rw [hevidence]
      exact hvalidated
    · exact absurd (htexts (hrecords.opened hopen).1) hrefused
  · exact absurd (htexts hopen) hrefused

/-- What has become of the transcript after a call: it traces the run, and if the call is done the run can go on. -/
structure CallTraced (L : Library) (limits : Limits) (actions : List Str) {α : Type} (done : α → Prop)
    (r : Ending Raised α × Orchestrator) : Prop where
  actions : r.2.actions = actions
  traced : ∃ nextId, Traced L limits nextId r.2
  completed : ∀ a, r.1 = .returned a → done a → Traced L limits r.2.client.nextId r.2

variable (sensitive) in
/-- The `try` around a call that has been authorized. -/
theorem attemptCall_traced (env : CallSurroundings) {q : Prepared} (a : Action)
    (h : Traced L limits o.client.nextId o) (hregistered : q.action.value ∈ o.actions)
    (hauthorized : o.transcript.limited = false → q.action.value ∈ o.transcript.events.filterMap authorizedAction ∧
      q.action.value ∉ (o.transcript.events.filterMap requestedPair).map Prod.fst) :
    CallTraced L limits o.actions (fun _ => True) (attemptCall L sensitive limits env q a o) := by
  obtain ⟨htraces, horder⟩ := h
  unfold attemptCall
  rw [Program.bind_apply, Program.get_apply]
  dsimp only
  rw [Program.bind_apply]
  rcases add_eq hroom .mcpRequest [(.action, q.action.value), (.response, decimalText o.client.nextId)] o rfl
    htraces.reserved with ⟨t, heq, hrecords, hreserved, htexts⟩ | ⟨-, -, heq⟩
  · obtain ⟨hrequest, hrequested⟩ := htraces.request hregistered hauthorized hrecords hreserved
      (fun hopen => callEvent_shaped (htexts hopen) rfl)
    rw [heq]
    dsimp only
    have hc : (o.withTranscript t).client = o.client := rfl
    rw [Program.bind_apply]
    unfold onClient
    rw [Program.zoom_apply, hc]
    rcases execute_effect L sensitive limits env.turn env.object a o.client with
      ⟨raised, c, hexecute, -⟩ | ⟨x, hx⟩
    · rw [hexecute]
      exact ⟨rfl, ⟨o.client.nextId + 1, hrequest, horder⟩, fun _ hreturned => by cases hreturned⟩
    · have hafter := hx.after
      generalize execute L sensitive limits env.turn env.object (some a) o.client = r at hx hafter
      obtain ⟨response | raised | _, c⟩ := r
      · obtain ⟨hid, -⟩ := hx.result response rfl
        rw [hx.id] at hid
        have hclient : c = o.client.takeId.record (.sent x) := hafter
        dsimp only
        rw [Program.bind_apply, Program.modify_apply, hid]
        dsimp only
        generalize ho' : (Orchestrator.withClient (o.withTranscript t) c).conclude
          ⟨q.action, o.client.nextId, response.result⟩ = o'
        have htranscript : o'.transcript = t := by rw [← ho']; rfl
        have hactions : o'.actions = o.actions := by rw [← ho']; rfl
        have hnext : o'.client.nextId = o.client.nextId + 1 := by
          rw [← ho', hclient]
          rfl
        have hevidence : o'.evidence.map Evidence.pair =
            o.evidence.map Evidence.pair ++ [(q.action.value, decimalText o.client.nextId)] := by
          rw [← ho']
          exact List.map_append
        have horder' : o'.order = o'.evidence.map Evidence.actionId := by
          have hconcluded : o'.order = o.order ++ [q.action] ∧
              o'.evidence = o.evidence ++ [⟨q.action, o.client.nextId, response.result⟩] := by
            rw [← ho']
            exact ⟨rfl, rfl⟩
          rw [hconcluded.1, hconcluded.2, horder, List.map_append]
          rfl
        rw [← htranscript, ← hactions, ← hnext] at hrequest
        rw [← htranscript] at hrequested
        obtain ⟨t', heq', htraced⟩ := answer_traced hroom hrequest
          (fun hopen => htexts (hrecords.opened (htranscript ▸ hopen)).1) hrequested hevidence horder'
        rw [heq']
        exact ⟨hactions, ⟨_, htraced⟩, fun _ _ _ => htraced⟩
      · exact ⟨rfl, ⟨o.client.nextId + 1, hrequest, horder⟩, fun _ hreturned => by cases hreturned⟩
      · exact ⟨rfl, ⟨o.client.nextId + 1, hrequest, horder⟩, fun _ hreturned => by cases hreturned⟩
  · rw [heq]
    exact ⟨rfl, ⟨o.client.nextId, htraces, horder⟩, fun _ hreturned => by cases hreturned⟩

variable (sensitive) in
/-- A call whose action is new. -/
theorem performCall_traced (env : CallSurroundings) {q : Prepared} (h : Traced L limits o.client.nextId o)
    (hnew : q.action.value ∉ o.actions) :
    (performCall L sensitive limits env q o).2.actions ⊆ q.action.value :: o.actions ∧
      (∃ nextId, Traced L limits nextId (performCall L sensitive limits env q o).2) ∧
      ((performCall L sensitive limits env q o).1 = .returned (.ok ()) →
        Traced L limits (performCall L sensitive limits env q o).2.client.nextId
          (performCall L sensitive limits env q o).2) := by
  unfold performCall
  rw [Program.bind_apply]
  unfold onClient
  rw [Program.zoom_apply]
  rcases authorize_cases L limits env.object (some q.action) q.proposal.callId.text q.proposal.name
    q.arguments o.client with ⟨raised, hauthorize⟩ | ⟨a, -, -, hauthorize⟩
  · rw [hauthorize]
    exact ⟨List.subset_cons_self _ _, ⟨_, h⟩, fun hreturned => by cases hreturned⟩
  · rw [hauthorize]
    dsimp only
    rw [Program.bind_apply, Program.modify_apply]
    dsimp only
    rw [Program.bind_apply]
    -- the state in which the call has been registered
    generalize ho' : (o.withClient (o.client.grant env.object a)).register q.proposal.callId.text q.content q.action = o'
    have hactions : o'.actions = q.action.value :: o.actions := by rw [← ho']; rfl
    have htranscript : o'.transcript = o.transcript := by rw [← ho']; rfl
    have hnext : o'.client.nextId = o.client.nextId := by rw [← ho']; rfl
    have hevidence : o'.evidence = o.evidence ∧ o'.order = o.order := by
      rw [← ho']
      exact ⟨rfl, rfl⟩
    obtain ⟨htraces, horder⟩ := h
    have horder' : o'.order = o'.evidence.map Evidence.actionId := by rw [hevidence.1, hevidence.2, horder]
    rcases add_eq hroom .authorized [(.action, q.action.value), (.proposal, q.proposal.callId.text)] o' rfl
      (by rw [htranscript]; exact htraces.reserved) with ⟨t, heq, hrecords, hreserved, htexts⟩ | ⟨-, -, heq⟩
    · rw [htranscript] at hrecords htexts
      obtain ⟨hgrown, hauthorized⟩ := htraces.authorize hnew hrecords hreserved
        (fun hopen => recordedEvent_shaped rfl (htexts hopen))
      rw [heq]
      dsimp only
      have htraced : Traced L limits (o'.withTranscript t).client.nextId (o'.withTranscript t) := by
        refine ⟨?_, horder'⟩
        show Traces L limits t o'.actions o'.client.nextId (o'.evidence.map Evidence.pair)
        rw [hactions, hnext, hevidence.1]
        exact hgrown
      have hregistered : q.action.value ∈ (o'.withTranscript t).actions := by
        show q.action.value ∈ o'.actions
        rw [hactions]
        exact List.mem_cons_self
      have hcall := attemptCall_traced sensitive hroom env ⟨a, some o.client.issuer⟩ htraced hregistered
        hauthorized
      unfold Program.attempt Program.handle
      rw [Program.bind_apply]
      generalize attemptCall L sensitive limits env q ⟨a, some o.client.issuer⟩ (o'.withTranscript t) = r at hcall ⊢
      obtain ⟨hsame, htraced', hcompleted⟩ := hcall
      have hsubset : r.2.actions ⊆ q.action.value :: o.actions := by
        rw [hsame, ← hactions]
        exact List.Subset.refl _
      obtain ⟨u | raised | _, o''⟩ := r
      · exact ⟨hsubset, htraced', fun _ => hcompleted u rfl trivial⟩
      · exact ⟨hsubset, htraced', fun hreturned => by cases hreturned⟩
      · exact ⟨hsubset, htraced', fun hreturned => by cases hreturned⟩
    · rw [heq]
      refine ⟨by rw [hactions]; exact List.Subset.refl _, ⟨o.client.nextId, ?_, horder'⟩, fun hreturned => by cases hreturned⟩
      rw [htranscript, hactions, hevidence.1]
      exact htraces.mono (List.subset_cons_self _ _) (Nat.le_refl _)

/-! ### The turns -/

/-- What has become of the transcript when the run may have come to its end. -/
structure TurnTraced (L : Library) (limits : Limits) (r : Ending Raised (Option String) × Orchestrator) : Prop where
  traced : ∃ nextId, Traced L limits nextId r.2
  completed : r.1 = .returned none → Traced L limits r.2.client.nextId r.2

omit hroom in
theorem TurnTraced.stops {x : Program Orchestrator Raised (Option String)} {nextId : Nat} (hx : Keeps L limits x)
    (hstops : Stops x) (h : Traced L limits nextId o) : TurnTraced L limits (x o) :=
  ⟨⟨nextId, hx.traced h⟩, fun hnone => absurd hnone (hstops o)⟩

omit hroom in
/-- The identifier of the next request is kept with the rest. -/
theorem Keeps.goesOn {x : Program Orchestrator Raised α} (hx : Keeps L limits x)
    (h : Traced L limits o.client.nextId o) : Traced L limits (x o).2.client.nextId (x o).2 := by
  obtain ⟨t, ht, htraced⟩ := hx o.client.nextId o h
  rw [ht]
  exact htraced

variable (sensitive) in
theorem executeAll_traced (deadline : Deadline) (env : Nat → CallSurroundings) (k : Nat) (qs : List Prepared)
    (h : Traced L limits o.client.nextId o) (hdistinct : (qs.map fun q => q.action.value).Nodup)
    (hnew : ∀ q ∈ qs, q.action.value ∉ o.actions) :
    TurnTraced L limits (executeAll L sensitive limits deadline env k qs o) := by
  induction qs generalizing k o with
  | nil => exact ⟨⟨_, h⟩, fun _ => h⟩
  | cons q qs ih =>
    rw [executeAll, Program.bind_apply, Program.get_apply]
    dsimp only
    by_cases hcancelled : (env k).cancelled = true
    · rw [if_pos hcancelled]
      exact .stops (.bind (keeps_add hroom rfl (by decide)) fun _ => .bind (keeps_add hroom rfl (by decide)) fun _ =>
        .pure _) (.bind fun _ => .bind fun _ => .verdict _) h
    rw [if_neg hcancelled]
    by_cases hlate : (limits.mcpTotalCalls ≤ o.order.length || deadline.expired (env k).now) = true
    · rw [if_pos hlate]
      exact .stops (.bind (keeps_add hroom rfl (by decide)) fun _ => .bind (keeps_add hroom rfl (by decide)) fun _ =>
        .pure _) (.bind fun _ => .bind fun _ => .verdict _) h
    rw [if_neg hlate, Program.bind_apply]
    have hcall := performCall_traced sensitive hroom (env k) h (hnew q List.mem_cons_self)
    generalize performCall L sensitive limits (env k) q o = r at hcall ⊢
    obtain ⟨hactions, ⟨nextId, htraced⟩, hcompleted⟩ := hcall
    obtain ⟨result | raised | _, o'⟩ := r
    · dsimp only
      rcases result with (kind | _) | u
      · exact .stops (.bind (keeps_add hroom rfl (by decide)) fun _ => .bind (keeps_skip hroom _) fun _ => .pure _)
          (.bind fun _ => .bind fun _ => .verdict _) htraced
      · exact .stops (.raise _) (.raise _) htraced
      · -- the actions of the others are still new
        rw [List.map_cons, List.nodup_cons] at hdistinct
        refine ih (k + 1) (hcompleted rfl) hdistinct.2 fun q' hq' hmem => ?_
        rcases List.mem_cons.1 (hactions hmem) with hsame | hold
        · exact hdistinct.1 (hsame ▸ List.mem_map_of_mem (f := fun q => q.action.value) hq')
        · exact hnew q' (List.mem_cons_of_mem _ hq') hold
    · exact ⟨⟨nextId, htraced⟩, fun hnone => by cases hnone⟩
    · exact ⟨⟨nextId, htraced⟩, fun hnone => by cases hnone⟩

variable (sensitive) in
theorem respond_traced (context : Str) (deadline : Deadline) (surface : ToolSurface) (env : TurnSurroundings)
    (response : TurnResponse) (h : Traced L limits o.client.nextId o) :
    TurnTraced L limits (respond L sensitive limits context deadline surface env response o) := by
  unfold respond
  rcases response with ⟨role, content⟩ | items | _
  · exact .stops (.pure _) (.verdict _) h
  · dsimp only
    by_cases hcount : (limits.proposedToolCallCount < items.length || limits.mcpCallsPerTurn < items.length) = true
    · rw [if_pos hcount]
      exact .stops (.pure _) (.verdict _) h
    rw [if_neg hcount, Program.bind_apply]
    have hkept := (keeps_prepare hroom context surface [] items).goesOn h
    obtain ⟨⟨t, ht⟩, hprepared⟩ := prepare_prepares (L := L) (o := o) context [] items List.nodup_nil List.nodup_nil
    generalize prepare L limits context surface [] items o = r at hkept ht hprepared ⊢
    obtain ⟨(verdict | qs) | raised | _, o'⟩ := r
    · exact .stops (.pure _) (.verdict _) hkept
    · obtain ⟨new, hqs, hprepares⟩ := hprepared qs rfl
      rw [List.nil_append] at hqs
      subst hqs
      have hsame : o' = o.withTranscript t := ht
      have hactions : o'.actions = o.actions := by
        rw [hsame]
        rfl
      refine executeAll_traced sensitive hroom deadline env.calls 0 qs hkept ?_ ?_
      · have hdistinct := hprepares.actions
        rw [List.nil_append] at hdistinct
        have hvalues := hdistinct.map (f := LocalActionIdentity.value) fun a b hab => by
          cases a
          cases b
          cases hab
          rfl
        rwa [List.map_map] at hvalues
      · intro q hq
        rw [hactions]
        exact (hprepares.checked q hq).unregistered.1
    · exact ⟨⟨_, hkept⟩, fun hnone => by cases hnone⟩
    · exact ⟨⟨_, hkept⟩, fun hnone => by cases hnone⟩
  · exact .stops (.raise _) (.raise _) h

variable (sensitive) in
theorem turn_traced (request : ProviderRequest) (context : Str) (deadline : Deadline) (surface : ToolSurface) (k : Nat)
    (env : TurnSurroundings) (h : Traced L limits o.client.nextId o) :
    TurnTraced L limits (turn L sensitive limits request context deadline surface k env o) := by
  unfold turn
  by_cases hcancelled : env.cancelled = true
  · rw [if_pos hcancelled]
    exact .stops (.pure _) (.verdict _) h
  rw [if_neg hcancelled, Program.bind_apply]
  have hasked := (keeps_ask hroom request deadline surface k env).goesOn h
  generalize ask L limits request deadline surface k env o = r at hasked ⊢
  obtain ⟨response | raised | _, o'⟩ := r
  · dsimp only
    by_cases hexpired : deadline.expired env.answeredAt = true
    · rw [if_pos hexpired]
      exact .stops (.pure _) (.verdict _) hasked
    rw [if_neg hexpired]
    generalize providerResponseValue response >>= canon L = text
    rcases text with raised | encoded
    · exact .stops (.pure _) (.verdict _) hasked
    dsimp only
    by_cases hlong : limits.providerResponseBytes < encoded.length
    · rw [if_pos hlong]
      exact .stops (.pure _) (.verdict _) hasked
    rw [if_neg hlong, Program.bind_apply]
    have hkeeps : Keeps L limits (add L limits .providerTurnResponse
        [(.turn, decimalText k), (.bytes, decimalText encoded.length)]) := keeps_add hroom rfl (by decide)
    have hadded := hkeeps.goesOn hasked
    generalize add L limits .providerTurnResponse _ o' = r at hadded ⊢
    obtain ⟨u | raised | _, o''⟩ := r
    · exact respond_traced sensitive hroom context deadline surface env response hadded
    · exact ⟨⟨_, hadded⟩, fun hnone => by cases hnone⟩
    · exact ⟨⟨_, hadded⟩, fun hnone => by cases hnone⟩
  · exact ⟨⟨_, hasked⟩, fun hnone => by cases hnone⟩
  · exact ⟨⟨_, hasked⟩, fun hnone => by cases hnone⟩

variable (sensitive) in
theorem turns_traced (request : ProviderRequest) (context : Str) (deadline : Deadline) (surface : ToolSurface)
    (env : Nat → TurnSurroundings) (k n : Nat) (h : Traced L limits o.client.nextId o) :
    ∃ nextId, Traced L limits nextId (turns L sensitive limits request context deadline surface env k n o).2 := by
  induction n generalizing k o with
  | zero => exact ⟨_, h⟩
  | succ n ih =>
    rw [turns, Program.bind_apply]
    have hturn := turn_traced sensitive hroom request context deadline surface k (env k) h
    generalize turn L sensitive limits request context deadline surface k (env k) o = r at hturn ⊢
    obtain ⟨(_ | verdict) | raised | _, o'⟩ := r
    · exact ih (k + 1) (hturn.completed rfl)
    · exact hturn.traced
    · exact hturn.traced
    · exact hturn.traced

/-! ### The run -/

theorem capture_traced (server : Server) :
    Program.Ends (fun o => Traced L limits o.client.nextId o) (capture L limits server)
      (fun _ o => Traced L limits o.client.nextId o) (fun _ o => Traced L limits o.client.nextId o)
      (fun o => Traced L limits o.client.nextId o) := by
  have hkeeps : ∀ {α : Type} {x : Program Orchestrator Raised α}, Keeps L limits x →
      Program.Ends (fun o => Traced L limits o.client.nextId o) x (fun _ o => Traced L limits o.client.nextId o)
        (fun _ o => Traced L limits o.client.nextId o) (fun o => Traced L limits o.client.nextId o) := by
    intro α x hx o ho
    have hafter := hx.goesOn ho
    generalize x o = r at hafter
    obtain ⟨a | raised | _, o'⟩ := r <;> exact hafter
  have hadd : ∀ {kind : ControlKind} {metadata : List (MetadataKey × Str)}, metadata.map Prod.fst = kind.schema →
      kind ∉ [ControlKind.authorized, .mcpRequest, .mcpResponse, .evidenceValidated] →
      Program.Ends (fun o => Traced L limits o.client.nextId o) (add L limits kind metadata)
        (fun _ o => Traced L limits o.client.nextId o) (fun _ o => Traced L limits o.client.nextId o)
        (fun o => Traced L limits o.client.nextId o) :=
    fun hschema hplain => hkeeps (keeps_add hroom hschema hplain)
  refine .bind (hadd rfl (by decide)) fun _ => .bind (hadd rfl (by decide)) fun _ => ?_
  refine .bind (Q := fun _ o => Traced L limits o.client.nextId o) ?_ fun surface => ?_
  · intro o ho
    have hends := initializeAndCapture_advances L limits o.client.nextId server o.client (Nat.le_refl _)
    have hgrown : ∀ c : Client, o.client.nextId ≤ c.nextId →
        Traced L limits (o.withClient c).client.nextId (o.withClient c) :=
      fun c hle => ⟨ho.1.mono (List.Subset.refl _) hle, ho.2⟩
    unfold onClient
    rw [Program.zoom_apply]
    generalize initializeAndCapture L limits server o.client = r at hends
    obtain ⟨surface | raised | _, c⟩ := r
    · exact hgrown c hends
    · exact hgrown c hends
    · exact hgrown c hends
  · refine .bind (hkeeps .get) fun o => .bind (hadd rfl (by decide)) fun _ => .bind (hadd rfl (by decide)) fun _ => ?_
    refine .bind (hadd rfl (by decide)) fun _ => .bind (hadd rfl (by decide)) fun _ => ?_
    exact .bind (hadd rfl (by decide)) fun _ => .pure fun _ => id

variable (sensitive) in
theorem body_traced (env : RunSurroundings) (request : ProviderRequest) (client : Client) :
    ∃ nextId, Traced L limits nextId (body L sensitive limits env request { client }).2 := by
  have hcapture := capture_traced hroom env.server { client } ⟨.create, rfl⟩
  unfold body
  rw [Program.bind_apply]
  generalize capture L limits env.server { client } = r at hcapture ⊢
  obtain ⟨surface | raised | _, o⟩ := r
  · exact turns_traced sensitive hroom request env.context (env.deadline limits) surface env.turns 0 _ hcapture
  · exact ⟨_, hcapture⟩
  · exact ⟨_, hcapture⟩

/-- A call of `add` whose texts are accepted. -/
theorem add_returns (kind : ControlKind) (metadata : List (MetadataKey × Str)) {nextId : Nat}
    (hschema : metadata.map Prod.fst = kind.schema)
    (hplain : kind ∉ [ControlKind.authorized, .mcpRequest, .mcpResponse, .evidenceValidated])
    (htexts : AreTexts metadata) (h : Traced L limits nextId o) :
    ∃ o', add L limits kind metadata o = (.returned (), o') ∧ Traced L limits nextId o' := by
  have hkept := (keeps_add hroom hschema hplain).traced h
  rcases add_eq hroom kind metadata o hschema h.1.reserved with ⟨t, heq, -, -, -⟩ | ⟨-, hrefused, -⟩
  · rw [heq] at hkept
    exact ⟨_, heq, hkept⟩
  · exact absurd htexts hrefused

theorem addAll_returns {kinds : List ControlKind} {nextId : Nat} (hkinds : ∀ kind ∈ kinds, kind.schema = [] ∧
    kind ∉ [ControlKind.authorized, .mcpRequest, .mcpResponse, .evidenceValidated]) (h : Traced L limits nextId o) :
    ∃ o', addAll L limits kinds o = (.returned (), o') ∧ Traced L limits nextId o' := by
  induction kinds generalizing o with
  | nil => exact ⟨o, rfl, h⟩
  | cons kind kinds ih =>
    obtain ⟨⟨hschema, hplain⟩, hrest⟩ := List.forall_mem_cons.1 hkinds
    obtain ⟨o', hadd, ho'⟩ := add_returns hroom kind [] hschema.symm hplain
      (fun p hp => absurd hp List.not_mem_nil) h
    obtain ⟨o'', hall, ho''⟩ := ih hrest ho'
    refine ⟨o'', ?_, ho''⟩
    rw [addAll, Program.bind_apply, hadd]
    exact hall

omit hroom in
/-- What `_outcome` returns belongs to the state that it leaves. -/
theorem outcome_eq {mode : CloseMode} {verdict : String} {result : OrchestrationOutcome} {o' : Orchestrator}
    (h : outcome L limits mode verdict o = (.returned result, o')) :
    result = ⟨verdict, o'.evidence, o'.order, o'.transcript.toJsonBytes L⟩ := by
  unfold outcome at h
  obtain ⟨_, _, -, h⟩ := Program.exists_of_bind h
  obtain ⟨_, _, -, h⟩ := Program.exists_of_bind h
  obtain ⟨_, o₁, -, h⟩ := Program.exists_of_bind h
  obtain ⟨_, o₂, hget, h⟩ := Program.exists_of_bind h
  cases hget
  obtain ⟨events, o₃, hparse, h⟩ := Program.exists_of_bind h
  generalize parseBoundedTranscript L (o₁.transcript.toJsonBytes L) limits = v at hparse
  cases v with
  | error raised => cases hparse
  | ok events =>
    cases hparse
    cases h
    rfl

/-- The transcript of a run is accepted by its reader. -/
theorem Traced.parse {nextId : Nat} (hlimits : Readable limits) (h : Traced L limits nextId o)
    (hloads : L.loads (o.transcript.toJsonBytes L) =
      .ok (transcriptValue o.transcript.events o.transcript.limited).reread) :
    parseBoundedTranscript L (o.transcript.toJsonBytes L) limits =
      .ok (o.transcript.events.map ControlEvent.reread) := by
  obtain ⟨r, hr⟩ := h.1.replays
  exact parse_written hlimits hroom h.1.reserved h.1.shaped hr hloads

/-- `_outcome` returns when its texts are accepted and the transcript can be read. -/
theorem outcome_returns (hlimits : Readable limits) {mode : CloseMode} {verdict : String} {nextId : Nat}
    (htexts : AreTexts [(.outcome, chars verdict)]) (h : Traced L limits nextId o)
    (hloads : L.loads ((outcome L limits mode verdict o).2.transcript.toJsonBytes L) =
      .ok (transcriptValue (outcome L limits mode verdict o).2.transcript.events
        (outcome L limits mode verdict o).2.transcript.limited).reread) :
    ∃ result o', outcome L limits mode verdict o = (.returned result, o') := by
  obtain ⟨o₁, hstart, ho₁⟩ := add_returns hroom .shutdownStart [] rfl (by decide)
    (fun p hp => absurd hp List.not_mem_nil) h
  obtain ⟨o₂, hshutdown, ho₂⟩ := addAll_returns hroom (shutdownEvents_plain mode) ho₁
  obtain ⟨o₃, hverdict, ho₃⟩ := add_returns hroom .outcome [(.outcome, chars verdict)] rfl (by decide) htexts ho₂
  have hall : outcome L limits mode verdict o =
      (Program.lift (parseBoundedTranscript L (o₃.transcript.toJsonBytes L) limits) >>= fun _ =>
        (pure ⟨verdict, o₃.evidence, o₃.order, o₃.transcript.toJsonBytes L⟩ :
          Program Orchestrator Raised OrchestrationOutcome)) o₃ := by
    unfold outcome
    rw [Program.bind_apply, hstart]
    dsimp only
    rw [Program.bind_apply, hshutdown]
    dsimp only
    rw [Program.bind_apply, hverdict]
    rfl
  have hstate : (outcome L limits mode verdict o).2 = o₃ := by
    rw [hall, Program.bind_apply]
    cases parseBoundedTranscript L (o₃.transcript.toJsonBytes L) limits <;> rfl
  rw [hstate] at hloads
  rw [hall, ho₃.parse hroom hlimits hloads]
  exact ⟨_, _, rfl⟩

omit hroom in
private theorem areTexts_failure (kind : FailureClass) : AreTexts [(.failure, chars kind.value)] := by
  have hall : ∀ kind ∈ FailureClass.all,
      chars kind.value ≠ [] ∧ isAscii (chars kind.value) = true ∧ (chars kind.value).length ≤ 64 := by decide +kernel
  have hmem : kind ∈ FailureClass.all := by
    cases kind <;> decide
  intro p hp
  rw [List.mem_singleton.1 hp]
  exact hall kind hmem

omit hroom in
private theorem areTexts_verdict {verdict : String} (h : verdict ∈ ["cancelled", "deadline", "failed"]) :
    AreTexts [(.outcome, chars verdict)] := by
  have hall : ∀ verdict ∈ ["cancelled", "deadline", "failed"],
      chars verdict ≠ [] ∧ isAscii (chars verdict) = true ∧ (chars verdict).length ≤ 64 := by decide +kernel
  intro p hp
  rw [List.mem_singleton.1 hp]
  exact hall verdict h

/-- The `except` of `run` returns an outcome if the transcript that it leaves can be read. -/
theorem recover_returns (hlimits : Readable limits) (env : RunSurroundings) (kind : FailureClass) {nextId : Nat}
    (h : Traced L limits nextId o)
    (hloads : L.loads ((recover L limits env (.provider kind) o).2.transcript.toJsonBytes L) =
      .ok (transcriptValue (recover L limits env (.provider kind) o).2.transcript.events
        (recover L limits env (.provider kind) o).2.transcript.limited).reread) :
    ∃ result o' o'' mode verdict, recover L limits env (.provider kind) o = (.returned result, o'') ∧
      outcome L limits mode verdict o' = (.returned result, o'') := by
  -- an event is added, then the outcome is made
  have hafter : ∀ (event : ControlKind) (metadata : List (MetadataKey × Str)) (verdict : String),
      metadata.map Prod.fst = event.schema →
      event ∉ [ControlKind.authorized, .mcpRequest, .mcpResponse, .evidenceValidated] → AreTexts metadata →
      verdict ∈ ["cancelled", "deadline", "failed"] →
      recover L limits env (.provider kind) =
        (add L limits event metadata >>= fun _ => outcome L limits env.lastShutdown verdict) →
      ∃ result o' o'' mode verdict, recover L limits env (.provider kind) o = (.returned result, o'') ∧
        outcome L limits mode verdict o' = (.returned result, o'') := by
    intro event metadata verdict hschema hplain htexts hverdict heq
    obtain ⟨o', hadd, ho'⟩ := add_returns hroom event metadata hschema hplain htexts h
    have hsame : recover L limits env (.provider kind) o = outcome L limits env.lastShutdown verdict o' := by
      rw [heq, Program.bind_apply, hadd]
    rw [hsame] at hloads ⊢
    obtain ⟨result, o'', hresult⟩ := outcome_returns hroom hlimits (areTexts_verdict hverdict) ho' hloads
    exact ⟨result, o', o'', env.lastShutdown, verdict, hresult, hresult⟩
  by_cases hcancelled : kind = .cancelled
  · refine hafter .cancelled [] "cancelled" rfl (by decide) (fun p hp => absurd hp List.not_mem_nil) (by decide) ?_
    unfold recover
    dsimp only
    rw [if_pos hcancelled]
  · by_cases hlate : (kind = .mcpTimeout || kind = .totalRequestTimeout) = true
    · refine hafter .deadline [] "deadline" rfl (by decide) (fun p hp => absurd hp List.not_mem_nil) (by decide) ?_
      unfold recover
      dsimp only
      rw [if_neg hcancelled, if_pos hlate]
    · refine hafter .failure [(.failure, chars kind.value)] "failed" rfl (by decide) (areTexts_failure kind) (by decide)
        ?_
      unfold recover
      dsimp only
      rw [if_neg hcancelled, if_neg hlate]

/-- The outcome belongs to the state that the run leaves: its transcript is accepted, and its evidence is recorded. -/
theorem Traced.recorded {nextId : Nat} (hlimits : Readable limits) (h : Traced L limits nextId o)
    (hloads : L.loads (o.transcript.toJsonBytes L) =
      .ok (transcriptValue o.transcript.events o.transcript.limited).reread) (verdict : String) :
    (⟨verdict, o.evidence, o.order, o.transcript.toJsonBytes L⟩ : OrchestrationOutcome).Recorded L limits where
  accepted := by
    refine ⟨_, h.parse hroom hlimits hloads, provenance_reread h.1.shaped h.1.replays, fun hordinary => ?_⟩
    have hopen : o.transcript.limited = false := by
      rw [← Bool.not_eq_true, ← h.1.reserved.limited_iff]
      rintro ⟨e, he, hkind⟩
      exact hordinary e.reread (List.mem_map_of_mem he) hkind
    rw [evidence_reread h.1.shaped, h.1.evidenced hopen]
  order := h.2

end

def answerLine : Bytes :=
  bytes "\x7b\"jsonrpc\":\"2.0\",\"id\":3,\"result\":\x7b\"content\":[\x7b\"type\":\"text\",\"text\":\"noted\"\x7d]\x7d\x7d"

/-- The events of the run below. -/
def noteEvents : List ControlEvent :=
  let call := [(chars "action", chars "5b6e6a26b64b92232d946ee434938da8"), (chars "response", chars "3")]
  [⟨.processStart, []⟩, ⟨.initializeRequest, []⟩, ⟨.initializeResponse, [(chars "response", chars "1")]⟩,
    ⟨.initializedNotification, []⟩, ⟨.toolsListRequest, []⟩, ⟨.toolsListResponse, [(chars "response", chars "2")]⟩,
    ⟨.surfaceCaptured,
      [(chars "surface", chars "5b6e6a26b64b92232d946ee434938da8af36cb95f1717ee6bdb77afbeaaea3ee")]⟩,
    ⟨.providerTurnStart, [(chars "turn", chars "0"), (chars "bytes", chars "223")]⟩,
    ⟨.providerTurnResponse, [(chars "turn", chars "0"), (chars "bytes", chars "85")]⟩,
    ⟨.authorized, [(chars "action", chars "5b6e6a26b64b92232d946ee434938da8"), (chars "proposal", chars "call-1")]⟩,
    ⟨.mcpRequest, call⟩, ⟨.mcpResponse, call⟩, ⟨.evidenceValidated, call⟩,
    ⟨.providerTurnStart, [(chars "turn", chars "1"), (chars "bytes", chars "223")]⟩,
    ⟨.providerTurnResponse, [(chars "turn", chars "1"), (chars "bytes", chars "52")]⟩,
    ⟨.shutdownStart, []⟩, ⟨.shutdownComplete, []⟩, ⟨.outcome, [(chars "outcome", chars "final")]⟩]

/-- The library on the texts of this run. -/
def runLibrary : Library where
  loads raw :=
    if raw == answerLine then .ok (sampleResponse 3 (.dict false [(chars "content", .list [.dict false
      [(chars "type", .str (chars "text")), (chars "text", .str (chars "noted"))]])]))
    else if raw == transcriptBytes noteLibrary noteEvents false then .ok (transcriptValue noteEvents false).reread
    else noteLibrary.loads raw
  floatRepr := noteLibrary.floatRepr
  sha256 := noteLibrary.sha256

def noteProposal : ProviderToolCallProposal where
  callId := ⟨chars "call-1"⟩
  name := chars "note"
  arguments := .dict true [(chars "text", .str (chars "a"))]
  canonicalArgumentBytes := bytes "\x7b\"text\":\"a\"\x7d"
  actionIdentity := noteActionId
  validName := rfl
  frozen := rfl

/-- The provider proposes one call and then ends the run; the child answers. -/
def noteRun : RunSurroundings where
  startedAt := 0
  server := noteServer
  turns k := ⟨false, 0, .ok (if k = 0 then .proposals [some noteProposal] else .final .assistant (chars "done")), 0,
    fun _ => ⟨false, 0, 7, ⟨none, .ok answerLine⟩⟩⟩
  shutdown := .none
  lastShutdown := .none
  context := chars "run"

def noteRequest : ProviderRequest where
  model := ⟨chars "model", by decide +kernel⟩
  messages := [⟨.user, chars "hello", by decide +kernel⟩]
  tools := []
  maxOutputTokens := 16
  correlationId := ⟨chars "req-1", by decide +kernel⟩
  generation := ⟨.none, .none, .none, by decide +kernel⟩
  valid := by decide +kernel

/-- The run returns with one piece of evidence and these events, whose text is told from the other texts. -/
def EndsAsNoted (e : Ending Raised OrchestrationOutcome × Orchestrator) : Prop :=
  e.1.isReturned = true ∧ e.2.transcript = ⟨noteEvents, false⟩ ∧ e.2.evidence.length = 1 ∧
    (e.2.transcript.toJsonBytes runLibrary == answerLine) = false ∧
    (e.2.transcript.toJsonBytes runLibrary == transcriptBytes noteLibrary noteEvents false) = true

/-- How the run ends, and the state that it leaves. -/
def noteEnding : { e : Ending Raised OrchestrationOutcome × Orchestrator // EndsAsNoted e } :=
  ⟨run runLibrary (fun s _ _ => s) defaultLimits noteRun noteRequest { client := { issuer := 0 } },
    by unfold EndsAsNoted; decide +kernel⟩

private theorem noteEnding_val : noteEnding.1 =
    run runLibrary (fun s _ _ => s) defaultLimits noteRun noteRequest { client := { issuer := 0 } } := by
  unfold noteEnding
  dsimp only

end Orchestrator

end NativeMcp.Agent
