import NativeMcp.Agent.ClientCalls
import NativeMcp.Agent.Orchestrator

/-!
# What a run executes

A run goes through batches of calls, one for each response whose proposals have all been prepared.  Between two calls
every call so far has been answered and registered (`Settled`); when the run has ended, the last call may be without a
validated result (`Halted`).  From these two follow the order of the calls, their number and that none is made twice.
-/

namespace NativeMcp.Agent

/-! ### Calls and batches -/

structure ToolCall where
  proposal : ProviderToolCallProposal
  action : LocalActionIdentity
  exchange : Exchange

/-- The request names the tool of the proposal and has its arguments. -/
def ToolCall.Carries (call : ToolCall) : Prop :=
  call.exchange.method = .toolsCall ∧
    call.exchange.params = callParams call.proposal.name (frozenOf call.proposal.arguments)

section

variable (L : Library) (sensitive : Str → List Str → Nat → Str) (limits : Limits)

/-- The evidence is the validated result of the call. -/
def ToolCall.Answered (surface : ToolSurface) (call : ToolCall) (e : Evidence) : Prop :=
  e.actionId = call.action ∧ e.responseId = call.exchange.id ∧
    ∃ response, readResponse L limits call.exchange = .ok response ∧
      validateToolResult sensitive limits response.result (surface.outputSchema? call.proposal.name) = .ok e.result

/-- A response all of whose proposals name a tool, conform to its schema and are new, and the calls that were made of
it while there was time. -/
structure Batch (context : Str) (deadline : Deadline) (surface : ToolSurface) (before : List ToolCall)
    (env : TurnSurroundings) (proposals : List ProviderToolCallProposal) (calls : List ToolCall) : Prop where
  response : env.response = .ok (.proposals (proposals.map some))
  timely : env.cancelled = false ∧ deadline.expired env.answeredAt = false
  count : proposals.length ≤ limits.proposedToolCallCount ∧ proposals.length ≤ limits.mcpCallsPerTurn
  admitted : ∀ p ∈ proposals, ∃ tool, surface.tool? p.name = some tool ∧
    Orchestrator.proposedArguments limits tool p = .ok (frozenOf p.arguments)
  fresh : ∃ actions, List.Forall₂ (fun p action => orchestratedAction L context surface p = .ok action) proposals
    actions ∧ actions.Nodup ∧ ∀ action ∈ actions, action ∉ before.map ToolCall.action
  freshIds : (proposals.map (·.callId)).Nodup ∧ ∀ p ∈ proposals, p.callId ∉ before.map (·.proposal.callId)
  ordered : calls.map ToolCall.proposal <+: proposals
  sent : ∀ call ∈ calls, call.Carries ∧ orchestratedAction L context surface call.proposal = .ok call.action
  readings : ∀ i < calls.length, (env.calls i).cancelled = false ∧ deadline.expired (env.calls i).now = false

/-- Every call has been answered. -/
structure Settled (earlier : List Exchange) (surface : ToolSurface) (calls : List ToolCall) (o : Orchestrator) :
    Prop where
  written : o.client.calls = earlier ++ calls.map ToolCall.exchange
  captured : o.client.surface = some surface
  answered : List.Forall₂ (ToolCall.Answered L sensitive limits surface) calls o.evidence
  order : o.order = o.evidence.map Evidence.actionId
  registered : ∀ call ∈ calls, call.action.value ∈ o.actions ∧ call.proposal.callId.text ∈ o.callIds.map Prod.fst
  distinct : (calls.map ToolCall.action).Nodup ∧ (calls.map (·.proposal.callId)).Nodup
  bound : calls.length ≤ limits.mcpTotalCalls

/-- Every call but the last has been answered. -/
structure Halted (earlier : List Exchange) (surface : ToolSurface) (calls : List ToolCall) (o : Orchestrator) :
    Prop where
  written : o.client.calls = earlier ++ calls.map ToolCall.exchange
  captured : o.client.surface = some surface
  answered : ∃ done last, calls = done ++ last ∧ last.length ≤ 1 ∧
    List.Forall₂ (ToolCall.Answered L sensitive limits surface) done o.evidence
  order : o.order = o.evidence.map Evidence.actionId
  distinct : (calls.map ToolCall.action).Nodup ∧ (calls.map (·.proposal.callId)).Nodup
  bound : calls.length ≤ limits.mcpTotalCalls

end

section

variable {L : Library} {sensitive : Str → List Str → Nat → Str} {limits : Limits} {earlier : List Exchange}
  {surface : ToolSurface} {calls : List ToolCall} {o o' : Orchestrator}

theorem Settled.halted (h : Settled L sensitive limits earlier surface calls o) :
    Halted L sensitive limits earlier surface calls o :=
  ⟨h.written, h.captured, ⟨calls, [], by simp, by simp, h.answered⟩, h.order, h.distinct, h.bound⟩

/-- What does not write, conclude or forget a call leaves all calls answered. -/
theorem Settled.congr (h : Settled L sensitive limits earlier surface calls o)
    (hcalls : o'.client.calls = o.client.calls) (hsurface : o'.client.surface = o.client.surface)
    (hevidence : o'.evidence = o.evidence) (horder : o'.order = o.order) (hactions : o.actions ⊆ o'.actions)
    (hids : o.callIds ⊆ o'.callIds) : Settled L sensitive limits earlier surface calls o' where
  written := hcalls.trans h.written
  captured := hsurface.trans h.captured
  answered := by
    rw [hevidence]
    exact h.answered
  order := by rw [horder, hevidence, h.order]
  registered := by
    intro call hcall
    obtain ⟨haction, hid⟩ := h.registered call hcall
    exact ⟨hactions haction, List.map_subset _ hids hid⟩
  distinct := h.distinct
  bound := h.bound

theorem Halted.withTranscript (h : Halted L sensitive limits earlier surface calls o) (t : BoundedTranscript) :
    Halted L sensitive limits earlier surface calls (o.withTranscript t) :=
  ⟨h.written, h.captured, h.answered, h.order, h.distinct, h.bound⟩

theorem Settled.withTranscript (h : Settled L sensitive limits earlier surface calls o) (t : BoundedTranscript) :
    Settled L sensitive limits earlier surface calls (o.withTranscript t) :=
  h.congr rfl rfl rfl rfl (List.Subset.refl _) (List.Subset.refl _)

theorem Settled.distinct_concat (h : Settled L sensitive limits earlier surface calls o) {call : ToolCall}
    (hfresh : call.action ∉ calls.map ToolCall.action ∧ call.proposal.callId ∉ calls.map (·.proposal.callId)) :
    ((calls ++ [call]).map ToolCall.action).Nodup ∧ ((calls ++ [call]).map (·.proposal.callId)).Nodup := by
  rw [List.map_append, List.map_append, List.map_singleton, List.map_singleton, ← List.concat_eq_append,
    ← List.concat_eq_append]
  exact ⟨h.distinct.1.concat hfresh.1, h.distinct.2.concat hfresh.2⟩

/-- A call that has been written and not answered is the last one. -/
theorem Settled.write (h : Settled L sensitive limits earlier surface calls o) {call : ToolCall}
    (hcalls : o'.client.calls = o.client.calls ++ [call.exchange]) (hsurface : o'.client.surface = o.client.surface)
    (hevidence : o'.evidence = o.evidence) (horder : o'.order = o.order)
    (hfresh : call.action ∉ calls.map ToolCall.action ∧ call.proposal.callId ∉ calls.map (·.proposal.callId))
    (hroom : calls.length < limits.mcpTotalCalls) :
    Halted L sensitive limits earlier surface (calls ++ [call]) o' where
  written := by rw [hcalls, h.written, List.map_append, List.append_assoc]; rfl
  captured := hsurface.trans h.captured
  answered := by
    refine ⟨calls, [call], rfl, le_refl 1, ?_⟩
    rw [hevidence]
    exact h.answered
  order := by rw [horder, hevidence, h.order]
  distinct := h.distinct_concat hfresh
  bound := by
    rw [List.length_append, List.length_singleton]
    omega

/-- A call that has been written and answered is settled. -/
theorem Settled.answer (h : Settled L sensitive limits earlier surface calls o) {call : ToolCall} {e : Evidence}
    (hcalls : o'.client.calls = o.client.calls ++ [call.exchange]) (hsurface : o'.client.surface = o.client.surface)
    (hevidence : o'.evidence = o.evidence ++ [e]) (horder : o'.order = o.order ++ [e.actionId])
    (he : call.Answered L sensitive limits surface e)
    (hactions : o'.actions = o.actions) (hids : o'.callIds = o.callIds)
    (hregistered : call.action.value ∈ o.actions ∧ call.proposal.callId.text ∈ o.callIds.map Prod.fst)
    (hfresh : call.action ∉ calls.map ToolCall.action ∧ call.proposal.callId ∉ calls.map (·.proposal.callId))
    (hroom : calls.length < limits.mcpTotalCalls) :
    Settled L sensitive limits earlier surface (calls ++ [call]) o' where
  written := by rw [hcalls, h.written, List.map_append, List.append_assoc]; rfl
  captured := hsurface.trans h.captured
  answered := by
    rw [hevidence]
    exact List.rel_append h.answered (.cons he .nil)
  order := by rw [horder, hevidence, h.order, List.map_append, List.map_singleton]
  registered := by
    intro c hc
    rw [hactions, hids]
    rcases List.mem_append.1 hc with hold | hnew
    · exact h.registered c hold
    · rw [List.mem_singleton.1 hnew]
      exact hregistered
  distinct := h.distinct_concat hfresh
  bound := by
    rw [List.length_append, List.length_singleton]
    omega

end

/-! ### Programs that only write the transcript -/

namespace Orchestrator

/-- The program changes nothing but the transcript. -/
def Notes {α : Type} (x : Program Orchestrator Raised α) : Prop := ∀ o, ∃ t, (x o).2 = o.withTranscript t

section

variable {L : Library} {limits : Limits} {α β : Type}

theorem Notes.pure (a : α) : Notes (pure a : Program Orchestrator Raised α) := fun o => ⟨o.transcript, rfl⟩

theorem Notes.raise (raised : Raised) : Notes (Program.raise raised : Program Orchestrator Raised α) :=
  fun o => ⟨o.transcript, rfl⟩

theorem Notes.get : Notes (Program.get : Program Orchestrator Raised Orchestrator) := fun o => ⟨o.transcript, rfl⟩

theorem Notes.lift (v : Except Raised α) : Notes (Program.lift v : Program Orchestrator Raised α) := by
  cases v with
  | ok a => exact .pure a
  | error raised => exact .raise raised

theorem Notes.bind {x : Program Orchestrator Raised α} {f : α → Program Orchestrator Raised β} (hx : Notes x)
    (hf : ∀ a, Notes (f a)) : Notes (x >>= f) := by
  intro o
  obtain ⟨t, ht⟩ := hx o
  rw [Program.bind_apply]
  generalize x o = r at ht
  obtain ⟨a | raised | _, o'⟩ := r
  · obtain ⟨t', ht'⟩ := hf a o'
    have hsame : o' = o.withTranscript t := ht
    exact ⟨t', by rw [ht', hsame]; rfl⟩
  · exact ⟨t, ht⟩
  · exact ⟨t, ht⟩

theorem notes_add (kind : ControlKind) (metadata : List (MetadataKey × Str)) : Notes (add L limits kind metadata) := by
  intro o
  unfold add
  generalize o.transcript.add L limits _ _ = r
  obtain ⟨t, u | raised⟩ := r
  · exact ⟨t, rfl⟩
  · exact ⟨t, rfl⟩

theorem notes_skip (ps : List ProviderToolCallProposal) : Notes (skip L limits ps) := by
  induction ps with
  | nil => exact .pure ()
  | cons p ps ih => exact .bind (notes_add _ _) fun _ => ih

theorem notes_addAll (kinds : List ControlKind) : Notes (addAll L limits kinds) := by
  induction kinds with
  | nil => exact .pure ()
  | cons kind kinds ih => exact .bind (notes_add _ _) fun _ => ih

theorem notes_outcome (mode : CloseMode) (verdict : String) : Notes (outcome L limits mode verdict) := by
  refine .bind (notes_add _ _) fun _ => .bind (notes_addAll _) fun _ => .bind (notes_add _ _) fun _ => ?_
  exact .bind .get fun o => .bind (.lift _) fun _ => .pure _

theorem notes_recover (env : RunSurroundings) (raised : Raised) : Notes (recover L limits env raised) := by
  unfold recover
  split
  · exact .raise _
  · split
    · exact .bind (notes_add _ _) fun _ => notes_outcome _ _
    · split
      · exact .bind (notes_add _ _) fun _ => notes_outcome _ _
      · exact .bind (notes_add _ _) fun _ => notes_outcome _ _

theorem notes_ask (request : ProviderRequest) (deadline : Deadline) (surface : ToolSurface) (k : Nat)
    (env : TurnSurroundings) : Notes (ask L limits request deadline surface k env) :=
  .bind (.lift _) fun _ => .bind (.lift _) fun _ => .bind (.lift _) fun _ => .bind (notes_add _ _) fun _ => .lift _

end

section

variable {L : Library} {sensitive : Str → List Str → Nat → Str} {limits : Limits} {earlier : List Exchange}
  {surface : ToolSurface} {calls : List ToolCall} {o o' : Orchestrator}

/-! ### One call -/

/-- What becomes of one call: none or one has been written, and one has been answered if the program returns. -/
def Makes (L : Library) (sensitive : Str → List Str → Nat → Str) (limits : Limits) (earlier : List Exchange)
    (surface : ToolSurface) (calls : List ToolCall) (q : Prepared) {α : Type} (done : α → Prop)
    (r : Ending Raised α × Orchestrator) : Prop :=
  ∃ more : List ToolCall, more.length ≤ 1 ∧
    (∀ call ∈ more, call.proposal = q.proposal ∧ call.action = q.action ∧ call.Carries) ∧
    Halted L sensitive limits earlier surface (calls ++ more) r.2 ∧
    ∀ a, r.1 = .returned a → done a →
      more.length = 1 ∧ Settled L sensitive limits earlier surface (calls ++ more) r.2

/-- The program has failed before it has written the call. -/
theorem Makes.unwritten {q : Prepared} {α : Type} {done : α → Prop} {r : Ending Raised α × Orchestrator}
    (h : Halted L sensitive limits earlier surface calls r.2) (hfailed : ∀ a, r.1 = .returned a → ¬ done a) :
    Makes L sensitive limits earlier surface calls q done r := by
  refine ⟨[], Nat.zero_le 1, fun _ hcall => absurd hcall List.not_mem_nil, ?_, fun a ha hdone => absurd hdone (hfailed a ha)⟩
  rw [List.append_nil]
  exact h

variable (L limits) in
/-- What `add` leaves behind, and whether it went on. -/
theorem add_cases (kind : ControlKind) (metadata : List (MetadataKey × Str)) (o : Orchestrator) :
    ∃ t, add L limits kind metadata o = (.returned (), o.withTranscript t) ∨
      ∃ raised, add L limits kind metadata o = (.raised raised, o.withTranscript t) := by
  unfold add
  generalize o.transcript.add L limits _ _ = r
  obtain ⟨t, raised | u⟩ := r
  · exact ⟨t, .inr ⟨raised, rfl⟩⟩
  · exact ⟨t, .inl rfl⟩

variable (L limits) in
/-- What follows the result of a call only writes the transcript. -/
theorem notes_answered (action : LocalActionIdentity) (id : Nat) :
    Notes (do
      add L limits .mcpResponse [(.action, action.value), (.response, decimalText id)]
      add L limits .evidenceValidated [(.action, action.value), (.response, decimalText id)]) :=
  .bind (notes_add _ _) fun _ => notes_add _ _

/-- The `try` around a call that has been registered. -/
theorem attemptCall_makes (h : Settled L sensitive limits earlier surface calls o) (env : CallSurroundings)
    {q : Prepared} {a : Action} (hname : a.name = q.proposal.name)
    (harguments : frozenOf a.arguments = frozenOf q.proposal.arguments)
    (hregistered : q.action.value ∈ o.actions ∧ q.proposal.callId.text ∈ o.callIds.map Prod.fst)
    (hfresh : q.action ∉ calls.map ToolCall.action ∧ q.proposal.callId ∉ calls.map (·.proposal.callId))
    (hroom : calls.length < limits.mcpTotalCalls) :
    Makes L sensitive limits earlier surface calls q (fun _ => True) (attemptCall L sensitive limits env q a o) := by
  unfold attemptCall
  rw [Program.bind_apply, Program.get_apply]
  dsimp only
  rw [Program.bind_apply]
  obtain ⟨t, hadd | ⟨raised, hadd⟩⟩ := add_cases L limits .mcpRequest
    [(.action, q.action.value), (.response, decimalText o.client.nextId)] o
  · rw [hadd]
    dsimp only
    have hsettled := h.withTranscript t
    have hc : (o.withTranscript t).client = o.client := rfl
    rw [Program.bind_apply]
    unfold onClient
    rw [Program.zoom_apply, hc]
    rcases execute_effect L sensitive limits env.turn env.object a o.client with
      ⟨raised, c, hexecute, hsame⟩ | ⟨x, hx⟩
    · rw [hexecute]
      have hcalls : c.calls = o.client.calls ∧ c.surface = o.client.surface := by
        rcases hsame with rfl | rfl
        · exact ⟨rfl, rfl⟩
        · exact ⟨rfl, rfl⟩
      refine .unwritten ?_ fun a ha => by cases ha
      have hafter : Settled L sensitive limits earlier surface calls ((o.withTranscript t).withClient c) :=
        hsettled.congr hcalls.1 hcalls.2 rfl rfl (List.Subset.refl _) (List.Subset.refl _)
      exact hafter.halted
    · let call : ToolCall := ⟨q.proposal, q.action, x⟩
      have hafter := hx.after
      have hcarries : call.Carries := ⟨hx.method, by rw [hx.params, hname, harguments]⟩
      have hwritten : (o.client.takeId.record (.sent x)).calls = o.client.calls ++ [x] := calls_sent hx.method
      have hone : ∀ c ∈ [call], c.proposal = q.proposal ∧ c.action = q.action ∧ c.Carries := by
        intro c hc
        rw [List.mem_singleton.1 hc]
        exact ⟨rfl, rfl, hcarries⟩
      have hhalted : ∀ t', Halted L sensitive limits earlier surface (calls ++ [call])
          ((o.withTranscript t').withClient (o.client.takeId.record (.sent x))) := fun t' =>
        h.write hwritten rfl rfl rfl hfresh hroom
      generalize execute L sensitive limits env.turn env.object (some a) o.client = r at hx hafter
      obtain ⟨response | raised | _, c⟩ := r
      · obtain ⟨hid, surface', raw, hsurface, hread, hresult⟩ := hx.result response rfl
        have hsame : surface = surface' := Option.some.inj (h.captured.symm.trans hsurface)
        have hanswered : call.Answered L sensitive limits surface ⟨q.action, response.requestId, response.result⟩ := by
          refine ⟨rfl, hid, raw, hread, ?_⟩
          rw [hsame, ← hname]
          exact hresult
        dsimp only
        rw [Program.bind_apply, Program.modify_apply]
        dsimp only
        obtain ⟨t', ht'⟩ := notes_answered L limits q.action response.requestId
          (((o.withTranscript t).withClient c).conclude ⟨q.action, response.requestId, response.result⟩)
        have hsettled' : Settled L sensitive limits earlier surface (calls ++ [call])
            ((((o.withTranscript t).withClient c).conclude
              ⟨q.action, response.requestId, response.result⟩).withTranscript t') := by
          refine h.answer ?_ ?_ rfl rfl hanswered rfl rfl hregistered hfresh hroom
          · exact (congrArg Client.calls hafter).trans hwritten
          · have hc : c = o.client.takeId.record (.sent x) := hafter
            rw [hc]
            rfl
        refine ⟨[call], le_refl 1, hone, ?_, fun _ _ _ => ⟨rfl, ?_⟩⟩
        · rw [ht']
          exact hsettled'.halted
        · rw [ht']
          exact hsettled'
      · rw [show c = _ from hafter]
        exact ⟨[call], le_refl 1, hone, hhalted t, fun a ha => by cases ha⟩
      · rw [show c = _ from hafter]
        exact ⟨[call], le_refl 1, hone, hhalted t, fun a ha => by cases ha⟩
  · rw [hadd]
    exact .unwritten (h.halted.withTranscript t) fun a ha => by cases ha

/-- A call: whatever becomes of it, it is written only after it has been registered. -/
theorem performCall_makes (h : Settled L sensitive limits earlier surface calls o) (env : CallSurroundings)
    {q : Prepared} (harguments : q.arguments = frozenOf q.proposal.arguments)
    (hfresh : q.action ∉ calls.map ToolCall.action ∧ q.proposal.callId ∉ calls.map (·.proposal.callId))
    (hroom : calls.length < limits.mcpTotalCalls) :
    Makes L sensitive limits earlier surface calls q (· = .ok ()) (performCall L sensitive limits env q o) := by
  unfold performCall
  rw [Program.bind_apply]
  unfold onClient
  rw [Program.zoom_apply]
  rcases authorize_cases L limits env.object (some q.action) q.proposal.callId.text q.proposal.name
    q.arguments o.client with ⟨raised, hauthorize⟩ | ⟨a, hname, ha, hauthorize⟩
  · rw [hauthorize]
    exact .unwritten h.halted fun a ha => by cases ha
  · rw [hauthorize]
    dsimp only
    rw [Program.bind_apply, Program.modify_apply]
    dsimp only
    rw [Program.bind_apply]
    -- the state in which the call has been registered
    generalize ho' : (o.withClient (o.client.grant env.object a)).register q.proposal.callId.text q.content q.action = o'
    have hsettled : Settled L sensitive limits earlier surface calls o' := by
      rw [← ho']
      exact h.congr (calls_grant _ _) rfl rfl rfl (List.subset_cons_self _ _) (List.subset_cons_self _ _)
    have hregistered : q.action.value ∈ o'.actions ∧ q.proposal.callId.text ∈ o'.callIds.map Prod.fst := by
      rw [← ho']
      exact ⟨List.mem_cons_self, List.mem_cons_self⟩
    obtain ⟨t, hadd | ⟨raised, hadd⟩⟩ := add_cases L limits .authorized
      [(.action, q.action.value), (.proposal, q.proposal.callId.text)] o'
    · rw [hadd]
      dsimp only
      have hargs : frozenOf a.arguments = frozenOf q.proposal.arguments := by
        rw [ha, harguments, frozenOf_of_isFrozen (isFrozen_frozenOf _), frozenOf_of_isFrozen (isFrozen_frozenOf _)]
      have hmakes := attemptCall_makes (hsettled.withTranscript t) env (a := ⟨a, some o.client.issuer⟩) hname hargs
        hregistered hfresh hroom
      unfold Program.attempt Program.handle
      rw [Program.bind_apply]
      generalize attemptCall L sensitive limits env q ⟨a, some o.client.issuer⟩ (o'.withTranscript t) = r at hmakes ⊢
      obtain ⟨more, hlength, hmore, hhalted, hreturned⟩ := hmakes
      obtain ⟨u | raised | _, o''⟩ := r
      · exact ⟨more, hlength, hmore, hhalted, fun _ _ _ => hreturned u rfl trivial⟩
      · exact ⟨more, hlength, hmore, hhalted, fun b hb hok => by cases hb; cases hok⟩
      · exact ⟨more, hlength, hmore, hhalted, fun b hb _ => by cases hb⟩
    · rw [hadd]
      exact .unwritten (hsettled.halted.withTranscript t) fun a ha => by cases ha

/-! ### One response -/

/-- The prepared proposals are new: they are apart from each other and from the calls so far. -/
structure New (calls : List ToolCall) (qs : List Prepared) : Prop where
  actions : (qs.map Prepared.action).Nodup ∧ ∀ q ∈ qs, q.action ∉ calls.map ToolCall.action
  ids : (qs.map (·.proposal.callId)).Nodup ∧ ∀ q ∈ qs, q.proposal.callId ∉ calls.map (·.proposal.callId)
  arguments : ∀ q ∈ qs, q.arguments = frozenOf q.proposal.arguments

/-- Once the first of them has been called, the others are still new. -/
theorem New.tail {q : Prepared} {qs : List Prepared} (h : New calls (q :: qs)) {call : ToolCall}
    (hproposal : call.proposal = q.proposal) (haction : call.action = q.action) : New (calls ++ [call]) qs where
  actions := by
    obtain ⟨hnodup, hnew⟩ := h.actions
    rw [List.map_cons, List.nodup_cons] at hnodup
    refine ⟨hnodup.2, fun q' hq' hmem => ?_⟩
    rw [List.map_append, List.mem_append] at hmem
    rcases hmem with hold | hlast
    · exact hnew q' (List.mem_cons_of_mem _ hq') hold
    · have hsame : q'.action = q.action := (List.mem_singleton.1 hlast).trans haction
      exact hnodup.1 (hsame ▸ List.mem_map_of_mem hq')
  ids := by
    obtain ⟨hnodup, hnew⟩ := h.ids
    rw [List.map_cons, List.nodup_cons] at hnodup
    refine ⟨hnodup.2, fun q' hq' hmem => ?_⟩
    rw [List.map_append, List.mem_append] at hmem
    rcases hmem with hold | hlast
    · exact hnew q' (List.mem_cons_of_mem _ hq') hold
    · have hcall : q'.proposal.callId = call.proposal.callId := List.mem_singleton.1 hlast
      have hsame : q'.proposal.callId = q.proposal.callId := by rw [hcall, hproposal]
      exact hnodup.1 (hsame ▸ List.mem_map_of_mem hq')
  arguments := fun q' hq' => h.arguments q' (List.mem_cons_of_mem _ hq')

/-- The calls that the loop makes of the prepared proposals, in their order and while there is time. -/
structure Executes (L : Library) (sensitive : Str → List Str → Nat → Str) (limits : Limits) (earlier : List Exchange)
    (surface : ToolSurface) (deadline : Deadline) (calls : List ToolCall) (env : Nat → CallSurroundings) (k : Nat)
    (qs : List Prepared) (more : List ToolCall) (r : Ending Raised (Option String) × Orchestrator) : Prop where
  made : List.Forall₂ (fun call q => call.proposal = q.proposal ∧ call.action = q.action ∧ call.Carries) more
    (qs.take more.length)
  readings : ∀ i < more.length, (env (k + i)).cancelled = false ∧ deadline.expired (env (k + i)).now = false
  halted : Halted L sensitive limits earlier surface (calls ++ more) r.2
  completed : r.1 = .returned none →
    more.length = qs.length ∧ Settled L sensitive limits earlier surface (calls ++ more) r.2

/-- The loop ends without another call. -/
theorem Executes.ends {deadline : Deadline} {env : Nat → CallSurroundings} {k : Nat} {qs : List Prepared}
    {r : Ending Raised (Option String) × Orchestrator} (h : Halted L sensitive limits earlier surface calls r.2)
    (hends : r.1 ≠ .returned none) : Executes L sensitive limits earlier surface deadline calls env k qs [] r where
  made := .nil
  readings := fun i hi => absurd hi (Nat.not_lt_zero i)
  halted := by
    rw [List.append_nil]
    exact h
  completed := fun h => absurd h hends

/-- The run does not go on after the program. -/
def Stops (x : Program Orchestrator Raised (Option String)) : Prop := ∀ o, (x o).1 ≠ .returned none

theorem Stops.verdict (verdict : String) : Stops (pure (some verdict)) := by
  intro o h
  cases h

theorem Stops.raise (raised : Raised) : Stops (Program.raise raised) := by
  intro o h
  cases h

theorem Stops.bind {α : Type} {x : Program Orchestrator Raised α} {f : α → Program Orchestrator Raised (Option String)}
    (hf : ∀ a, Stops (f a)) : Stops (x >>= f) := by
  intro o h
  rw [Program.bind_apply] at h
  generalize x o = r at h
  obtain ⟨a | raised | _, o'⟩ := r
  · exact hf a o' h
  · cases h
  · cases h

/-- The run stops here, with the calls that have been made. -/
theorem halted_of_notes {x : Program Orchestrator Raised (Option String)} (hx : Notes x)
    (h : Halted L sensitive limits earlier surface calls o) :
    Halted L sensitive limits earlier surface calls (x o).2 := by
  obtain ⟨t, ht⟩ := hx o
  rw [ht]
  exact h.withTranscript t

theorem Executes.of_notes {deadline : Deadline} {env : Nat → CallSurroundings} {k : Nat} {qs : List Prepared}
    {x : Program Orchestrator Raised (Option String)} (hx : Notes x) (hstops : Stops x)
    (h : Halted L sensitive limits earlier surface calls o) :
    Executes L sensitive limits earlier surface deadline calls env k qs [] (x o) := .ends (halted_of_notes hx h) (hstops o)

theorem made_of_makes {q : Prepared} (qs : List Prepared) {more : List ToolCall} (hlength : more.length ≤ 1)
    (hmore : ∀ call ∈ more, call.proposal = q.proposal ∧ call.action = q.action ∧ call.Carries) :
    List.Forall₂ (fun call q => call.proposal = q.proposal ∧ call.action = q.action ∧ call.Carries) more
      ((q :: qs).take more.length) := by
  rcases more with _ | ⟨call, _ | ⟨_, _⟩⟩
  · exact .nil
  · exact .cons (hmore call List.mem_cons_self) .nil
  · simp only [List.length_cons] at hlength
    omega

theorem executeAll_executes (deadline : Deadline) (env : Nat → CallSurroundings) (k : Nat) (qs : List Prepared)
    (h : Settled L sensitive limits earlier surface calls o) (hnew : New calls qs) :
    ∃ more, Executes L sensitive limits earlier surface deadline calls env k qs more
      (executeAll L sensitive limits deadline env k qs o) := by
  induction qs generalizing k calls o with
  | nil =>
    refine ⟨[], .nil, fun i hi => absurd hi (Nat.not_lt_zero i), ?_, fun _ => ⟨rfl, ?_⟩⟩
    · rw [List.append_nil]
      exact h.halted
    · rw [List.append_nil]
      exact h
  | cons q qs ih =>
    rw [executeAll, Program.bind_apply, Program.get_apply]
    dsimp only
    by_cases hcancelled : (env k).cancelled = true
    · rw [if_pos hcancelled]
      exact ⟨[], .of_notes (.bind (notes_add _ _) fun _ => .bind (notes_add _ _) fun _ => .pure _)
        (.bind fun _ => .bind fun _ => .verdict _) h.halted⟩
    rw [if_neg hcancelled]
    by_cases hlate : (limits.mcpTotalCalls ≤ o.order.length || deadline.expired (env k).now) = true
    · rw [if_pos hlate]
      exact ⟨[], .of_notes (.bind (notes_add _ _) fun _ => .bind (notes_add _ _) fun _ => .pure _)
        (.bind fun _ => .bind fun _ => .verdict _) h.halted⟩
    rw [if_neg hlate, Program.bind_apply]
    -- there is room and time for the call
    rw [Bool.or_eq_true, decide_eq_true_eq, not_or] at hlate
    obtain ⟨hcount, hexpired⟩ := hlate
    have horder : o.order.length = calls.length := by
      rw [h.order, List.length_map]
      exact h.answered.length_eq.symm
    have hroom : calls.length < limits.mcpTotalCalls := by omega
    have hfresh := And.intro (hnew.actions.2 q List.mem_cons_self) (hnew.ids.2 q List.mem_cons_self)
    have hreading : (env k).cancelled = false ∧ deadline.expired (env k).now = false :=
      ⟨Bool.eq_false_iff.2 hcancelled, Bool.eq_false_iff.2 hexpired⟩
    have hmakes := performCall_makes h (env k) (hnew.arguments q List.mem_cons_self) hfresh hroom
    generalize performCall L sensitive limits (env k) q o = r at hmakes ⊢
    obtain ⟨more, hlength, hmore, hhalted, hreturned⟩ := hmakes
    have hmade := made_of_makes qs hlength hmore
    have hreadings : ∀ i < more.length, (env (k + i)).cancelled = false ∧ deadline.expired (env (k + i)).now = false := by
      intro i hi
      have hzero : i = 0 := by omega
      rw [hzero]
      exact hreading
    have hfailed : ∀ {r' : Ending Raised (Option String) × Orchestrator},
        Halted L sensitive limits earlier surface (calls ++ more) r'.2 → r'.1 ≠ .returned none →
        Executes L sensitive limits earlier surface deadline calls env k (q :: qs) more r' :=
      fun hafter hstops => ⟨hmade, hreadings, hafter, fun hnone => absurd hnone hstops⟩
    obtain ⟨result | raised | _, o'⟩ := r
    · dsimp only
      rcases result with (kind | _) | u
      · have hnotes : Notes (add L limits .failure [(.failure, chars kind.value)] >>= fun _ =>
            skip L limits (qs.map (·.proposal)) >>= fun _ =>
              pure (some (if kind = .cancelled then "cancelled" else "failed"))) :=
          .bind (notes_add _ _) fun _ => .bind (notes_skip _) fun _ => .pure _
        exact ⟨more, hfailed (halted_of_notes hnotes hhalted) ((Stops.bind fun _ => .bind fun _ => .verdict _) o')⟩
      · exact ⟨more, hfailed hhalted (Stops.raise _ o')⟩
      · obtain ⟨hone, hsettled⟩ := hreturned _ rfl rfl
        obtain ⟨call, rfl⟩ := List.length_eq_one_iff.1 hone
        obtain ⟨hproposal, haction, hcarries⟩ := hmore call (List.mem_singleton_self call)
        obtain ⟨rest, hrest⟩ := ih (k + 1) hsettled (hnew.tail hproposal haction)
        have hsame : calls ++ [call] ++ rest = calls ++ call :: rest := by rw [List.append_assoc, List.singleton_append]
        have hafter := hrest.halted
        have hcompleted := hrest.completed
        rw [hsame] at hafter hcompleted
        refine ⟨call :: rest, .cons ⟨hproposal, haction, hcarries⟩ hrest.made, ?_, hafter, ?_⟩
        · intro i hi
          rcases i with _ | i
          · exact hreading
          · have hlater := hrest.readings i (by simpa using hi)
            rwa [Nat.add_assoc, Nat.add_comm 1 i] at hlater
        · intro hnone
          obtain ⟨hall, hsettled'⟩ := hcompleted hnone
          exact ⟨by rw [List.length_cons, List.length_cons, hall], hsettled'⟩
    · exact ⟨more, hfailed hhalted (by simp)⟩
    · exact ⟨more, hfailed hhalted (by simp)⟩

/-! ### The preparation -/

/-- What has been checked of a prepared proposal. -/
structure Checked (L : Library) (limits : Limits) (context : Str) (surface : ToolSurface) (o : Orchestrator)
    (q : Prepared) : Prop where
  action : orchestratedAction L context surface q.proposal = .ok q.action
  admitted : ∃ tool, surface.tool? q.proposal.name = some tool ∧
    proposedArguments limits tool q.proposal = .ok q.arguments
  unregistered : q.action.value ∉ o.actions ∧ q.proposal.callId.text ∉ o.callIds.map Prod.fst

/-- The proposals `new` have been prepared after those in `prepared`, and all of them are different. -/
structure Prepares (L : Library) (limits : Limits) (context : Str) (surface : ToolSurface) (o : Orchestrator)
    (prepared : List Prepared) (items : List (Option ProviderToolCallProposal)) (new : List Prepared) : Prop where
  items : items = new.map fun q => some q.proposal
  checked : ∀ q ∈ new, Checked L limits context surface o q
  actions : ((prepared ++ new).map Prepared.action).Nodup
  ids : ((prepared ++ new).map (·.proposal.callId)).Nodup

theorem not_repeats {prepared : List Prepared} {p : ProviderToolCallProposal} {action : LocalActionIdentity}
    (h : ¬ o.repeats prepared p action = true) :
    (action.value ∉ o.actions ∧ p.callId.text ∉ o.callIds.map Prod.fst) ∧
      action ∉ prepared.map Prepared.action ∧ p.callId ∉ prepared.map (·.proposal.callId) := by
  unfold repeats at h
  rw [Bool.or_eq_true, Bool.or_eq_true, not_or, not_or, List.any_eq_true, List.any_eq_true] at h
  obtain ⟨⟨hids, hactions⟩, hprepared⟩ := h
  refine ⟨⟨fun hmem => hactions (List.contains_iff_mem.2 hmem), fun hmem => ?_⟩, fun hmem => ?_, fun hmem => ?_⟩
  · obtain ⟨q, hq, hid⟩ := List.mem_map.1 hmem
    exact hids ⟨q, hq, beq_iff_eq.2 hid⟩
  · obtain ⟨q, hq, haction⟩ := List.mem_map.1 hmem
    exact hprepared ⟨q, hq, by rw [haction]; simp⟩
  · obtain ⟨q, hq, hid⟩ := List.mem_map.1 hmem
    exact hprepared ⟨q, hq, by rw [hid]; simp⟩

/-- The program prepares nothing. -/
def Refuses (x : Program Orchestrator Raised (Except String (List Prepared))) : Prop :=
  ∀ o qs, (x o).1 ≠ .returned (.ok qs)

theorem Refuses.verdict (verdict : String) : Refuses (pure (.error verdict)) := by
  intro o qs h
  cases h

theorem Refuses.raise (raised : Raised) : Refuses (Program.raise raised) := by
  intro o qs h
  cases h

theorem Refuses.bind {α : Type} {x : Program Orchestrator Raised α}
    {f : α → Program Orchestrator Raised (Except String (List Prepared))} (hf : ∀ a, Refuses (f a)) :
    Refuses (x >>= f) := by
  intro o qs h
  rw [Program.bind_apply] at h
  generalize x o = r at h
  obtain ⟨a | raised | _, o'⟩ := r
  · exact hf a o' qs h
  · cases h
  · cases h

theorem prepare_prepares (context : Str) (prepared : List Prepared) (items : List (Option ProviderToolCallProposal))
    (hactions : (prepared.map Prepared.action).Nodup) (hids : (prepared.map (·.proposal.callId)).Nodup) :
    (∃ t, (prepare L limits context surface prepared items o).2 = o.withTranscript t) ∧
      ∀ qs, (prepare L limits context surface prepared items o).1 = .returned (.ok qs) →
        ∃ new, qs = prepared ++ new ∧ Prepares L limits context surface o prepared items new := by
  -- a program that only writes the transcript and then gives up
  have hgivesUp : ∀ {items : List (Option ProviderToolCallProposal)} {prepared : List Prepared}
      {x : Program Orchestrator Raised (Except String (List Prepared))}, Notes x → Refuses x →
      (∃ t, (x o).2 = o.withTranscript t) ∧ ∀ qs, (x o).1 = .returned (.ok qs) →
        ∃ new, qs = prepared ++ new ∧ Prepares L limits context surface o prepared items new :=
    fun hx hnone => ⟨hx o, fun qs hqs => absurd hqs (hnone o qs)⟩
  induction items generalizing prepared with
  | nil =>
    refine ⟨⟨o.transcript, rfl⟩, fun qs hqs => ?_⟩
    cases hqs
    refine ⟨[], (List.append_nil _).symm, rfl, fun q hq => absurd hq List.not_mem_nil, ?_, ?_⟩
    · rwa [List.append_nil]
    · rwa [List.append_nil]
  | cons item items ih =>
    cases item with
    | none => exact hgivesUp (.bind (notes_add _ _) fun _ => .pure _) (.bind fun _ => .verdict _)
    | some p =>
      rw [prepare]
      cases htool : surface.tool? p.name with
      | none => exact hgivesUp (.bind (notes_add _ _) fun _ => .pure _) (.bind fun _ => .verdict _)
      | some tool =>
        dsimp only
        rcases hfrozen : proposedArguments limits tool p with (kind | _) | frozen
        · exact hgivesUp (.bind (notes_add _ _) fun _ => .bind (notes_skip _) fun _ => .pure _)
            (.bind fun _ => .bind fun _ => .verdict _)
        · exact hgivesUp (.raise _) (.raise _)
        dsimp only
        generalize canon L _ = text
        rcases text with raised | content
        · exact hgivesUp (.raise _) (.raise _)
        rcases haction : orchestratedAction L context surface p with raised | action
        · exact hgivesUp (.raise _) (.raise _)
        rw [Program.lift_ok, Program.bind_apply, Program.pure_apply]
        dsimp only
        rw [Program.lift_ok, Program.bind_apply, Program.pure_apply]
        dsimp only
        rw [Program.bind_apply, Program.get_apply]
        dsimp only
        by_cases hrepeats : o.repeats prepared p action = true
        · rw [if_pos hrepeats]
          exact hgivesUp (.bind (notes_add _ _) fun _ => .pure _) (.bind fun _ => .verdict _)
        rw [if_neg hrepeats]
        obtain ⟨hunregistered, hnewAction, hnewId⟩ := not_repeats hrepeats
        -- the proposal is new, and the others are prepared after it
        have hlater := ih (prepared ++ [⟨p, action, content, frozen⟩])
          (by rw [List.map_append, List.map_singleton, ← List.concat_eq_append]; exact hactions.concat hnewAction)
          (by rw [List.map_append, List.map_singleton, ← List.concat_eq_append]; exact hids.concat hnewId)
        refine ⟨hlater.1, fun qs hqs => ?_⟩
        obtain ⟨new, hnew, hprepares⟩ := hlater.2 qs hqs
        rw [List.append_assoc, List.singleton_append] at hnew
        refine ⟨⟨p, action, content, frozen⟩ :: new, hnew, ?_, ?_, ?_, ?_⟩
        · rw [hprepares.items, List.map_cons]
        · rw [List.forall_mem_cons]
          exact ⟨⟨haction, ⟨tool, htool, hfrozen⟩, hunregistered⟩, hprepares.checked⟩
        · simpa using hprepares.actions
        · simpa using hprepares.ids

/-! ### A turn -/

/-- What the arguments of a prepared proposal are. -/
theorem proposedArguments_eq {tool : AdvertisedTool} {p : ProviderToolCallProposal} {arguments : PyVal}
    (h : proposedArguments limits tool p = .ok arguments) : arguments = frozenOf p.arguments := by
  unfold proposedArguments at h
  obtain ⟨frozen, hfrozen, h⟩ := ok_of_bind h
  obtain ⟨_, -, h⟩ := ok_of_bind h
  cases h
  exact (freezeJson_spec hfrozen).1

theorem ask_response {request : ProviderRequest} {deadline : Deadline} {k : Nat} {env : TurnSurroundings}
    {response : TurnResponse} (h : ask L limits request deadline surface k env o = (.returned response, o')) :
    env.response = .ok response := by
  unfold ask at h
  obtain ⟨_, _, -, h⟩ := Program.exists_of_bind h
  obtain ⟨_, _, -, h⟩ := Program.exists_of_bind h
  obtain ⟨_, _, -, h⟩ := Program.exists_of_bind h
  obtain ⟨_, _, -, h⟩ := Program.exists_of_bind h
  exact Program.ok_of_lift h

theorem map_eq_of_forall₂ {α β γ : Type} {R : α → β → Prop} {f : α → γ} {g : β → γ} {xs : List α} {ys : List β}
    (h : List.Forall₂ R xs ys) (hfg : ∀ x y, R x y → f x = g y) : xs.map f = ys.map g := by
  induction h with
  | nil => rfl
  | cons hxy _ ih => rw [List.map_cons, List.map_cons, hfg _ _ hxy, ih]

theorem exists_of_forall₂ {α β : Type} {R : α → β → Prop} {xs : List α} {ys : List β} (h : List.Forall₂ R xs ys)
    {x : α} (hx : x ∈ xs) : ∃ y ∈ ys, R x y := by
  induction h with
  | nil => cases hx
  | cons hxy _ ih =>
    rcases List.mem_cons.1 hx with rfl | hx
    · exact ⟨_, List.mem_cons_self, hxy⟩
    · obtain ⟨y, hy, hR⟩ := ih hx
      exact ⟨y, List.mem_cons_of_mem _ hy, hR⟩

/-- What is prepared is new for the calls that have been registered. -/
theorem Prepares.new {context : Str} {items : List (Option ProviderToolCallProposal)} {qs : List Prepared}
    (hq : Prepares L limits context surface o [] items qs) (h : Settled L sensitive limits earlier surface calls o) :
    New calls qs where
  actions := by
    refine ⟨hq.actions, fun q hmem hcall => ?_⟩
    obtain ⟨call, hcall, hsame⟩ := List.mem_map.1 hcall
    exact (hq.checked q hmem).unregistered.1 (hsame ▸ (h.registered call hcall).1)
  ids := by
    refine ⟨hq.ids, fun q hmem hcall => ?_⟩
    obtain ⟨call, hcall, hsame⟩ := List.mem_map.1 hcall
    have hid : call.proposal.callId = q.proposal.callId := hsame
    exact (hq.checked q hmem).unregistered.2 (hid ▸ (h.registered call hcall).2)
  arguments := by
    intro q hmem
    obtain ⟨tool, -, harguments⟩ := (hq.checked q hmem).admitted
    exact proposedArguments_eq harguments

/-- The calls that are made of a response form a batch. -/
theorem batch_of_executes {context : Str} {deadline : Deadline} {env : TurnSurroundings} {qs : List Prepared}
    {items : List (Option ProviderToolCallProposal)} {more : List ToolCall}
    {r : Ending Raised (Option String) × Orchestrator}
    (hresponse : env.response = .ok (.proposals items))
    (htimely : env.cancelled = false ∧ deadline.expired env.answeredAt = false)
    (hcount : items.length ≤ limits.proposedToolCallCount ∧ items.length ≤ limits.mcpCallsPerTurn)
    (hq : Prepares L limits context surface o [] items qs) (hnew : New calls qs)
    (hmore : Executes L sensitive limits earlier surface deadline calls env.calls 0 qs more r) :
    Batch L limits context deadline surface calls env (qs.map Prepared.proposal) more where
  response := by
    rw [hresponse, hq.items, List.map_map]
    rfl
  timely := htimely
  count := by
    have hlength : (qs.map Prepared.proposal).length = items.length := by
      rw [hq.items, List.length_map, List.length_map]
    rw [hlength]
    exact hcount
  admitted := by
    intro p hp
    obtain ⟨q, hmem, rfl⟩ := List.mem_map.1 hp
    obtain ⟨tool, htool, harguments⟩ := (hq.checked q hmem).admitted
    rw [hnew.arguments q hmem] at harguments
    exact ⟨tool, htool, harguments⟩
  fresh := by
    refine ⟨qs.map Prepared.action, ?_, hnew.actions.1, ?_⟩
    · rw [List.forall₂_map_left_iff, List.forall₂_map_right_iff, List.forall₂_same]
      exact fun q hmem => (hq.checked q hmem).action
    · intro action haction
      obtain ⟨q, hmem, rfl⟩ := List.mem_map.1 haction
      exact hnew.actions.2 q hmem
  freshIds := by
    rw [List.map_map]
    refine ⟨hnew.ids.1, fun p hp => ?_⟩
    obtain ⟨q, hmem, rfl⟩ := List.mem_map.1 hp
    exact hnew.ids.2 q hmem
  ordered := by
    rw [map_eq_of_forall₂ hmore.made fun call q h => h.1]
    exact (List.take_prefix _ _).map _
  sent := by
    intro call hcall
    obtain ⟨q, hmem, hproposal, haction, hcarries⟩ := exists_of_forall₂ hmore.made hcall
    refine ⟨hcarries, ?_⟩
    rw [hproposal, haction]
    exact (hq.checked q (List.mem_of_mem_take hmem)).action
  readings := by
    intro i hi
    have hreading := hmore.readings i hi
    rwa [Nat.zero_add] at hreading

/-- The calls of one batch are made, or none and then the run stops. -/
def MakesBatch (L : Library) (sensitive : Str → List Str → Nat → Str) (limits : Limits) (earlier : List Exchange)
    (surface : ToolSurface) (context : Str) (deadline : Deadline) (env : TurnSurroundings) (calls : List ToolCall)
    (r : Ending Raised (Option String) × Orchestrator) : Prop :=
  ∃ more, Halted L sensitive limits earlier surface (calls ++ more) r.2 ∧
    ((more = [] ∧ r.1 ≠ .returned none) ∨
      ∃ proposals, Batch L limits context deadline surface calls env proposals more ∧
        (r.1 = .returned none → more.length = proposals.length ∧
          Settled L sensitive limits earlier surface (calls ++ more) r.2))

section

variable {context : Str} {deadline : Deadline} {env : TurnSurroundings}

theorem MakesBatch.stops {r : Ending Raised (Option String) × Orchestrator}
    (h : Halted L sensitive limits earlier surface calls r.2) (hends : r.1 ≠ .returned none) :
    MakesBatch L sensitive limits earlier surface context deadline env calls r := by
  refine ⟨[], ?_, .inl ⟨rfl, hends⟩⟩
  rw [List.append_nil]
  exact h

theorem respond_batch (h : Settled L sensitive limits earlier surface calls o) {response : TurnResponse}
    (hresponse : env.response = .ok response)
    (htimely : env.cancelled = false ∧ deadline.expired env.answeredAt = false) :
    MakesBatch L sensitive limits earlier surface context deadline env calls
      (respond L sensitive limits context deadline surface env response o) := by
  unfold respond
  rcases response with ⟨role, content⟩ | items | _
  · exact .stops h.halted (by simp)
  · dsimp only
    by_cases hcount : (limits.proposedToolCallCount < items.length || limits.mcpCallsPerTurn < items.length) = true
    · rw [if_pos hcount]
      exact .stops h.halted (by simp)
    rw [if_neg hcount, Program.bind_apply]
    rw [Bool.or_eq_true, decide_eq_true_eq, decide_eq_true_eq, not_or, not_lt, not_lt] at hcount
    obtain ⟨⟨t, ht⟩, hprepared⟩ := prepare_prepares (L := L) (o := o) context [] items List.nodup_nil List.nodup_nil
    generalize prepare L limits context surface [] items o = r at ht hprepared ⊢
    obtain ⟨(verdict | qs) | raised | _, o'⟩ := r
    · refine .stops ?_ (by simp)
      rw [show o' = _ from ht]
      exact h.halted.withTranscript t
    · obtain ⟨new, hqs, hprepares⟩ := hprepared qs rfl
      rw [List.nil_append] at hqs
      subst hqs
      have h' : Settled L sensitive limits earlier surface calls o' := by
        rw [show o' = _ from ht]
        exact h.withTranscript t
      have hnew := hprepares.new h
      obtain ⟨more, hmore⟩ := executeAll_executes deadline env.calls 0 qs h' hnew
      refine ⟨more, hmore.halted, .inr ⟨_, batch_of_executes hresponse htimely hcount hprepares hnew hmore, ?_⟩⟩
      intro hnone
      obtain ⟨hall, hsettled⟩ := hmore.completed hnone
      exact ⟨by rw [hall, List.length_map], hsettled⟩
    · refine .stops ?_ (by simp)
      rw [show o' = _ from ht]
      exact h.halted.withTranscript t
    · refine .stops ?_ (by simp)
      rw [show o' = _ from ht]
      exact h.halted.withTranscript t
  · exact .stops h.halted (by simp)

variable (context deadline env) in
theorem turn_batch (request : ProviderRequest) (k : Nat) (h : Settled L sensitive limits earlier surface calls o) :
    MakesBatch L sensitive limits earlier surface context deadline env calls
      (turn L sensitive limits request context deadline surface k env o) := by
  unfold turn
  by_cases hcancelled : env.cancelled = true
  · rw [if_pos hcancelled]
    exact .stops h.halted (by simp)
  rw [if_neg hcancelled, Program.bind_apply]
  obtain ⟨t, ht⟩ := notes_ask request deadline surface k env o
  generalize hask : ask L limits request deadline surface k env o = r at ht
  obtain ⟨response | raised | _, o'⟩ := r
  · have hresponse := ask_response hask
    have h' : Settled L sensitive limits earlier surface calls o' := by
      rw [show o' = _ from ht]
      exact h.withTranscript t
    dsimp only
    by_cases hexpired : deadline.expired env.answeredAt = true
    · rw [if_pos hexpired]
      exact .stops h'.halted (by simp)
    rw [if_neg hexpired]
    have htimely : env.cancelled = false ∧ deadline.expired env.answeredAt = false :=
      ⟨Bool.eq_false_iff.2 hcancelled, Bool.eq_false_iff.2 hexpired⟩
    generalize providerResponseValue response >>= canon L = text
    rcases text with raised | encoded
    · exact .stops h'.halted (by simp)
    dsimp only
    by_cases hlong : limits.providerResponseBytes < encoded.length
    · rw [if_pos hlong]
      exact .stops h'.halted (by simp)
    rw [if_neg hlong, Program.bind_apply]
    obtain ⟨t', hadd | ⟨raised, hadd⟩⟩ := add_cases L limits .providerTurnResponse
      [(.turn, decimalText k), (.bytes, decimalText encoded.length)] o'
    · rw [hadd]
      exact respond_batch (h'.withTranscript t') hresponse htimely
    · rw [hadd]
      exact .stops (h'.halted.withTranscript t') (by simp)
  · exact .stops (by rw [show o' = _ from ht]; exact h.halted.withTranscript t) (by simp)
  · exact .stops (by rw [show o' = _ from ht]; exact h.halted.withTranscript t) (by simp)

end

/-! ### The run -/

/-- The batches of a run, each with the response that it belongs to.  Only the last one can be incomplete. -/
def Batches (L : Library) (limits : Limits) (context : Str) (deadline : Deadline) (surface : ToolSurface)
    (calls : List ToolCall) (env : Nat → TurnSurroundings) (batches : List (List ToolCall)) : Prop :=
  ∀ before batch after, batches = before ++ batch :: after →
    ∃ proposals, Batch L limits context deadline surface (calls ++ before.flatten) (env before.length) proposals batch ∧
      (after ≠ [] → batch.length = proposals.length)

theorem Batches.nil {context : Str} {deadline : Deadline} {env : Nat → TurnSurroundings} :
    Batches L limits context deadline surface calls env [] := by
  intro before batch after h
  simp at h

theorem Batches.cons {context : Str} {deadline : Deadline} {env : Nat → TurnSurroundings} {first : List ToolCall}
    {rest : List (List ToolCall)} {proposals : List ProviderToolCallProposal}
    (hfirst : Batch L limits context deadline surface calls (env 0) proposals first)
    (hcomplete : rest ≠ [] → first.length = proposals.length)
    (hrest : Batches L limits context deadline surface (calls ++ first) (fun k => env (k + 1)) rest) :
    Batches L limits context deadline surface calls env (first :: rest) := by
  intro before batch after h
  rcases before with _ | ⟨b, before⟩
  · rw [List.nil_append, List.cons.injEq] at h
    obtain ⟨rfl, rfl⟩ := h
    refine ⟨proposals, ?_, hcomplete⟩
    rw [List.flatten_nil, List.append_nil]
    exact hfirst
  · rw [List.cons_append, List.cons.injEq] at h
    obtain ⟨rfl, hsplit⟩ := h
    obtain ⟨proposals', hbatch, hafter⟩ := hrest before batch after hsplit
    refine ⟨proposals', ?_, hafter⟩
    rw [List.flatten_cons, ← List.append_assoc]
    exact hbatch

theorem turns_batches (request : ProviderRequest) (context : Str) (deadline : Deadline) (env : Nat → TurnSurroundings)
    (k n : Nat) (h : Settled L sensitive limits earlier surface calls o) :
    ∃ batches, batches.length ≤ n ∧ Batches L limits context deadline surface calls (fun j => env (k + j)) batches ∧
      Halted L sensitive limits earlier surface (calls ++ batches.flatten)
        (turns L sensitive limits request context deadline surface env k n o).2 := by
  induction n generalizing k calls o with
  | zero =>
    refine ⟨[], le_refl 0, .nil, ?_⟩
    rw [List.flatten_nil, List.append_nil]
    exact h.halted
  | succ n ih =>
    rw [turns, Program.bind_apply]
    have hbatch := turn_batch context deadline (env k) request k h
    generalize turn L sensitive limits request context deadline surface k (env k) o = r at hbatch ⊢
    obtain ⟨more, hhalted, hbatch⟩ := hbatch
    -- the run ends with this turn
    have hlast : (more = [] ∨ ∃ proposals, Batch L limits context deadline surface calls (env k) proposals more) →
        ∃ batches : List (List ToolCall), batches.length ≤ n + 1 ∧
          Batches L limits context deadline surface calls (fun j => env (k + j)) batches ∧
          Halted L sensitive limits earlier surface (calls ++ batches.flatten) r.2 := by
      rintro (hnil | ⟨proposals, hmore⟩)
      · refine ⟨[], Nat.zero_le _, .nil, ?_⟩
        rw [hnil] at hhalted
        exact hhalted
      · refine ⟨[more], Nat.le_add_left 1 n, .cons hmore (fun hne => absurd rfl hne) .nil, ?_⟩
        rw [List.flatten_singleton]
        exact hhalted
    have heither : more = [] ∨ ∃ proposals, Batch L limits context deadline surface calls (env k) proposals more :=
      hbatch.imp (fun h => h.1) fun ⟨proposals, hmore, _⟩ => ⟨proposals, hmore⟩
    obtain ⟨(_ | verdict) | raised | _, o'⟩ := r
    · rcases hbatch with ⟨-, hstops⟩ | ⟨proposals, hmore, hcompleted⟩
      · exact absurd rfl hstops
      · obtain ⟨hall, hsettled⟩ := hcompleted rfl
        obtain ⟨rest, hcount, hrest, hafter⟩ := ih (k + 1) hsettled
        have henv : (fun j => env (k + 1 + j)) = fun j => env (k + (j + 1)) := by
          funext j
          rw [Nat.add_assoc, Nat.add_comm 1 j]
        rw [henv] at hrest
        refine ⟨more :: rest, Nat.succ_le_succ hcount, .cons hmore (fun _ => hall) hrest, ?_⟩
        rw [List.flatten_cons, ← List.append_assoc]
        exact hafter
    · exact hlast heither
    · exact hlast heither
    · exact hlast heither

/-- What writes only the transcript keeps what does not depend on it. -/
theorem Notes.ends {α : Type} {x : Program Orchestrator Raised α} (hx : Notes x) {P : Orchestrator → Prop}
    (hP : ∀ o t, P o → P (o.withTranscript t)) : Program.Ends P x (fun _ => P) (fun _ => P) P := by
  intro o ho
  obtain ⟨t, ht⟩ := hx o
  have hafter : P (x o).2 := by
    rw [ht]
    exact hP o t ho
  generalize x o = r at hafter
  obtain ⟨a | raised | _, o'⟩ := r <;> exact hafter

/-- No call has been made yet. -/
def Untouched (earlier : List Exchange) (o : Orchestrator) : Prop :=
  o.client.calls = earlier ∧ o.evidence = [] ∧ o.order = []

variable (L limits earlier) in
theorem capture_ends (server : Server) :
    Program.Ends (Untouched earlier) (capture L limits server)
      (fun surface o => Untouched earlier o ∧ o.client.surface = some surface) (fun _ => Untouched earlier)
      (Untouched earlier) := by
  have hadd : ∀ (kind : ControlKind) (metadata : List (MetadataKey × Str)), Program.Ends (Untouched earlier)
      (add L limits kind metadata) (fun _ => Untouched earlier) (fun _ => Untouched earlier) (Untouched earlier) :=
    fun kind metadata => (notes_add kind metadata).ends fun _ _ => id
  have hlater : ∀ surface {α : Type} {x : Program Orchestrator Raised α}, Notes x →
      Program.Ends (fun o => Untouched earlier o ∧ o.client.surface = some surface) x
        (fun _ o => Untouched earlier o ∧ o.client.surface = some surface) (fun _ => Untouched earlier)
        (Untouched earlier) :=
    fun surface α x hx => (hx.ends fun _ _ => id).mono (fun _ => id) (fun _ _ => id) (fun _ _ h => h.1) fun _ h => h.1
  refine .bind (hadd _ _) fun _ => .bind (hadd _ _) fun _ => ?_
  refine .bind (Q := fun surface o => Untouched earlier o ∧ o.client.surface = some surface) ?_ fun surface => ?_
  · rintro o ⟨hcalls, hevidence, horder⟩
    have hends := initializeAndCapture_calls L limits server earlier o.client hcalls
    unfold onClient
    rw [Program.zoom_apply]
    generalize initializeAndCapture L limits server o.client = r at hends
    obtain ⟨surface | raised | _, c⟩ := r
    · exact ⟨⟨hends.1, hevidence, horder⟩, hends.2⟩
    · exact ⟨hends, hevidence, horder⟩
    · exact ⟨hends, hevidence, horder⟩
  · have hnote : ∀ kind metadata, Program.Ends (fun o => Untouched earlier o ∧ o.client.surface = some surface)
        (add L limits kind metadata) (fun _ o => Untouched earlier o ∧ o.client.surface = some surface)
        (fun _ => Untouched earlier) (Untouched earlier) := fun kind metadata => hlater surface (notes_add kind metadata)
    refine .bind (hlater surface .get) fun o => .bind (hnote _ _) fun _ => .bind (hnote _ _) fun _ => ?_
    exact .bind (hnote _ _) fun _ => .bind (hnote _ _) fun _ => .bind (hnote _ _) fun _ => .pure fun _ => id

/-- What a run that started with a new orchestrator has executed. -/
structure Execution (L : Library) (sensitive : Str → List Str → Nat → Str) (limits : Limits) (env : RunSurroundings)
    (client : Client) (surface : ToolSurface) (batches : List (List ToolCall)) (o : Orchestrator) : Prop where
  written : o.client.calls = client.calls ++ batches.flatten.map ToolCall.exchange
  captured : batches ≠ [] → o.client.surface = some surface
  turns : batches.length ≤ limits.providerTurnCount
  responses : Batches L limits env.context (env.deadline limits) surface [] env.turns batches
  answered : ∃ done last, batches.flatten = done ++ last ∧ last.length ≤ 1 ∧
    List.Forall₂ (ToolCall.Answered L sensitive limits surface) done o.evidence
  order : o.order = o.evidence.map Evidence.actionId
  actionsOnce : (batches.flatten.map ToolCall.action).Nodup
  idsOnce : (batches.flatten.map (·.proposal.callId)).Nodup
  callsOnce : (batches.flatten.map fun call => (call.proposal.name, canon L call.proposal.arguments)).Nodup
  count : batches.flatten.length ≤ limits.mcpTotalCalls

variable (L surface) in
/-- The identity of an action is that of its tool and of the text of its arguments. -/
theorem orchestratedAction_congr (context : Str) {p p' : ProviderToolCallProposal} (hname : p.name = p'.name)
    (harguments : canon L p.arguments = canon L p'.arguments) :
    orchestratedAction L context surface p = orchestratedAction L context surface p' := by
  unfold orchestratedAction
  simp only [canon, canonMembers, hname, harguments]

theorem Batches.actions {context : Str} {deadline : Deadline} {env : Nat → TurnSurroundings}
    {batches : List (List ToolCall)} (h : Batches L limits context deadline surface calls env batches) {call : ToolCall}
    (hcall : call ∈ batches.flatten) : orchestratedAction L context surface call.proposal = .ok call.action := by
  obtain ⟨batch, hbatch, hmem⟩ := List.mem_flatten.1 hcall
  obtain ⟨before, after, hsplit⟩ := List.append_of_mem hbatch
  obtain ⟨proposals, hproposals, -⟩ := h before batch after hsplit
  exact (hproposals.sent call hmem).2

/-- Calls with different actions differ in the tool or in the arguments. -/
theorem callsOnce_of_actions {context : Str} (h : (calls.map ToolCall.action).Nodup)
    (hactions : ∀ call ∈ calls, orchestratedAction L context surface call.proposal = .ok call.action) :
    (calls.map fun call => (call.proposal.name, canon L call.proposal.arguments)).Nodup := by
  rw [List.Nodup, List.pairwise_map] at h ⊢
  refine h.imp_of_mem fun {call call'} hcall hcall' hne heq => hne ?_
  rw [Prod.mk.injEq] at heq
  have hsame := orchestratedAction_congr L surface context heq.1 heq.2
  rw [hactions call hcall, hactions call' hcall'] at hsame
  exact Except.ok.inj hsame

variable (L sensitive limits) in
/-- However the `try` of a run ends, what has been executed is an execution. -/
theorem body_executes (env : RunSurroundings) (request : ProviderRequest) (client : Client) :
    ∃ surface batches, Execution L sensitive limits env client surface batches
      (body L sensitive limits env request { client }).2 := by
  have hcapture := capture_ends L limits client.calls env.server { client } ⟨rfl, rfl, rfl⟩
  -- without a surface nothing is called
  have hnone : ∀ {o : Orchestrator}, Untouched client.calls o →
      Execution L sensitive limits env client ⟨[], [], .none⟩ [] o := by
    rintro o ⟨hcalls, hevidence, horder⟩
    refine ⟨?_, fun hne => absurd rfl hne, Nat.zero_le _, .nil, ⟨[], [], rfl, Nat.zero_le 1, ?_⟩, ?_, List.nodup_nil,
      List.nodup_nil, List.nodup_nil, Nat.zero_le _⟩
    · rw [hcalls, List.flatten_nil, List.map_nil, List.append_nil]
    · rw [hevidence]
      exact .nil
    · rw [horder, hevidence, List.map_nil]
  unfold body
  rw [Program.bind_apply]
  generalize capture L limits env.server { client } = r at hcapture ⊢
  obtain ⟨surface | raised | _, o⟩ := r
  · obtain ⟨⟨hcalls, hevidence, horder⟩, hsurface⟩ := hcapture
    have hsettled : Settled L sensitive limits client.calls surface [] o := by
      refine ⟨?_, hsurface, ?_, ?_, fun _ h => absurd h List.not_mem_nil, ⟨List.nodup_nil, List.nodup_nil⟩, Nat.zero_le _⟩
      · rw [hcalls, List.map_nil, List.append_nil]
      · rw [hevidence]
        exact .nil
      · rw [horder, hevidence, List.map_nil]
    obtain ⟨batches, hcount, hbatches, hhalted⟩ := turns_batches request env.context (env.deadline limits) env.turns 0
      limits.providerTurnCount hsettled
    have henv : (fun j => env.turns (0 + j)) = env.turns := by
      funext j
      rw [Nat.zero_add]
    rw [henv] at hbatches
    rw [List.nil_append] at hhalted
    exact ⟨surface, batches, hhalted.written, fun _ => hhalted.captured, hcount, hbatches, hhalted.answered,
      hhalted.order, hhalted.distinct.1, hhalted.distinct.2,
      callsOnce_of_actions hhalted.distinct.1 fun call hcall => hbatches.actions hcall, hhalted.bound⟩
  · exact ⟨_, [], hnone hcapture⟩
  · exact ⟨_, [], hnone hcapture⟩

/-- What follows the `try` only writes the transcript. -/
theorem run_eq_body (env : RunSurroundings) (request : ProviderRequest) (o : Orchestrator) :
    ∃ t, (run L sensitive limits env request o).2 = (body L sensitive limits env request o).2.withTranscript t := by
  unfold run Program.handle
  rw [Program.bind_apply]
  generalize body L sensitive limits env request o = r
  obtain ⟨verdict | raised | _, o'⟩ := r
  · dsimp only
    obtain ⟨t, ht⟩ := notes_outcome (L := L) env.shutdown verdict o'
    generalize outcome L limits env.shutdown verdict o' = r at ht
    obtain ⟨result | raised | _, o''⟩ := r
    · exact ⟨t, ht⟩
    · obtain ⟨t', ht'⟩ := notes_recover (L := L) env raised o''
      exact ⟨t', by rw [ht', show o'' = _ from ht]; rfl⟩
    · exact ⟨t, ht⟩
  · obtain ⟨t, ht⟩ := notes_recover (L := L) env raised o'
    exact ⟨t, ht⟩
  · exact ⟨o'.transcript, rfl⟩

theorem Execution.withTranscript {env : RunSurroundings} {client : Client} {batches : List (List ToolCall)}
    (h : Execution L sensitive limits env client surface batches o) (t : BoundedTranscript) :
    Execution L sensitive limits env client surface batches (o.withTranscript t) :=
  ⟨h.written, h.captured, h.turns, h.responses, h.answered, h.order, h.actionsOnce, h.idsOnce, h.callsOnce, h.count⟩

end

/-- In every run the calls that are written are those of responses all of whose proposals name a tool, conform to its
schema and are new; in each response they are in its order.  A call is written only when all before it have been
answered, so that none follows a rejection, a failure, a cancellation or the end of the time.  No action, no identifier
of a proposal and no tool with the same arguments is called twice, and the number of calls is bounded. -/
theorem run_executes (L : Library) (sensitive : Str → List Str → Nat → Str) (limits : Limits) (env : RunSurroundings)
    (request : ProviderRequest) (client : Client) :
    ∃ surface batches, Execution L sensitive limits env client surface batches
      (run L sensitive limits env request { client }).2 := by
  obtain ⟨surface, batches, h⟩ := body_executes L sensitive limits env request client
  obtain ⟨t, ht⟩ := run_eq_body env request { client }
  rw [ht]
  exact ⟨surface, batches, h.withTranscript t⟩

end Orchestrator

end NativeMcp.Agent
