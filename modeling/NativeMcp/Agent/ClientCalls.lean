import NativeMcp.Agent.Authorization
import NativeMcp.Agent.Normalization

/-!
# What the client's operations write

One lemma for each operation says what it adds to the client's history: `authorize` and `initialize_and_capture` write
no call, `execute` at most one, whose arguments are those of the action.  Identifiers are never given back
(`initializeAndCapture_advances`).
-/

namespace NativeMcp.Agent

/-! ### Calls -/

/-- The request of a call. -/
def sentCall : Event → Option Exchange
  | .sent x => if x.method = .toolsCall then some x else none
  | _ => none

/-- The calls that a client has written. -/
def Client.calls (c : Client) : List Exchange := c.history.filterMap sentCall

section

variable {c : Client}

theorem calls_record (event : Event) : (c.record event).calls = c.calls ++ (sentCall event).toList := by
  have hlast : [event].filterMap sentCall = (sentCall event).toList := by
    cases h : sentCall event with
    | none => exact List.filterMap_cons_none h
    | some x => exact List.filterMap_cons_some h
  rw [← hlast]
  exact List.filterMap_append

theorem calls_sent {x : Exchange} (h : x.method = .toolsCall) : (c.record (.sent x)).calls = c.calls ++ [x] := by
  have hcall : sentCall (.sent x) = some x := if_pos h
  rw [calls_record, hcall]
  rfl

theorem calls_sent_other {x : Exchange} (h : x.method ≠ .toolsCall) : (c.record (.sent x)).calls = c.calls := by
  have hcall : sentCall (.sent x) = none := if_neg h
  rw [calls_record, hcall]
  exact List.append_nil _

theorem calls_grant (object : Nat) (a : Authorization) : (c.grant object a).calls = c.calls := by
  unfold Client.calls Client.grant
  rw [List.filterMap_append]
  exact List.append_nil _

theorem calls_wrote {nextId : Nat} {xs : List Exchange} (h : ∀ x ∈ xs, x.method = .toolsList) :
    (c.wrote nextId xs).calls = c.calls := by
  unfold Client.calls Client.wrote
  rw [List.filterMap_append, List.filterMap_map]
  have hnone : xs.filterMap (sentCall ∘ Event.sent) = [] := by
    rw [List.filterMap_eq_nil_iff]
    intro x hx
    have hmethod : x.method ≠ .toolsCall := by
      rw [h x hx]
      exact Method.noConfusion
    exact if_neg hmethod
  rw [hnone]
  exact List.append_nil _

end

section

variable {L : Library} {sensitive : Str → List Str → Nat → Str} {limits : Limits} {c : Client}

/-! ### `authorize` and `execute` -/

theorem authorization_fields {surface : ToolSurface} {actionId : Option LocalActionIdentity} {proposalId name : Str}
    {arguments : PyVal} {a : Authorization}
    (h : authorization L limits surface actionId proposalId name arguments = .ok a) :
    a.name = name ∧ a.arguments = frozenOf arguments := by
  unfold authorization at h
  obtain ⟨frozen, hfrozen, h⟩ := ok_of_bind h
  obtain ⟨_, -, h⟩ := ok_of_bind h
  split at h
  · obtain ⟨_, -, h⟩ := ok_of_bind h
    obtain ⟨text, -, h⟩ := ok_of_bind h
    cases h
    exact ⟨rfl, (freezeJson_spec hfrozen).1⟩
  · cases h

variable (L limits) in
theorem authorize_cases (object : Nat) (actionId : Option LocalActionIdentity) (proposalId name : Str)
    (arguments : PyVal) (c : Client) :
    (∃ raised, authorize L limits object actionId proposalId name arguments c = (.raised raised, c)) ∨
      ∃ a : Authorization, a.name = name ∧ a.arguments = frozenOf arguments ∧
        authorize L limits object actionId proposalId name arguments c =
          (.returned ⟨a, some c.issuer⟩, c.grant object a) := by
  unfold authorize
  rw [Program.bind_apply, Program.get_apply]
  dsimp only
  cases c.surface with
  | none => exact .inl ⟨_, rfl⟩
  | some surface =>
    dsimp only
    cases ha : authorization L limits surface actionId proposalId name arguments with
    | error raised => exact .inl ⟨raised, rfl⟩
    | ok a =>
      obtain ⟨hname, harguments⟩ := authorization_fields ha
      exact .inr ⟨a, hname, harguments, rfl⟩

/-- What passes the checks of `execute` is the action itself. -/
theorem admission_fields {object : Nat} {a : Action} {admitted : Admission}
    (h : admission L limits c object (some a) = .ok admitted) :
    c.surface = some admitted.surface ∧ admitted.name = a.name ∧ admitted.arguments = frozenOf a.arguments := by
  unfold admission at h
  dsimp only at h
  split at h
  · rename_i surface hsurface
    obtain ⟨_, -, h⟩ := ok_of_bind h
    split at h
    · obtain ⟨_, -, h⟩ := ok_of_bind h
      obtain ⟨frozen, hfrozen, h⟩ := ok_of_bind h
      obtain ⟨_, -, h⟩ := ok_of_bind h
      obtain ⟨text, -, h⟩ := ok_of_bind h
      obtain ⟨_, -, h⟩ := ok_of_bind h
      cases h
      obtain ⟨frozen', hfrozen', h⟩ := ok_of_bind (ok_of_reclassify hfrozen)
      obtain ⟨_, -, h⟩ := ok_of_bind h
      cases h
      exact ⟨hsurface, rfl, (freezeJson_spec hfrozen').1⟩
    · cases h
  · cases h

theorem readResponse_id {x : Exchange} {response : Response} (h : readResponse L limits x = .ok response) :
    response.requestId = x.id := by
  unfold readResponse at h
  obtain ⟨line, -, h⟩ := ok_of_bind h
  obtain ⟨parsed, -, h⟩ := ok_of_bind h
  obtain ⟨message, -, h⟩ := ok_of_bind h
  obtain ⟨_, -, h⟩ := ok_of_bind h
  obtain ⟨_, -, h⟩ := ok_of_bind h
  split at h
  · obtain ⟨frozen, -, h⟩ := ok_of_bind h
    cases h
    rfl
  · cases h

/-- A call of this action: what is written and what its result has passed. -/
structure CallWritten (L : Library) (sensitive : Str → List Str → Nat → Str) (limits : Limits) (c : Client) (a : Action)
    (x : Exchange) (r : Ending Raised Response × Client) : Prop where
  after : r.2 = c.takeId.record (.sent x)
  id : x.id = c.nextId
  method : x.method = .toolsCall
  params : x.params = callParams a.name (frozenOf a.arguments)
  result : ∀ response, r.1 = .returned response → response.requestId = x.id ∧ ∃ surface raw,
    c.surface = some surface ∧ readResponse L limits x = .ok raw ∧
      validateToolResult sensitive limits raw.result (surface.outputSchema? a.name) = .ok response.result

variable (L sensitive limits) in
/-- `execute` raises and writes nothing, or it writes one call. -/
theorem execute_effect (turn : Turn) (object : Nat) (a : Action) (c : Client) :
    (∃ raised t, execute L sensitive limits turn object (some a) c = (.raised raised, t) ∧ (t = c ∨ t = c.takeId)) ∨
      ∃ x, CallWritten L sensitive limits c a x (execute L sensitive limits turn object (some a) c) := by
  unfold execute
  rw [Program.bind_apply, Program.get_apply]
  dsimp only
  cases hadmission : admission L limits c object (some a) with
  | error raised => exact .inl ⟨raised, c, rfl, .inl rfl⟩
  | ok admitted =>
    obtain ⟨hsurface, hname, harguments⟩ := admission_fields hadmission
    rw [Program.lift_ok, Program.bind_apply, Program.pure_apply]
    dsimp only
    rw [Program.bind_apply]
    rcases request_cases L limits turn .toolsCall (callParams admitted.name admitted.arguments) c with
      ⟨raised, hrequest⟩ | ⟨raised, -, hrequest⟩ | ⟨text, x, -, hx, hrequest⟩
    · rw [hrequest]
      exact .inl ⟨raised, c, rfl, .inl rfl⟩
    · rw [hrequest]
      exact .inl ⟨raised, c.takeId, rfl, .inr rfl⟩
    · rw [hrequest]
      have hparams : x.params = callParams a.name (frozenOf a.arguments) := by rw [hx, ← hname, ← harguments]
      refine .inr ⟨x, ?_⟩
      cases hresponse : readResponse L limits x with
      | error raised => exact ⟨rfl, by rw [hx], by rw [hx], hparams, fun response h => by cases h⟩
      | ok raw =>
        rw [Program.lift_ok, Program.pure_apply]
        dsimp only
        rw [Program.bind_apply]
        cases hresult : validateToolResult sensitive limits raw.result
            (admitted.surface.outputSchema? admitted.name) with
        | error raised => exact ⟨rfl, by rw [hx], by rw [hx], hparams, fun response h => by cases h⟩
        | ok result =>
          refine ⟨rfl, by rw [hx], by rw [hx], hparams, ?_⟩
          intro response h
          cases h
          have hid : raw.requestId = x.id := readResponse_id hresponse
          refine ⟨hid, admitted.surface, raw, hsurface, hresponse, ?_⟩
          rw [← hname]
          exact hresult

/-! ### `initialize_and_capture` -/

/-- However the program ends, no call has been written. -/
def WritesNoCall (calls : List Exchange) {α : Type} (x : Program Client Raised α) : Prop :=
  Program.Ends (fun c => Client.calls c = calls) x (fun _ c => c.calls = calls) (fun _ c => c.calls = calls)
    fun c => c.calls = calls

theorem writesNoCall_lift (calls : List Exchange) {α : Type} (v : Except Raised α) :
    WritesNoCall calls (Program.lift v) := .lift (fun _ _ _ => id) fun _ _ _ => id

theorem writesNoCall_request (calls : List Exchange) (turn : Turn) {method : Method} (params : PyVal)
    (hmethod : method ≠ .toolsCall) : WritesNoCall calls (request L limits turn method params) := by
  intro c hc
  rcases request_cases L limits turn method params c with
    ⟨raised, hrequest⟩ | ⟨raised, -, hrequest⟩ | ⟨text, x, -, hx, hrequest⟩
  · rw [hrequest]
    exact hc
  · rw [hrequest]
    exact hc
  · have hother : x.method ≠ .toolsCall := by
      rw [hx]
      exact hmethod
    have hsent : (c.takeId.record (.sent x)).calls = calls := (calls_sent_other hother).trans hc
    rw [hrequest]
    cases readResponse L limits x with
    | error raised => exact hsent
    | ok response => exact hsent

theorem writesNoCall_listAndCapture (calls : List Exchange) (server : Server) (k : Nat) :
    WritesNoCall calls (listAndCapture L limits server k) := by
  intro c hc
  obtain ⟨xs, -, hxs⟩ := listPages_spec L limits server k [] [] none c (Nat.sub_le _ _)
  obtain ⟨id, hwritten⟩ := hxs.written
  have hafter : (listAndCapture L limits server k c).2.calls = calls := by
    unfold listAndCapture
    rw [hwritten, calls_wrote hxs.methods]
    exact hc
  generalize listAndCapture L limits server k c = r at hafter
  obtain ⟨a | e | _, t⟩ := r <;> exact hafter

variable (L limits) in
/-- However the capture ends, it writes no call; the surface that it returns is the client's. -/
theorem initializeAndCapture_calls (server : Server) (calls : List Exchange) :
    Program.Ends (fun c => Client.calls c = calls) (initializeAndCapture L limits server)
      (fun surface c => c.calls = calls ∧ c.surface = some surface) (fun _ c => c.calls = calls)
      (fun c => c.calls = calls) := by
  refine .bind (writesNoCall_request calls _ _ Method.noConfusion) fun response => ?_
  refine .bind (writesNoCall_lift calls _) fun _ => .bind (writesNoCall_lift calls _) fun _ => ?_
  refine .bind_modify (fun c => c.calls = calls) ?_ fun c hc => ?_
  · refine .bind (writesNoCall_listAndCapture calls server 1) fun surface => ?_
    refine .bind_modify (fun c => c.calls = calls ∧ c.surface = some surface) (.pure fun _ => id) fun c hc => ?_
    have hsame : (c.setSurface surface).calls = c.calls := by
      unfold Client.calls Client.setSurface
      rw [List.filterMap_append]
      exact List.append_nil _
    exact ⟨hsame.trans hc, rfl⟩
  · rw [calls_record]
    exact (List.append_nil _).trans hc

end

/-! ### Identifiers -/

section

variable {L : Library} {limits : Limits}

variable (L limits) in
/-- What each request for a page keeps, the whole list of pages keeps. -/
theorem listPages_keeps {P : Client → Prop} (server : Server)
    (hrequest : ∀ turn params, Program.Ends P (request L limits turn .toolsList params) (fun _ => P) (fun _ => P) P)
    {n : Nat} (k : Nat) (collected : List PyVal) (seen : List Str) (cursor : Option Str)
    (hn : limits.advertisedToolCount - collected.length ≤ n) :
    Program.Ends P (listPages L limits server k collected seen cursor) (fun _ => P) (fun _ => P) P := by
  induction n using Nat.strong_induction_on generalizing k collected seen cursor with
  | _ n ih =>
    rw [listPages]
    refine .bind (hrequest _ _) fun listed => .bind (.lift (fun _ _ _ => id) fun _ _ _ => id) fun page => ?_
    by_cases hcount : limits.advertisedToolCount < collected.length + page.tools.length
    · rw [dif_pos hcount]
      exact .raise fun _ => id
    · rw [dif_neg hcount]
      cases page.cursor with
      | none => exact .lift (fun _ _ _ => id) fun _ _ _ => id
      | some next =>
        dsimp only
        by_cases hseen : seen.contains next = true ∨ page.tools = []
        · rw [dif_pos hseen]
          exact .raise fun _ => id
        · rw [dif_neg hseen]
          -- the page has a tool, so that there is less room for the others
          have hpos := List.length_pos_iff.2 fun hnil => hseen (.inr hnil)
          have hroom : limits.advertisedToolCount - (collected ++ page.tools).length ≤ n - 1 := by
            rw [List.length_append]
            omega
          exact ih (n - 1) (by omega) (k + 1) (collected ++ page.tools) (next :: seen) (some next) hroom

theorem request_advances (n : Nat) (turn : Turn) (method : Method) (params : PyVal) :
    Program.Ends (fun c : Client => n ≤ c.nextId) (request L limits turn method params) (fun _ c => n ≤ c.nextId)
      (fun _ c => n ≤ c.nextId) fun c => n ≤ c.nextId := by
  intro c hc
  have htaken : n ≤ c.takeId.nextId := Nat.le_succ_of_le hc
  rcases request_cases L limits turn method params c with
    ⟨raised, hrequest⟩ | ⟨raised, -, hrequest⟩ | ⟨text, x, -, -, hrequest⟩
  · rw [hrequest]
    exact hc
  · rw [hrequest]
    exact htaken
  · rw [hrequest]
    cases readResponse L limits x with
    | error raised => exact htaken
    | ok response => exact htaken

variable (L limits) in
/-- However the capture ends, the next identifier has not gone back. -/
theorem initializeAndCapture_advances (n : Nat) (server : Server) :
    Program.Ends (fun c : Client => n ≤ c.nextId) (initializeAndCapture L limits server) (fun _ c => n ≤ c.nextId)
      (fun _ c => n ≤ c.nextId) fun c => n ≤ c.nextId := by
  have hlift : ∀ {α : Type} (v : Except Raised α), Program.Ends (fun c : Client => n ≤ c.nextId) (Program.lift v)
      (fun _ c => n ≤ c.nextId) (fun _ c => n ≤ c.nextId) fun c => n ≤ c.nextId :=
    fun _ => .lift (fun _ _ _ => id) fun _ _ _ => id
  refine .bind (request_advances n _ _ _) fun response => .bind (hlift _) fun _ => .bind (hlift _) fun _ => ?_
  refine .bind_modify (fun c => n ≤ c.nextId) ?_ fun _ => id
  have hlist := listPages_keeps L limits server (fun turn params => request_advances n turn _ params) 1 [] [] none
    (Nat.le_refl _)
  exact .bind hlist fun surface => .bind_modify (fun c => n ≤ c.nextId) (.pure fun _ => id) fun _ => id

end

end NativeMcp.Agent
