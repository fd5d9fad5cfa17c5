import NativeMcp.Agent.StdioReads

/-!
# Sessions of requests over the child's streams

`ChildClient.request` is `_request` down to its reads.  Seen from its caller it is `request` with some `Turn`
(`request_refines`).  A session asks one request after the other: the line that answers a request is the first of its
last read, so that the answers depend on the child's output alone as long as no read completes a line too many
(`session_cut_independent`).
-/

namespace NativeMcp.Agent

open Records (joined Parsed)

/-! ### `_request` -/

/-- What happens in one round of the loop of `_request`: the readings of the cancellation, of the child's state and of
the two clocks, and what can be read then. -/
structure Poll where
  cancelled : Bool
  exited : Bool
  now : Rat
  leftAt : Rat
  chunks : List Chunk

/-- What happens around one request. -/
structure RequestSurroundings where
  startAt : Rat
  spawned : Bool
  spawnedAt : Rat
  askedAt : Rat
  written : Bool
  writtenAt : Rat
  polls : List Poll

namespace ChildClient

def takeId (s : ChildClient) : ChildClient := { s with nextId := s.nextId + 1 }

def markStarted (s : ChildClient) : ChildClient := { s with started := true }

/-- The startup is over with the response to `initialize`. -/
def noteResponse (s : ChildClient) (method : Method) : ChildClient :=
  if method = .initialization then { s with startupPending := false } else s

section

variable (L : Library) (limits : Limits) (deadline : Deadline)

/-- `start` -/
def start (env : RequestSurroundings) : Program ChildClient Raised Unit := do
  let _ ← Program.lift (deadline.timeout env.startAt limits.processStartupTimeoutMs)
  -- the deadline is read again when the child is there; what fails there ends the child
  if env.spawned && !deadline.expired env.spawnedAt then Program.modify markStarted
  else Program.raise (.provider .mcpProcessExit)

/-- The loop of `_request`, as far as the line that decides. -/
def awaitLine (operationMs responseLimit : Nat) (stop : Rat) : List Poll → Program ChildClient Raised Bytes
  | [] => Program.suspend
  | poll :: polls => do
    let s ← Program.get
    if poll.cancelled then Program.raise (.provider .cancelled)
    else if poll.exited then
      Program.raise (.provider (if s.out = [] then .mcpAmbiguousCompletion else .truncatedResponse))
    else do
      let left ← Program.lift (deadline.timeout poll.leftAt operationMs)
      if min (min (stop - poll.now) ((left : Rat) / 1000)) (1 / 100) ≤ 0 then Program.raise (.provider .mcpTimeout)
      else do
        match ← drain limits responseLimit poll.chunks with
        | [] => awaitLine operationMs responseLimit stop polls
        -- what else has been read is lost
        | line :: _ => return line

def ensureStarted (env : RequestSurroundings) : Program ChildClient Raised Unit := do
  let s ← Program.get
  if s.started then return () else start limits deadline env

/-- The part of `_request` before it takes an identifier: how long it may last. -/
def prepare (env : RequestSurroundings) (operationMs : Nat) : Program ChildClient Raised Int := do
  ensureStarted limits deadline env
  let s ← Program.get
  Program.lift (deadline.timeout env.askedAt
    (if s.startupPending then min operationMs limits.processStartupTimeoutMs else operationMs))

/-- `_request` -/
def request (env : RequestSurroundings) (operationMs : Nat) (method : Method) (params : PyVal) :
    Program ChildClient Raised Response := do
  let timeoutMs ← prepare limits deadline env operationMs
  let s ← Program.get
  Program.modify takeId
  let _ ← Program.lift (requestText L limits s.nextId method params)
  if env.written then do
    let line ← awaitLine limits deadline operationMs (responseLimit limits method)
      (env.writtenAt + (timeoutMs : Rat) / 1000) env.polls
    let response ← Program.lift (readResponse L limits ⟨s.nextId, method, params, .ok line⟩)
    Program.modify fun s => s.noteResponse method
    return response
  else Program.raise (.provider .mcpAmbiguousCompletion)

end

end ChildClient

/-! ### The client without its reads -/

section

variable {L : Library} {limits : Limits} {deadline : Deadline} {α β : Type}

/-- The program takes no identifier. -/
def TakesNoId (x : Program ChildClient Raised α) : Prop := ∀ s, (x s).2.nextId = s.nextId

theorem TakesNoId.pure (a : α) : TakesNoId (pure a : Program ChildClient Raised α) := fun _ => rfl

theorem TakesNoId.raise (raised : Raised) : TakesNoId (Program.raise raised : Program ChildClient Raised α) :=
  fun _ => rfl

theorem TakesNoId.get : TakesNoId (Program.get : Program ChildClient Raised ChildClient) := fun _ => rfl

theorem TakesNoId.lift (v : Except Raised α) : TakesNoId (Program.lift v : Program ChildClient Raised α) := by
  cases v with
  | ok a => exact .pure a
  | error raised => exact .raise raised

theorem TakesNoId.bind {x : Program ChildClient Raised α} {f : α → Program ChildClient Raised β} (hx : TakesNoId x)
    (hf : ∀ a, TakesNoId (f a)) : TakesNoId (x >>= f) := by
  intro s
  have hfirst := hx s
  rw [Program.bind_apply]
  generalize x s = r at hfirst
  obtain ⟨a | raised | _, t⟩ := r
  · exact (hf a t).trans hfirst
  · exact hfirst
  · exact hfirst

variable (limits deadline) in
theorem takesNoId_prepare (env : RequestSurroundings) (operationMs : Nat) :
    TakesNoId (ChildClient.prepare limits deadline env operationMs) := by
  have hstart : TakesNoId (ChildClient.start limits deadline env) := by
    refine .bind (.lift _) fun _ => ?_
    split
    · exact fun _ => rfl
    · exact .raise _
  refine .bind (.bind .get fun s => ?_) fun _ => .bind .get fun s => .lift _
  split
  · exact .pure ()
  · exact hstart

variable (limits) in
theorem takesNoId_drain (responseLimit : Nat) (chunks : List Chunk) :
    TakesNoId (drain limits responseLimit chunks) := by
  induction chunks with
  | nil => exact .pure []
  | cons chunk chunks ih =>
    have htake : TakesNoId (Program.modify fun s => s.take chunk) := by
      intro s
      rw [Program.modify_apply]
      unfold ChildClient.take
      cases chunk.channel <;> rfl
    rw [drain]
    split
    · exact ih
    · refine .bind htake fun _ => .bind .get fun s => ?_
      split
      · exact .raise _
      · split
        · exact ih
        · refine .bind (fun _ => rfl) fun _ => ?_
          split
          · exact .bind ih fun _ => .pure _
          · exact .raise _

variable (limits deadline) in
theorem takesNoId_awaitLine (operationMs responseLimit : Nat) (stop : Rat) (polls : List Poll) :
    TakesNoId (ChildClient.awaitLine limits deadline operationMs responseLimit stop polls) := by
  induction polls with
  | nil => exact fun _ => rfl
  | cons poll polls ih =>
    refine .bind .get fun s => ?_
    split
    · exact .raise _
    · split
      · exact .raise _
      · refine .bind (.lift _) fun left => ?_
        split
        · exact .raise _
        · refine .bind (takesNoId_drain limits _ _) fun records => ?_
          cases records with
          | nil => exact ih
          | cons line dropped => exact .pure line

end

section

variable {L : Library} {limits : Limits} {method : Method} {params : PyVal} {c : Client}

/-- A turn that is refused. -/
private theorem request_refused (raised : Raised) (line : Except Raised Bytes) :
    request L limits ⟨some raised, line⟩ method params c = (.raised raised, c) := rfl

private theorem request_unwritten {raised : Raised} (line : Except Raised Bytes)
    (h : requestText L limits c.nextId method params = .error raised) :
    request L limits ⟨none, line⟩ method params c = (.raised raised, c.takeId) := by
  unfold request
  simp [h]

/-- A turn with this line, or with this failure. -/
private theorem request_written {text : Bytes} (line : Except Raised Bytes)
    (h : requestText L limits c.nextId method params = .ok text) :
    request L limits ⟨none, line⟩ method params c =
      (Program.lift (readResponse L limits ⟨c.nextId, method, params, line⟩) : Program Client Raised Response)
        (c.takeId.record (.sent ⟨c.nextId, method, params, line⟩)) := by
  unfold request
  simp [h]

private theorem readResponse_failed {id : Nat} (raised : Raised) :
    readResponse L limits ⟨id, method, params, .error raised⟩ = .error raised := rfl

end

/-- However the child's output is read, and whatever the clocks and the cancellation say: a request that does not wait
for ever is, for its caller, `request` in some turn. -/
theorem request_refines (L : Library) (limits : Limits) (deadline : Deadline) (env : RequestSurroundings)
    (operationMs : Nat) (method : Method) (params : PyVal) (s : ChildClient) :
    (ChildClient.request L limits deadline env operationMs method params s).1 = .suspended ∨
      ∃ turn, ∀ c : Client, c.nextId = s.nextId →
      (request L limits turn method params c).1 =
        (ChildClient.request L limits deadline env operationMs method params s).1 ∧
      (request L limits turn method params c).2.nextId =
        (ChildClient.request L limits deadline env operationMs method params s).2.nextId := by
  have hprepare := takesNoId_prepare limits deadline env operationMs s
  unfold ChildClient.request
  rw [Program.bind_apply]
  generalize ChildClient.prepare limits deadline env operationMs s = r at hprepare ⊢
  obtain ⟨timeoutMs | raised | _, s₁⟩ := r
  · dsimp only at hprepare ⊢
    rw [Program.bind_apply, Program.get_apply]
    dsimp only
    rw [Program.bind_apply, Program.modify_apply]
    dsimp only
    cases htext : requestText L limits s₁.nextId method params with
    | error raised =>
      refine .inr ⟨⟨none, .error .other⟩, fun c hc => ?_⟩
      rw [← hprepare] at hc
      rw [request_unwritten _ (by rw [hc]; exact htext)]
      exact ⟨rfl, congrArg (· + 1) hc⟩
    | ok text =>
      rw [Program.lift_ok, Program.bind_apply, Program.pure_apply]
      dsimp only
      by_cases hwritten : env.written = true
      · rw [if_pos hwritten, Program.bind_apply]
        have hawait := takesNoId_awaitLine limits deadline operationMs (responseLimit limits method)
          (env.writtenAt + (timeoutMs : Rat) / 1000) env.polls s₁.takeId
        generalize ChildClient.awaitLine limits deadline operationMs (responseLimit limits method)
          (env.writtenAt + (timeoutMs : Rat) / 1000) env.polls s₁.takeId = r at hawait ⊢
        obtain ⟨line | raised | _, t⟩ := r
        · refine .inr ⟨⟨none, .ok line⟩, fun c hc => ?_⟩
          rw [← hprepare] at hc
          rw [request_written _ (by rw [hc]; exact htext), hc]
          dsimp only
          cases readResponse L limits ⟨s₁.nextId, method, params, .ok line⟩ with
          | error raised => exact ⟨rfl, (congrArg (· + 1) hc).trans hawait.symm⟩
          | ok response =>
            have hnoted : (t.noteResponse method).nextId = t.nextId := by
              unfold ChildClient.noteResponse
              split <;> rfl
            exact ⟨rfl, ((congrArg (· + 1) hc).trans hawait.symm).trans hnoted.symm⟩
        · refine .inr ⟨⟨none, .error raised⟩, fun c hc => ?_⟩
          rw [← hprepare] at hc
          rw [request_written _ (by rw [hc]; exact htext), hc, readResponse_failed]
          exact ⟨rfl, (congrArg (· + 1) hc).trans hawait.symm⟩
        · exact .inl rfl
      · rw [if_neg hwritten]
        refine .inr ⟨⟨none, .error (.provider .mcpAmbiguousCompletion)⟩, fun c hc => ?_⟩
        rw [← hprepare] at hc
        rw [request_written _ (by rw [hc]; exact htext), hc, readResponse_failed]
        exact ⟨rfl, congrArg (· + 1) hc⟩
  · refine .inr ⟨⟨some raised, .error .other⟩, fun c hc => ?_⟩
    rw [request_refused]
    exact ⟨rfl, hc.trans hprepare.symm⟩
  · exact .inl rfl

/-! ### Sessions -/

/-- What is asked. -/
structure Question where
  method : Method
  params : PyVal

/-- A question, and what happens around the request that asks it. -/
structure Asked where
  question : Question
  operationMs : Nat
  env : RequestSurroundings

/-- These requests, one after the other. -/
def session (L : Library) (limits : Limits) (deadline : Deadline) :
    List Asked → Program ChildClient Raised (List Response)
  | [] => return []
  | a :: later => do
    let response ← ChildClient.request L limits deadline a.env a.operationMs a.question.method a.question.params
    let responses ← session L limits deadline later
    return response :: responses

/-- These lines, read as the answers of the questions with the identifiers from this one on, are the responses. -/
inductive Answers (L : Library) (limits : Limits) : Nat → List Question → List Bytes → List Response → Prop
  | nil (id : Nat) : Answers L limits id [] [] []
  | cons {id : Nat} {question : Question} {line : Bytes} {response : Response} {questions : List Question}
      {lines : List Bytes} {responses : List Response}
      (hfirst : readResponse L limits ⟨id, question.method, question.params, .ok line⟩ = .ok response)
      (hlater : Answers L limits (id + 1) questions lines responses) :
      Answers L limits id (question :: questions) (line :: lines) (response :: responses)

/-- Between two states of the client these lines have been read. -/
structure Receives (limits : Limits) (s : ChildClient) (records : List Bytes) (t : ChildClient) : Prop where
  data : ∃ data, t.received = s.received ++ data ∧ Parsed 0x0A (s.out ++ data) records t.out
  bounded : t.Bounded limits

section

variable {L : Library} {limits : Limits} {deadline : Deadline} {s t u : ChildClient} {records records' : List Bytes}

open ChildClient (Bounded)

theorem Receives.refl (h : Bounded limits s) : Receives limits s [] s :=
  ⟨⟨[], (List.append_nil _).symm, by rw [List.append_nil]; exact .nil h.free⟩, h⟩

theorem Receives.trans (h : Receives limits s records t) (h' : Receives limits t records' u) :
    Receives limits s (records ++ records') u where
  data := by
    obtain ⟨data, hreceived, hparsed⟩ := h.data
    obtain ⟨data', hreceived', hparsed'⟩ := h'.data
    refine ⟨data ++ data', by rw [hreceived', hreceived, List.append_assoc], ?_⟩
    rw [← List.append_assoc]
    exact hparsed.append hparsed'
  bounded := h'.bounded

/-- The identifiers and the flags play no part. -/
theorem Receives.congr {s' t' : ChildClient} (h : Receives limits s records t) (hout : s'.out = s.out)
    (hreceived : s'.received = s.received) (hout' : t'.out = t.out) (hreceived' : t'.received = t.received)
    (herr : t'.errTotal = t.errTotal) : Receives limits s' records t' where
  data := by
    obtain ⟨data, hdata, hparsed⟩ := h.data
    exact ⟨data, by rw [hreceived', hdata, hreceived], by rw [hout, hout']; exact hparsed⟩
  bounded := by
    obtain ⟨hbound, herrBound, hfree⟩ := h.bounded
    exact ⟨by rw [hreceived']; exact hbound, by rw [herr]; exact herrBound, by rw [hout']; exact hfree⟩

/-- The line that decides is the first one of its read; the reads before it have completed none. -/
theorem awaitLine_reads {operationMs responseLimit : Nat} {stop : Rat} {polls : List Poll} {line : Bytes}
    (hs : Bounded limits s)
    (h : ChildClient.awaitLine limits deadline operationMs responseLimit stop polls s = (.returned line, t)) :
    ∃ dropped, Receives limits s (line :: dropped) t := by
  induction polls generalizing s with
  | nil => cases h
  | cons poll polls ih =>
    rw [ChildClient.awaitLine, Program.bind_apply, Program.get_apply] at h
    dsimp only at h
    by_cases hcancelled : poll.cancelled = true
    · rw [if_pos hcancelled] at h
      cases h
    rw [if_neg hcancelled] at h
    by_cases hexited : poll.exited = true
    · rw [if_pos hexited] at h
      cases h
    rw [if_neg hexited] at h
    cases hleft : deadline.timeout poll.leftAt operationMs with
    | error raised =>
      rw [hleft] at h
      cases h
    | ok left =>
      rw [hleft, Program.lift_ok, Program.bind_apply, Program.pure_apply] at h
      dsimp only at h
      by_cases hlate : min (min (stop - poll.now) ((left : Rat) / 1000)) (1 / 100) ≤ 0
      · rw [if_pos hlate] at h
        cases h
      rw [if_neg hlate, Program.bind_apply] at h
      rcases drain_reads responseLimit poll.chunks hs with
        ⟨haccepts, records, s', hreads, hdrain⟩ | ⟨-, s', hdrain⟩
      · rw [hdrain] at h
        have hreceives : Receives limits s records s' :=
          ⟨⟨_, hreads.received, hreads.parsed⟩, hreads.bounded haccepts⟩
        rcases records with _ | ⟨first, dropped⟩
        · -- no line yet
          obtain ⟨dropped, hlater⟩ := ih hreceives.bounded h
          exact ⟨dropped, hreceives.trans hlater⟩
        · cases h
          exact ⟨dropped, hreceives⟩
      · rw [hdrain] at h
        cases h

/-- What comes before a request reads nothing. -/
private theorem prepare_keeps {env : RequestSurroundings} {operationMs : Nat} {timeoutMs : Int}
    (h : ChildClient.prepare limits deadline env operationMs s = (.returned timeoutMs, t)) :
    t = s ∨ t = s.markStarted := by
  obtain ⟨_, s₁, hstarted, h⟩ := Program.exists_of_bind h
  obtain ⟨s₂, s₃, hget, h⟩ := Program.exists_of_bind h
  cases hget
  obtain rfl := Program.state_of_lift h
  unfold ChildClient.ensureStarted at hstarted
  rw [Program.bind_apply, Program.get_apply] at hstarted
  dsimp only at hstarted
  by_cases hs : s.started = true
  · rw [if_pos hs] at hstarted
    cases hstarted
    exact .inl rfl
  · rw [if_neg hs] at hstarted
    unfold ChildClient.start at hstarted
    obtain ⟨_, s₄, hlift, hlater⟩ := Program.exists_of_bind hstarted
    obtain rfl := Program.state_of_lift hlift
    split at hlater
    · cases hlater
      exact .inr rfl
    · cases hlater

/-- A request that returns: its line is the first of those that have been read. -/
theorem request_reads {env : RequestSurroundings} {operationMs : Nat} {method : Method} {params : PyVal}
    {response : Response} (hs : Bounded limits s)
    (h : ChildClient.request L limits deadline env operationMs method params s = (.returned response, t)) :
    t.nextId = s.nextId + 1 ∧ ∃ line dropped, Receives limits s (line :: dropped) t ∧
      readResponse L limits ⟨s.nextId, method, params, .ok line⟩ = .ok response := by
  unfold ChildClient.request at h
  obtain ⟨timeoutMs, s₁, hprepare, h⟩ := Program.exists_of_bind h
  obtain ⟨_, _, hget, h⟩ := Program.exists_of_bind h
  cases hget
  obtain ⟨_, s₂, hmodify, h⟩ := Program.exists_of_bind h
  cases hmodify
  obtain ⟨_, s₃, hlift, h⟩ := Program.exists_of_bind h
  obtain rfl := Program.state_of_lift hlift
  have hkept : s₁.nextId = s.nextId ∧ s₁.out = s.out ∧ s₁.received = s.received ∧ s₁.errTotal = s.errTotal := by
    rcases prepare_keeps hprepare with rfl | rfl <;> exact ⟨rfl, rfl, rfl, rfl⟩
  obtain ⟨hid, hout, hreceived, herr⟩ := hkept
  by_cases hwritten : env.written = true
  · rw [if_pos hwritten] at h
    obtain ⟨line, v, hawait, h⟩ := Program.exists_of_bind h
    obtain ⟨received, u', hread, hlater⟩ := Program.exists_of_bind h
    have hstate := Program.state_of_lift hread
    subst hstate
    have hread := Program.ok_of_lift hread
    obtain ⟨_, _, hmodify, hlast⟩ := Program.exists_of_bind hlater
    cases hmodify
    cases hlast
    have hbounded : Bounded limits s₁.takeId :=
      ⟨by rw [show s₁.takeId.received = s.received from hreceived]; exact hs.out,
        by rw [show s₁.takeId.errTotal = s.errTotal from herr]; exact hs.err,
        by rw [show s₁.takeId.out = s.out from hout]; exact hs.free⟩
    have hids := takesNoId_awaitLine limits deadline operationMs (responseLimit limits method)
      (env.writtenAt + (timeoutMs : Rat) / 1000) env.polls s₁.takeId
    rw [hawait] at hids
    obtain ⟨dropped, hreceives⟩ := awaitLine_reads hbounded hawait
    have hnoted : (u'.noteResponse method).nextId = u'.nextId ∧ (u'.noteResponse method).out = u'.out ∧
        (u'.noteResponse method).received = u'.received ∧ (u'.noteResponse method).errTotal = u'.errTotal := by
      unfold ChildClient.noteResponse
      split <;> exact ⟨rfl, rfl, rfl, rfl⟩
    obtain ⟨hid', hout', hreceived', herr'⟩ := hnoted
    refine ⟨?_, line, dropped, ?_, ?_⟩
    · rw [hid', ← hid]
      exact hids
    · exact hreceives.congr hout.symm hreceived.symm hout' hreceived' herr'
    · rw [← hid]
      exact hread
  · rw [if_neg hwritten] at h
    cases h

/-- A session that returns: each request takes the next identifier, and its answer is the first line of its reads. -/
theorem session_reads {asked : List Asked} {responses : List Response} (hs : Bounded limits s)
    (h : session L limits deadline asked s = (.returned responses, t)) :
    t.nextId = s.nextId + asked.length ∧ ∃ batches : List (Bytes × List Bytes),
      Receives limits s (batches.flatMap fun batch => batch.1 :: batch.2) t ∧
      Answers L limits s.nextId (asked.map Asked.question) (batches.map Prod.fst) responses := by
  induction asked generalizing s responses with
  | nil =>
    cases h
    exact ⟨rfl, [], .refl hs, .nil _⟩
  | cons a asked ih =>
    rw [session] at h
    obtain ⟨response, s₁, hrequest, h⟩ := Program.exists_of_bind h
    obtain ⟨later, s₂, hsession, h⟩ := Program.exists_of_bind h
    cases h
    obtain ⟨hid, line, dropped, hreceives, hread⟩ := request_reads hs hrequest
    obtain ⟨hids, batches, hlater, hanswers⟩ := ih hreceives.bounded hsession
    rw [hid] at hids hanswers
    refine ⟨by rw [hids, List.length_cons]; omega, (line, dropped) :: batches, ?_, .cons hread hanswers⟩
    rw [List.flatMap_cons]
    exact hreceives.trans hlater

theorem Answers.length {id : Nat} {questions : List Question} {lines : List Bytes} {responses : List Response}
    (h : Answers L limits id questions lines responses) : questions.length = lines.length := by
  induction h with
  | nil id => rfl
  | cons hfirst hlater ih => rw [List.length_cons, List.length_cons, ih]

/-- The lines determine the responses. -/
theorem Answers.unique {id : Nat} {questions : List Question} {lines : List Bytes}
    {responses responses' : List Response} (h : Answers L limits id questions lines responses) (h' : Answers L limits id questions lines responses') :
    responses = responses' := by
  induction h generalizing responses' with
  | nil id =>
    cases h'
    rfl
  | cons hfirst hlater ih =>
    cases h' with
    | cons hfirst' hlater' =>
      rw [hfirst] at hfirst'
      cases hfirst'
      rw [ih hlater']

/-- Batches of one line each. -/
private theorem flatMap_cons_of_length {batches : List (Bytes × List Bytes)}
    (h : (batches.flatMap fun batch => batch.1 :: batch.2).length = batches.length) :
    (batches.flatMap fun batch => batch.1 :: batch.2) = batches.map Prod.fst := by
  have hle : ∀ later : List (Bytes × List Bytes),
      later.length ≤ (later.flatMap fun batch => batch.1 :: batch.2).length := by
    intro later
    induction later with
    | nil => exact Nat.le_refl 0
    | cons batch later ih =>
      rw [List.flatMap_cons, List.length_append, List.length_cons, List.length_cons]
      omega
  induction batches with
  | nil => rfl
  | cons batch batches ih =>
    obtain ⟨line, dropped⟩ := batch
    have hlater := hle batches
    rw [List.flatMap_cons, List.length_append, List.length_cons, List.length_cons] at h
    dsimp only at h
    have hnone : dropped = [] := by
      apply List.eq_nil_of_length_eq_zero
      omega
    rw [List.flatMap_cons, List.map_cons, hnone, ih (by omega)]
    rfl

/-- As many line feeds as requests: each request has read its own line and no other. -/
theorem session_lines {asked : List Asked} {responses : List Response}
    (h : session L limits deadline asked {} = (.returned responses, t))
    (hcount : t.received.count 0x0A = asked.length) :
    ∃ lines, Parsed 0x0A t.received lines t.out ∧ Answers L limits 1 (asked.map Asked.question) lines responses := by
  have hnew : Bounded limits {} := ⟨Nat.zero_le _, Nat.zero_le _, List.not_mem_nil⟩
  obtain ⟨-, batches, hreceives, hanswers⟩ := session_reads hnew h
  obtain ⟨data, hdata, hparsed⟩ := hreceives.data
  rw [show t.received = data from hdata] at hcount ⊢
  rw [show ({} : ChildClient).out ++ data = data from List.nil_append _] at hparsed
  have hlength : (batches.flatMap fun batch => batch.1 :: batch.2).length = batches.length := by
    rw [← hparsed.count_sep, hcount, ← List.length_map (f := Asked.question), hanswers.length, List.length_map]
  rw [flatMap_cons_of_length hlength] at hparsed
  exact ⟨batches.map Prod.fst, hparsed, hanswers⟩

end

/-- The answers of a session do not depend on how the child's output arrives, nor on the clocks: two sessions with the
same questions, over one stream, in which no read completes a line too many, return the same responses. -/
theorem session_cut_independent (L : Library) (limits : Limits) (deadline deadline' : Deadline)
    {asked asked' : List Asked} {responses responses' : List Response} {t t' : ChildClient} {stream : Bytes}
    (hquestions : asked.map Asked.question = asked'.map Asked.question)
    (h : session L limits deadline asked {} = (.returned responses, t))
    (h' : session L limits deadline' asked' {} = (.returned responses', t'))
    (hcount : t.received.count 0x0A = asked.length) (hcount' : t'.received.count 0x0A = asked'.length)
    (hstream : t.received <+: stream) (hstream' : t'.received <+: stream) : responses = responses' := by
  obtain ⟨lines, hparsed, hanswers⟩ := session_lines h hcount
  obtain ⟨lines', hparsed', hanswers'⟩ := session_lines h' hcount'
  obtain ⟨more, rfl⟩ := hstream
  obtain ⟨more', hmore'⟩ := hstream'
  obtain ⟨all, last, hall⟩ := Parsed.exists_parsed (0x0A : UInt8) (t.received ++ more)
  have hfirst := hparsed.records_prefix hall
  rw [← hmore'] at hall
  have hfirst' := hparsed'.records_prefix hall
  rw [← hquestions] at hanswers'
  have hlength : lines.length = lines'.length := hanswers.length.symm.trans hanswers'.length
  have hlines : lines = lines' := (List.prefix_of_prefix_length_le hfirst hfirst' hlength.le).eq_of_length hlength
  rw [← hlines] at hanswers'
  exact hanswers.unique hanswers'

/-- The first two questions; each answer arrives in these reads. -/
def firstQuestions (cut : Bytes → List (List Chunk)) : List Asked :=
  let env line : RequestSurroundings :=
    ⟨0, true, 0, 0, true, 0, (cut (line ++ [0x0A])).map fun chunks => ⟨false, false, 0, 0, chunks⟩⟩
  [⟨⟨.initialization, .dict false []⟩, 1000, env initializeLine⟩, ⟨⟨.toolsList, listParams none⟩, 1000, env toolsLine⟩]

theorem map_question_firstQuestions (cut : Bytes → List (List Chunk)) :
    (firstQuestions cut).map Asked.question =
      [⟨.initialization, .dict false []⟩, ⟨.toolsList, listParams none⟩] := rfl

/-- A line in one read, and in two. -/
def atOnce (line : Bytes) : List (List Chunk) := [[⟨.err, [0x21]⟩, ⟨.out, line⟩]]

def inTwo (line : Bytes) : List (List Chunk) := [[⟨.out, line.take 40⟩], [⟨.out, line.drop 40⟩]]

theorem session_cut_independent_sample : ∃ responses t responses' t',
    session noteLibrary shortRequests ⟨10⟩ (firstQuestions atOnce) {} = (.returned responses, t) ∧
    session noteLibrary shortRequests ⟨20⟩ (firstQuestions inTwo) {} = (.returned responses', t') ∧
    responses = responses' := by
  have hsession : let r := session noteLibrary shortRequests ⟨10⟩ (firstQuestions atOnce) {}
      (r.1.isReturned && r.2.received == initializeLine ++ 0x0A :: toolsLine ++ [0x0A]) = true := by
    decide +kernel
  have hsession' : let r := session noteLibrary shortRequests ⟨20⟩ (firstQuestions inTwo) {}
      (r.1.isReturned && r.2.received == initializeLine ++ 0x0A :: toolsLine ++ [0x0A]) = true := by
    decide +kernel
  obtain ⟨hreturned, hreceived⟩ := Bool.and_eq_true_iff.1 hsession
  obtain ⟨hreturned', hreceived'⟩ := Bool.and_eq_true_iff.1 hsession'
  obtain ⟨responses, t, h⟩ := Program.exists_returned hreturned
  obtain ⟨responses', t', h'⟩ := Program.exists_returned hreturned'
  have hreceived : t.received = initializeLine ++ 0x0A :: toolsLine ++ [0x0A] := by
    have heq := eq_of_beq hreceived
    rwa [h] at heq
  have hreceived' : t'.received = initializeLine ++ 0x0A :: toolsLine ++ [0x0A] := by
    have heq := eq_of_beq hreceived'
    rwa [h'] at heq
  have hcount : (initializeLine ++ 0x0A :: toolsLine ++ [0x0A]).count 0x0A = 2 := by decide +kernel
  have hquestions := (map_question_firstQuestions atOnce).trans (map_question_firstQuestions inTwo).symm
  refine ⟨responses, t, responses', t', h, h', ?_⟩
  exact session_cut_independent noteLibrary shortRequests ⟨10⟩ ⟨20⟩ hquestions h h' (by rw [hreceived, hcount]; rfl)
    (by rw [hreceived', hcount]; rfl) List.prefix_rfl (by rw [hreceived, hreceived'])

end NativeMcp.Agent
