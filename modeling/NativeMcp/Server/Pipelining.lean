import NativeMcp.Scheduler.Threads
import NativeMcp.Server.Correlation
import NativeMcp.Server.Delivery
import NativeMcp.Server.Framing

/-!
# The pipelined server answers like the synchronous one

In a run of `run_stdio` in which nothing fails, is refused or times out, what has been written when it returns is, up
to order, what `process_line` returns for the same lines in turn (`pipelined`).

Such a run takes only the steps of `CalmStep`.  Three invariants of it carry the result: `Progress` (how far the reader
has come and what it has written and submitted), `Ledger` (what the workers have written) and `Calm` (no call is
stopped and every submitted call was accepted).
-/

namespace NativeMcp

open JsonRpc Json

namespace Stdio

open Scheduler (Handle ThreadId ToolSubmitStatus Errand Keeps ScheduledToolCall makeControl requestKey)

variable {N : Nlohmann} {execute : Bytes → Json → ToolExecutionResult} {budget : ResourceBudget}
  {tools : Option ToolService} {input : Bytes} {s s' : State}

/-! ### The scheduler of a run -/

private theorem call_eq_some {request : Scheduler.Request} {position : Reader}
    (h : s.call request position = some s') : ∃ scheduler,
      Scheduler.invoke s.scheduler mainThread request = some scheduler ∧
      s' = { s with scheduler, reader := position } := by
  obtain ⟨scheduler, hi, rfl⟩ := Option.map_eq_some_iff.1 h
  exact ⟨scheduler, hi, rfl⟩

private theorem pass_eq_some {r : Option Scheduler.State} (h : s.pass r = some s') :
    ∃ scheduler, r = some scheduler ∧ s' = { s with scheduler } := by
  obtain ⟨scheduler, hr, rfl⟩ := Option.map_eq_some_iff.1 h
  exact ⟨scheduler, hr, rfl⟩

/-- The scheduler takes at most one step, and what has failed stays failed. -/
private structure Moves (s s' : State) : Prop where
  scheduler : s'.scheduler = s.scheduler ∨ ∃ a, Scheduler.step s.scheduler a = some s'.scheduler
  writerFailed : s.writerFailed = true → s'.writerFailed = true
  inputFailed : s.inputFailed = true → s'.inputFailed = true

private theorem moves_write (s : State) (t : ThreadId) (r : ProcessResult) (good : Bool) :
    (s.write t r good).1.scheduler = s.scheduler ∧ Moves s (s.write t r good).1 := by
  unfold State.write
  split
  · exact ⟨rfl, .inl rfl, id, id⟩
  split
  · exact ⟨rfl, .inl rfl, id, id⟩
  · exact ⟨rfl, .inl rfl, fun _ => rfl, id⟩

private theorem respond_scheduler (s : State) (r : ProcessResult) (good : Bool) :
    (s.respond r good).scheduler = s.scheduler := (moves_write s mainThread r good).1

private theorem moves_respond (s : State) (r : ProcessResult) (good : Bool) : Moves s (s.respond r good) := by
  have hm := (moves_write s mainThread r good).2
  exact ⟨hm.scheduler, hm.writerFailed, hm.inputFailed⟩

private theorem moves_call {request : Scheduler.Request} {position : Reader}
    (h : s.call request position = some s') : Moves s s' := by
  obtain ⟨scheduler, hi, rfl⟩ := call_eq_some h
  exact ⟨.inr ⟨.invoke mainThread request, hi⟩, id, id⟩

private theorem moves_pass {r : Option Scheduler.State} {a : Scheduler.Action}
    (hr : r = Scheduler.step s.scheduler a) (h : s.pass r = some s') : Moves s s' := by
  obtain ⟨scheduler, hs, rfl⟩ := pass_eq_some h
  exact ⟨.inr ⟨a, hr ▸ hs⟩, id, id⟩

private theorem moves_processAction {action : LineAction} {good : Bool}
    (h : s.processAction action good = some s') : Moves s s' := by
  unfold State.processAction at h
  split at h
  · cases h; exact moves_respond ..
  · split at h
    · exact moves_call h
    · cases h; exact ⟨.inl rfl, id, id⟩
  · cases h; exact moves_respond ..
  · split at h
    · exact moves_call h
    · cases h; exact moves_respond ..

private theorem moves_processCurrentLine {good : Bool} (h : s.processCurrentLine N good = some s') : Moves s s' := by
  obtain ⟨⟨action, server⟩, -, h⟩ := Option.bind_eq_some_iff.1 h
  have hm := moves_processAction h
  exact ⟨hm.scheduler, hm.writerFailed, hm.inputFailed⟩

private theorem moves_read {broken good : Bool} (h : s.read N broken good = some s') : Moves s s' := by
  unfold State.read at h
  split at h
  · split at h
    · cases h; exact ⟨.inl rfl, id, fun _ => rfl⟩
    split at h
    · have hm := moves_processCurrentLine h
      exact ⟨hm.scheduler, hm.writerFailed, hm.inputFailed⟩
    · cases h
      unfold State.push
      split
      · exact ⟨.inl rfl, id, id⟩
      split <;> exact ⟨.inl rfl, id, id⟩
  · split at h
    · unfold State.finish at h
      split at h
      · exact moves_call h
      · cases h; exact ⟨.inl rfl, id, id⟩
    split at h
    · cases h; exact ⟨.inl rfl, id, fun _ => rfl⟩
    split at h
    · have hm := moves_processCurrentLine h
      exact ⟨hm.scheduler, hm.writerFailed, hm.inputFailed⟩
    · cases h; exact ⟨.inl rfl, id, id⟩

private theorem moves_exit (h : s.exit = some s') : Moves s s' := by
  unfold State.exit at h
  split at h
  · split at h
    · exact moves_call h
    · cases h; exact ⟨.inl rfl, id, id⟩
  · exact moves_call h
  · cases h

private theorem moves_answered {good : Bool} (h : s.answered good = some s') :
    s'.scheduler = s.scheduler ∧ Moves s s' := by
  unfold State.answered at h
  split at h
  · split at h
    · cases h
    · cases h; exact ⟨rfl, .inl rfl, id, id⟩
    · obtain ⟨r, -, rfl⟩ := Option.map_eq_some_iff.1 h
      exact ⟨respond_scheduler .., moves_respond ..⟩
  · cases h; exact ⟨rfl, .inl rfl, id, id⟩
  · cases h; exact ⟨rfl, .inl rfl, id, id⟩
  · cases h; exact ⟨rfl, .inl rfl, id, id⟩
  all_goals cases h

private theorem moves_advance {frame : Bool} {wake : Option Nat} {good : Bool}
    (h : s.advance frame wake good = some s') : Moves s s' := by
  obtain ⟨scheduler, ht, h⟩ := Option.bind_eq_some_iff.1 h
  dsimp only at h
  split at h
  · obtain ⟨hs, hm⟩ := moves_answered h
    exact ⟨.inr ⟨.thread mainThread frame wake, hs ▸ ht⟩, hm.writerFailed, hm.inputFailed⟩
  · cases h
    exact ⟨.inr ⟨.thread mainThread frame wake, ht⟩, id, id⟩

private theorem moves_complete {w : Nat} {h : Handle} {result : ToolExecutionResult} {good : Bool}
    (hs : s.complete w h result good = some s') : Moves s s' := by
  unfold State.complete at hs
  split at hs
  · cases hs; exact ⟨.inl rfl, id, id⟩
  · rename_i r _
    obtain ⟨hw, hm⟩ := moves_write s (.worker w) r good
    split at hs
    · rename_i s₁ he
      cases hs
      rw [he] at hw hm
      exact ⟨.inl hw, hm.writerFailed, hm.inputFailed⟩
    · rename_i s₁ he
      obtain ⟨scheduler, hi, rfl⟩ := Option.map_eq_some_iff.1 hs
      rw [he] at hw hm
      exact ⟨.inr ⟨.invoke (.worker w) .requestStop, hw ▸ hi⟩, hm.writerFailed, hm.inputFailed⟩

private theorem moves_step {a : Action} (h : step N execute s a = some s') : Moves s s' := by
  cases a with
  | read broken good =>
    simp only [step] at h
    split at h
    · exact moves_read h
    · cases h
  | exit => exact moves_exit h
  | advance frame wake good => exact moves_advance h
  | work w good =>
    simp only [step] at h
    split at h
    · unfold State.work at h
      split at h
      · exact moves_complete h
      · exact moves_pass (a := .worker w (s.outcome execute w)) rfl h
    · cases h
  | stop w frame wake => exact moves_pass (a := .thread (.worker w) frame wake) rfl h
  | wakeWorker w => exact moves_pass rfl h
  | wakeReader => exact moves_pass rfl h
  | tick => exact moves_pass rfl h

/-- The scheduler of `run_stdio` runs as a scheduler. -/
theorem projection (N : Nlohmann) (execute : Bytes → Json → ToolExecutionResult) (budget : ResourceBudget)
    (tools : Option ToolService) (input : Bytes) :
    (machine N execute budget tools input).system.Projection (Scheduler.system budget) State.scheduler where
  init s hs := by
    obtain rfl := hs
    rfl
  step s s' _ _ h := by
    obtain ⟨a, h⟩ := h
    exact (moves_step h).scheduler

theorem scheduler_reachable (hs : (machine N execute budget tools input).system.Reachable s) :
    (Scheduler.system budget).Reachable s.scheduler := (projection N execute budget tools input).reachable hs

/-! ### The actions of the lines -/

/-- A call as it is submitted. -/
def scheduled (call : PreparedToolCall) : ScheduledToolCall := ⟨call.requestId, call.name, call.arguments⟩

/-- What the server makes of lines in turn, without executing the calls. -/
def acceptLines (N : Nlohmann) (server : Server) : List Bytes → Option (List LineAction × Server)
  | [] => some ([], server)
  | line :: lines => do
    let (action, server) ← server.acceptLine N line
    let (actions, server) ← acceptLines N server lines
    return (action :: actions, server)

private theorem acceptLines_snoc {server server₁ server₂ : Server} {lines : List Bytes} {line : Bytes}
    {actions : List LineAction} {action : LineAction} (h : acceptLines N server lines = some (actions, server₁))
    (hl : server₁.acceptLine N line = some (action, server₂)) :
    acceptLines N server (lines ++ [line]) = some (actions ++ [action], server₂) := by
  induction lines generalizing server actions with
  | nil =>
    cases h
    simp [acceptLines, hl]
  | cons l lines ih =>
    obtain ⟨⟨a, next⟩, ha, h⟩ := Option.bind_eq_some_iff.1 h
    obtain ⟨⟨as, last⟩, has, h⟩ := Option.bind_eq_some_iff.1 h
    cases h
    have ht := ih has
    simp [acceptLines, ha, ht]

/-- An action of a line that is no cancellation. -/
inductive Plain (tools : Option ToolService) : LineAction → Prop where
  | immediate (result : ProcessResult) : Plain tools { immediate := some result }
  | toolCall (call : PreparedToolCall) (ht : tools.isSome = true) (hv : isValidId call.requestId = true)
      (hu : call.requestId.isUtf8 = true) : Plain tools { toolCall := some call }

/-- A line that is no cancellation the server acts on. -/
def NoNotice (N : Nlohmann) (line : Bytes) : Prop := ∀ m, N.parse line = some m → ¬ IsCancellation m

private theorem plain_of_respond {server server' : Server} {response : Json} {nextState : Option LifecycleState}
    {diagnostic : Option String} {action : LineAction}
    (h : server.respond response nextState diagnostic = some (action, server')) : Plain tools action := by
  obtain ⟨r, -, h⟩ := Option.map_eq_some_iff.1 h
  cases h
  exact .immediate _

private theorem plain_of_acceptLine {server server' : Server} {line : Bytes} {action : LineAction}
    (h : server.acceptLine N line = some (action, server')) (hn : NoNotice N line) : Plain server.tools action := by
  have hcase := server.acceptLine_case N line
  rw [h] at hcase
  generalize hr : some (action, server') = r at hcase
  cases hcase with
  | unreadable code message _ => exact plain_of_respond hr.symm
  | @message m r readable hm =>
    cases hm with
    | error | opened | ping | list => exact plain_of_respond hr.symm
    | ignored => cases hr; exact .immediate _
    | initialized => cases hr; exact .immediate _
    | call request _ known _ =>
      cases hr
      have hu : m.isUtf8 = true := N.isUtf8_of_parse line m readable.parse
      refine .toolCall _ ?_ request.valid (request.isUtf8 hu)
      cases ht : server.tools with
      | none => simp [ht] at known
      | some _ => rfl
    | cancellation notice _ _ =>
      have ha : server.acceptMessage m = some (action, server') := by
        have he : server.acceptLine N line = server.acceptMessage m := by
          unfold Server.acceptLine
          rw [if_neg (by have := readable.fits; omega), readable.preflight]
          simp only [readable.parse]
        exact he.symm.trans h
      cases hr
      exact absurd (Server.isCancellation_of_acceptMessage ha rfl).1 (hn m readable.parse)

private theorem acceptLine_keeps {server server' : Server} {line : Bytes} {action : LineAction}
    (h : server.acceptLine N line = some (action, server')) :
    server'.budget = server.budget ∧ server'.tools = server.tools := by
  obtain ⟨a, next, ha, hlaw⟩ := acceptLine_lifecycle N server line
  obtain ⟨rfl, rfl⟩ := Prod.mk.inj (Option.some.inj (ha.symm.trans h))
  exact ⟨hlaw.budget, hlaw.tools⟩

/-! ### The synchronous path -/

private theorem formatToolResult_congr {server server' : Server} (hb : server'.budget = server.budget) (id : Json)
    (execution : ToolExecutionResult) : server'.formatToolResult id execution = server.formatToolResult id execution := by
  unfold Server.formatToolResult
  rw [hb]

/-- The line written for a call. -/
def callLine (execute : Bytes → Json → ToolExecutionResult) (server : Server) (call : ScheduledToolCall) :
    Option Bytes := server.callbackResponse call.requestId (execute call.name call.arguments)

/-- The line written for an action. -/
def actionLine (execute : Bytes → Json → ToolExecutionResult) (server : Server) (action : LineAction) :
    Option Bytes := action.response.or ((action.toolCall.map scheduled).bind (callLine execute server))

/-- `process_line` runs through the same actions and answers each with its line. -/
private theorem processLines_eq {server₀ server server' : Server} {lines : List Bytes} {actions : List LineAction}
    (hex : ∀ name arguments, (execute name arguments).structuredContent.isUtf8 = true)
    (hb : server.budget = server₀.budget) (hn : ∀ line ∈ lines, NoNotice N line)
    (h : acceptLines N server lines = some (actions, server')) :
    ∃ results, processLines N execute server lines = some results ∧
      results.map (fun r => (r.1, r.2.response)) =
        actions.map fun a => (a.toolCall.isSome, actionLine execute server₀ a) := by
  induction lines generalizing server actions with
  | nil =>
    cases h
    exact ⟨[], rfl, rfl⟩
  | cons line lines ih =>
    obtain ⟨⟨a, next⟩, ha, h⟩ := Option.bind_eq_some_iff.1 h
    obtain ⟨⟨as, last⟩, has, h⟩ := Option.bind_eq_some_iff.1 h
    cases h
    obtain ⟨hbudget, htools⟩ := acceptLine_keeps ha
    obtain ⟨results, hr, he⟩ := ih (hbudget.trans hb) (fun l hl => hn l (List.mem_cons_of_mem _ hl)) has
    -- the answer to the first line
    have hfirst : ∃ r, server.processLine N execute line = some (r, next) ∧ r.response = actionLine execute server₀ a := by
      have hplain := plain_of_acceptLine ha (hn line (List.mem_cons_self ..))
      cases hplain with
      | immediate r =>
        refine ⟨r, by simp [Server.processLine, ha], ?_⟩
        simp [actionLine, LineAction.response]
      | toolCall call ht hv hu =>
        obtain ⟨r, hr, -⟩ := exists_formatToolResult next hv hu (hex call.name call.arguments)
        have hnext : next.tools ≠ none := by
          rw [htools]
          exact Option.isSome_iff_ne_none.1 ht
        refine ⟨r, by simp [Server.processLine, ha, hnext, hr], ?_⟩
        have hr₀ : server₀.formatToolResult call.requestId (execute call.name call.arguments) = some r := by
          rw [← hr]
          exact formatToolResult_congr (hbudget.trans hb).symm _ _
        simp [actionLine, LineAction.response, callLine, scheduled, Server.callbackResponse, hr₀]
    obtain ⟨r, hp, hresponse⟩ := hfirst
    refine ⟨(a.toolCall.isSome, r) :: results, ?_, ?_⟩
    · simp [processLines, ha, hp, hr]
    · rw [List.map_cons, List.map_cons, he, hresponse]

/-! ### The steps of an undisturbed run -/

/-- Nothing has failed, no call was refused, and none has timed out. -/
structure Undisturbed (s : State) : Prop where
  written : s.writerFailed = false
  received : s.inputFailed = false
  accepted : ∀ h status, .submitReturned h status ∈ s.scheduler.history → status = .accepted
  inTime : ∀ h, .timedOut h ∉ s.scheduler.history

/-- A run is undisturbed only if it was before. -/
private theorem Undisturbed.of_step {a : Action} (hu : Undisturbed s') (h : step N execute s a = some s') :
    Undisturbed s := by
  have hm := moves_step h
  have hh : ∃ es, s'.scheduler.history = es ++ s.scheduler.history := by
    rcases hm.scheduler with he | ⟨a, ha⟩
    · exact ⟨[], by rw [he]; rfl⟩
    · exact Scheduler.history_of_step ha
  obtain ⟨es, hh⟩ := hh
  refine ⟨?_, ?_, fun k status hk => ?_, fun k hk => ?_⟩
  · exact Bool.eq_false_iff.2 fun hw => Bool.eq_false_iff.1 hu.written (hm.writerFailed hw)
  · exact Bool.eq_false_iff.2 fun hw => Bool.eq_false_iff.1 hu.received (hm.inputFailed hw)
  · exact hu.accepted k status (by rw [hh]; exact List.mem_append_right _ hk)
  · exact hu.inTime k (by rw [hh]; exact List.mem_append_right _ hk)

/-- The positions of the reader in an undisturbed run, with what its thread is in the scheduler for. -/
inductive Matches : Reader → Errand → Prop where
  | reading : Matches .reading .none
  | submitting (id : Json) (h : Handle) : Matches (.submitting id) (.submit h)
  | shuttingDown (status : Nat) : Matches (.shuttingDown status) .shutdown
  | returned (status : Nat) : Matches (.returned status) .none

/-- What the scheduler may record in a step of an undisturbed run. -/
structure Allowed (execute : Bytes → Json → ToolExecutionResult) (s : State) (e : Scheduler.Event) : Prop where
  unmarked : ∀ h, ¬ e.Marks h
  computed : ∀ h result, e = .executorReturned h result → (∃ w, s.scheduler.worker w = .running h) ∧
    result = execute (s.scheduler.control h).call.name (s.scheduler.control h).call.arguments
  called : ∀ h, e = .completionReturned h → s.callback h ≠ .pending

/-- Where the reader is after a call of the scheduler. -/
inductive AfterCall : Reader → Reader → Prop where
  | submitted (id : Json) : AfterCall (.submitting id) .reading
  | shutDown (status status' : Nat) : AfterCall (.shuttingDown status) (.returned status')

/-- The steps of an undisturbed run. -/
inductive CalmStep (N : Nlohmann) (execute : Bytes → Json → ToolExecutionResult) (s : State) : State → Prop where
  | byte (c : UInt8) (rest : Bytes) (hr : s.reader = .reading) (hi : s.input = c :: rest) (hc : c ≠ 0x0A) :
      CalmStep N execute s ({ s with input := rest }.push c)
  | ended (hr : s.reader = .reading) (hi : s.input = []) : CalmStep N execute s { s with ended := true }
  | answered (s₀ : State) (server : Server) (result : ProcessResult) (hr : s.reader = .reading) (he : LineEnd s s₀)
      (ha : s₀.currentAction N = some ({ immediate := some result }, server)) :
      CalmStep N execute s { s₀ with
        server, line := [], oversized := false, reader := .reading
        output := s.output ++ (result.response.map fun line => (mainThread, line)).toList }
  | submitted (s₀ : State) (server : Server) (call : PreparedToolCall) (key : Bytes) (hr : s.reader = .reading)
      (he : LineEnd s s₀) (ha : s₀.currentAction N = some ({ toolCall := some call }, server))
      (ht : s.hasScheduler = true) :
      CalmStep N execute s { s₀ with
        server, line := [], oversized := false, reader := .submitting call.requestId
        scheduler := makeControl s.scheduler mainThread (scheduled call) key }
  | closing (hr : s.reader = .reading) (hi : s.input = []) :
      CalmStep N execute s { s with
        scheduler := s.scheduler.setOp mainThread .shuttingDown, reader := .shuttingDown 0 }
  | left (status : Nat) (hr : s.reader = .reading) (hi : s.input = []) (ht : s.hasScheduler = false) :
      CalmStep N execute s { s with reader := .returned status }
  | passed (scheduler : Scheduler.State) (hk : Keeps s.scheduler (Allowed execute s) scheduler)
      (he : ∀ t, (scheduler.op t).errand = (s.scheduler.op t).errand) : CalmStep N execute s { s with scheduler }
  | returned (scheduler : Scheduler.State) (reader : Reader)
      (hk : Keeps s.scheduler (Allowed execute s) scheduler) (ho : scheduler.op mainThread = .idle)
      (hc : ∀ t, t ≠ mainThread → (scheduler.op t).errand = (s.scheduler.op t).errand)
      (ha : Scheduler.Answered mainThread scheduler (s.scheduler.op mainThread).errand)
      (hr : AfterCall s.reader reader) : CalmStep N execute s { s with scheduler, reader }
  | wrote (w : Nat) (h : Handle) (result : ToolExecutionResult) (hw : s.scheduler.worker w = .running h)
      (hp : s.scheduler.pc h = .completing result) (hc : s.callback h = .pending) (line : Option Bytes)
      (hl : line = s.server.callbackResponse (s.scheduler.control h).call.requestId result) :
      CalmStep N execute s { s with
        callback := Function.update s.callback h (.wrote line)
        output := s.output ++ (line.map fun line => (ThreadId.worker w, line)).toList }

/-- The thread of `run_stdio` is where the reader is, and no other thread is in a call of the scheduler. -/
structure Aligned (s : State) : Prop where
  reader : Matches s.reader (s.scheduler.op mainThread).errand
  others : ∀ t, t ≠ mainThread → s.scheduler.op t = .idle

private theorem write_calm {t : ThreadId} {r : ProcessResult} {good : Bool}
    (h : (s.write t r good).1.writerFailed = false) :
    s.write t r good = ({ s with output := s.output ++ (r.response.map fun line => (t, line)).toList }, true) := by
  unfold State.write at h ⊢
  split at h
  · rename_i hf
    cases h.symm.trans hf
  rename_i hf
  rw [if_neg hf]
  split at h
  · rename_i hg
    rw [if_pos hg]
  · cases h

private theorem respond_calm {r : ProcessResult} {good : Bool} (h : (s.respond r good).writerFailed = false) :
    s.respond r good = { s with
      reader := .reading, output := s.output ++ (r.response.map fun line => (mainThread, line)).toList } := by
  have hw : s.write mainThread r good =
      ({ s with output := s.output ++ (r.response.map fun line => (mainThread, line)).toList }, true) := write_calm h
  rw [State.respond, hw]
  rfl

private theorem currentAction_keeps {action : LineAction} {server : Server}
    (h : s.currentAction N = some (action, server)) :
    server.budget = s.server.budget ∧ server.tools = s.server.tools := by
  unfold State.currentAction at h
  split at h
  · obtain ⟨r, -, h⟩ := Option.map_eq_some_iff.1 h
    cases h
    exact ⟨rfl, rfl⟩
  · exact acceptLine_keeps h

private theorem Aligned.idle (ha : Aligned s) (hr : s.reader = .reading) : s.scheduler.op mainThread = .idle := by
  have hm := ha.reader
  rw [hr] at hm
  generalize he : (s.scheduler.op mainThread).errand = e at hm
  cases hm
  exact Scheduler.errand_eq_none.1 he

private theorem LineEnd.eq {s₀ : State} (he : LineEnd s s₀) :
    s₀.scheduler = s.scheduler ∧ s₀.server = s.server ∧ s₀.output = s.output ∧ s₀.writerFailed = s.writerFailed := by
  cases he <;> exact ⟨rfl, rfl, rfl, rfl⟩

/-- A line is answered or submitted. -/
private theorem calmStep_line {s₀ : State} {good : Bool} (hu : Undisturbed s') (hr : s.reader = .reading)
    (he : LineEnd s s₀)
    (hline : ∀ action server, s₀.currentAction N = some (action, server) → Plain s.server.tools action)
    (h : s₀.processCurrentLine N good = some s') : CalmStep N execute s s' := by
  obtain ⟨⟨action, server⟩, hc, h⟩ := Option.bind_eq_some_iff.1 h
  obtain ⟨hscheduler, hserver, houtput, -⟩ := he.eq
  have htools : server.tools = s.server.tools := by rw [(currentAction_keeps hc).2, hserver]
  dsimp only at h
  have hplain := hline action server hc
  cases hplain with
  | immediate r =>
    have h : State.respond { s₀ with server, line := [], oversized := false } r good = s' := Option.some.inj h
    have hw := hu.written
    rw [← h] at hw ⊢
    rw [respond_calm hw]
    dsimp only
    rw [houtput]
    exact .answered s₀ server r hr he hc
  | toolCall call ht _ _ =>
    have hs : State.hasScheduler { s₀ with server, line := [], oversized := false } = true := by
      rw [State.hasScheduler]
      exact (congrArg Option.isSome htools).trans ht
    simp only [State.processAction, hs, if_true] at h
    obtain ⟨scheduler, hi, rfl⟩ := call_eq_some h
    unfold Scheduler.invoke at hi
    split at hi
    · obtain ⟨key, -, rfl⟩ := Option.map_eq_some_iff.1 hi
      dsimp only
      rw [hscheduler]
      exact .submitted s₀ server call key hr he hc ht
    · cases hi

private theorem calmStep_read {broken good : Bool} (hu : Undisturbed s') (hr : s.reader = .reading)
    (hline : ∀ s₀ action server, LineEnd s s₀ → s₀.currentAction N = some (action, server) →
      Plain s.server.tools action)
    (h : s.read N broken good = some s') : CalmStep N execute s s' := by
  unfold State.read at h
  split at h
  · rename_i c rest hi
    split at h
    · cases h
      cases hu.received
    split at h
    · rename_i hc
      subst hc
      exact calmStep_line hu hr (.newline rest hi) (fun a v => hline _ a v (.newline rest hi)) h
    · rename_i hc
      cases h
      exact .byte c rest hr hi hc
  · rename_i hi
    split at h
    · unfold State.finish at h
      split at h
      · obtain ⟨scheduler, hs, rfl⟩ := call_eq_some h
        unfold Scheduler.invoke at hs
        split at hs
        · cases hs
          exact .closing hr hi
        · cases hs
      · rename_i ht
        cases h
        exact .left _ hr hi (by simpa using ht)
    split at h
    · cases h
      cases hu.received
    split at h
    · rename_i hl
      have he : LineEnd s { s with ended := true } := by
        refine .ending hi ?_
        simpa [Bool.or_eq_true] using hl
      exact calmStep_line hu hr he (fun a v => hline _ a v he) h
    · cases h
      exact .ended hr hi

private theorem Aligned.unsignalled (ha : Aligned s) : (s.scheduler.op mainThread).errand ≠ .signal := by
  have hm := ha.reader
  intro he
  rw [he] at hm
  generalize s.reader = r at hm
  cases hm

private theorem allowed_of_threadEvent {errand : Errand} (hn : errand ≠ .signal) {e : Scheduler.Event}
    (he : Scheduler.ThreadEvent errand e) : Allowed execute s e := by
  cases he with
  | cancelHit h he => exact absurd he hn
  | stopHit h he => exact absurd he hn
  | _ => exact ⟨fun h hm => (by cases hm), nofun, nofun⟩

private theorem calmStep_advance {frame : Bool} {wake : Option Nat} {good : Bool} (hu : Undisturbed s')
    (ha : Aligned s) (h : s.advance frame wake good = some s') : CalmStep N execute s s' := by
  obtain ⟨scheduler, ht, h⟩ := Option.bind_eq_some_iff.1 h
  have hk : Keeps s.scheduler (Allowed execute s) scheduler :=
    (Scheduler.threadStep_keeps ht).mono fun e => allowed_of_threadEvent ha.unsignalled
  have hc := Scheduler.threadStep_continues ht
  dsimp only at h
  split at h
  · rename_i hi
    have hi := Scheduler.isIdle_iff.1 hi
    have hanswered : Scheduler.Answered mainThread scheduler (s.scheduler.op mainThread).errand := by
      rcases hc.own with ho | ⟨-, ho⟩
      · -- the thread was in a call
        rw [hi] at ho
        have hidle := Scheduler.errand_eq_none.1 ho.symm
        simp [Scheduler.threadStep, hidle] at ht
      · exact ho
    have hafter (reader : Reader) (hr : AfterCall s.reader reader) : CalmStep N execute s { s with scheduler, reader } :=
      .returned scheduler reader hk hi hc.others hanswered hr
    unfold State.answered at h
    have hm := ha.reader
    split at h
    · rename_i id hr
      split at h
      · cases h
      · cases h
        have hw : s.writerFailed = false := hu.written
        have hs := hafter .reading (by rw [show s.reader = _ from hr]; exact .submitted id)
        rw [State.proceed]
        simpa only [hw, Bool.not_false, if_true] using hs
      · rename_i status hn hstatus
        obtain ⟨r, -, rfl⟩ := Option.map_eq_some_iff.1 h
        have hsub : ∃ h, .submitReturned h status ∈ scheduler.history := by
          unfold State.submitted at hstatus
          split at hstatus
          · rename_i h' status' es hh
            cases hstatus
            exact ⟨h', by rw [show scheduler.history = _ from hh]; exact List.mem_cons_self ..⟩
          · cases hstatus
        obtain ⟨h', hmem⟩ := hsub
        have hacc := hu.accepted h' status (by rw [respond_scheduler]; exact hmem)
        exact absurd hacc hn
    · rename_i hr
      rw [show s.reader = _ from hr] at hm
      cases hm
    · rename_i hr
      rw [show s.reader = _ from hr] at hm
      cases hm
    · rename_i status hr
      cases h
      exact hafter _ (by rw [show s.reader = _ from hr]; exact .shutDown status _)
    all_goals cases h
  · rename_i hi
    cases h
    refine .passed scheduler hk fun t => ?_
    by_cases htm : t = mainThread
    · subst htm
      rcases hc.own with ho | ⟨ho, -⟩
      · exact ho
      · exact absurd (Scheduler.isIdle_iff.2 ho) hi
    · exact hc.others t htm

private theorem toComplete_eq_some {w : Nat} {h : Handle} {result : ToolExecutionResult}
    (ht : s.toComplete w = some (h, result)) : s.scheduler.worker w = .running h ∧
      s.scheduler.pc h = .completing result ∧ s.callback h = .pending := by
  unfold State.toComplete at ht
  split at ht
  · rename_i k hw
    split at ht
    · rename_i r hp hc
      cases ht
      exact ⟨hw, hp, hc⟩
    · cases ht
  · cases ht

private theorem ne_pending_of_toComplete {w : Nat} {h : Handle} {result : ToolExecutionResult}
    (ht : s.toComplete w = none) (hw : s.scheduler.worker w = .running h)
    (hp : s.scheduler.pc h = .completing result) : s.callback h ≠ .pending := by
  intro hc
  simp [State.toComplete, hw, hp, hc] at ht

private theorem allowed_of_workerEvent {w : Nat} (ht : s.toComplete w = none) {e : Scheduler.Event}
    (he : Scheduler.WorkerEvent s.scheduler w (s.outcome execute w) e) : Allowed execute s e := by
  cases he with
  | returned h hw =>
    refine ⟨fun h hm => (by cases hm), fun k result hk => ?_, nofun⟩
    cases hk
    refine ⟨⟨w, hw⟩, ?_⟩
    simp only [State.outcome, hw]
    rfl
  | completed h result hw hp =>
    refine ⟨fun h hm => (by cases hm), nofun, fun k hk => ?_⟩
    cases hk
    exact ne_pending_of_toComplete ht hw hp
  | _ => exact ⟨fun h hm => (by cases hm), nofun, nofun⟩

private theorem calmStep_complete {w : Nat} {h : Handle} {result : ToolExecutionResult} {good : Bool}
    (hu : Undisturbed s') (ht : s.toComplete w = some (h, result)) (hs : s.complete w h result good = some s') :
    CalmStep N execute s s' := by
  obtain ⟨hw, hp, hc⟩ := toComplete_eq_some ht
  have hstep (line : Option Bytes)
      (hl : line = s.server.callbackResponse (s.scheduler.control h).call.requestId result) :
      CalmStep N execute s { s with
        callback := Function.update s.callback h (.wrote line)
        output := s.output ++ (line.map fun line => (ThreadId.worker w, line)).toList } :=
    .wrote w h result hw hp hc line hl
  unfold State.complete at hs
  split at hs
  · rename_i hf
    cases hs
    have hs := hstep none (by rw [Server.callbackResponse, hf]; rfl)
    simpa only [Option.map_none, Option.toList_none, List.append_nil] using hs
  · rename_i r hf
    have hgood : (s.write (.worker w) r good).1.writerFailed = false := by
      split at hs
      · rename_i s₁ he
        cases hs
        rw [he]
        exact hu.written
      · rename_i s₁ he
        obtain ⟨scheduler, -, rfl⟩ := Option.map_eq_some_iff.1 hs
        rw [he]
        exact hu.written
    rw [write_calm hgood] at hs
    cases hs
    exact hstep r.response (by rw [Server.callbackResponse, hf]; rfl)

theorem calmStep_of_step {a : Action} (hu : Undisturbed s') (ha : Aligned s)
    (hline : ∀ s₀ action server, LineEnd s s₀ → s₀.currentAction N = some (action, server) →
      Plain s.server.tools action)
    (h : step N execute s a = some s') : CalmStep N execute s s' := by
  have hm := ha.reader
  cases a with
  | read broken good =>
    simp only [step] at h
    split at h
    · rename_i hr
      exact calmStep_read hu hr hline h
    · cases h
  | exit =>
    simp only [step, State.exit] at h
    split at h
    · rename_i hr
      rw [hr] at hm
      cases hm
    · rename_i hr
      rw [hr] at hm
      cases hm
    · cases h
  | advance frame wake good => exact calmStep_advance hu ha h
  | work w good =>
    simp only [step] at h
    split at h
    · unfold State.work at h
      split at h
      · rename_i k result ht
        exact calmStep_complete hu ht h
      · rename_i ht
        obtain ⟨scheduler, hw, rfl⟩ := pass_eq_some h
        exact .passed scheduler ((Scheduler.workerStep_keeps hw).mono fun e => allowed_of_workerEvent ht)
          (Scheduler.workerStep_errand hw)
    · cases h
  | stop w frame wake =>
    obtain ⟨scheduler, ht, rfl⟩ := pass_eq_some h
    have ho := ha.others (.worker w) (by intro hw; cases hw)
    simp [Scheduler.threadStep, ho] at ht
  | wakeWorker w =>
    obtain ⟨scheduler, ht, rfl⟩ := pass_eq_some h
    cases ht
    exact .passed _ ⟨rfl, fun _ => rfl, [], rfl, fun e he => absurd he List.not_mem_nil⟩ fun _ => rfl
  | wakeReader =>
    obtain ⟨scheduler, ht, rfl⟩ := pass_eq_some h
    cases ht
    refine .passed _ ⟨rfl, fun _ => rfl, [], rfl, fun e he => absurd he List.not_mem_nil⟩ fun t => ?_
    by_cases htm : t = mainThread
    · subst htm
      simp [Scheduler.State.setOp, Scheduler.errand_wake]
    · simp [Scheduler.State.setOp, htm]
  | tick =>
    obtain ⟨scheduler, ht, rfl⟩ := pass_eq_some h
    cases ht
    exact .passed _ ⟨rfl, fun _ => rfl, [], rfl, fun e he => absurd he List.not_mem_nil⟩ fun _ => rfl

/-! ### What the reader has done -/

/-- A line without newlines and carriage returns that is no cancellation. -/
structure Clean (N : Nlohmann) (line : Bytes) : Prop where
  newline : 0x0A ∉ line
  carriageReturn : 0x0D ∉ line
  notice : NoNotice N line

/-- The lines that the reader has written. -/
def State.readerLines (s : State) : List Bytes := (s.output.filter fun e => e.1 = mainThread).map Prod.snd

/-- The lines that the workers have written. -/
def State.workerLines (s : State) : List Bytes := (s.output.filter fun e => !decide (e.1 = mainThread)).map Prod.snd

/-- The reader has read its input to the end. -/
def Reader.IsOver : Reader → Prop
  | .shuttingDown _ | .returned _ => True
  | _ => False

/-- How far the reader has come: it has handled `done`, and `consumed` is what it has read of the first line of
`rest`. -/
structure Progress (N : Nlohmann) (lines : List Bytes) (server₀ : Server) (s : State) (done rest : List Bytes)
    (consumed : Bytes) (actions : List LineAction) : Prop where
  split : lines = done ++ rest
  framed : consumed ++ s.input = unlines rest
  unfinished : 0x0A ∉ consumed
  line : s.line = consumed.take s.server.budget.maxRequestBytes
  oversized : s.oversized = decide (s.server.budget.maxRequestBytes < consumed.length)
  accepted : acceptLines N server₀ done = some (actions, s.server)
  written : s.readerLines = actions.filterMap (·.response)
  submitted : (List.range s.scheduler.fresh).map (fun h => (s.scheduler.control h).call) =
    actions.filterMap fun a => a.toolCall.map scheduled
  drained : s.reader.IsOver → s.input = []

private theorem withoutCarriageReturn_eq {line : Bytes} (h : 0x0D ∉ line) :
    State.withoutCarriageReturn line = line := by
  rw [State.withoutCarriageReturn, if_neg]
  intro hl
  exact h (List.mem_of_getLast? hl)

/-- The oversized flag stands for what the server would find. -/
private theorem currentAction_eq {line : Bytes} (hl : s.line = line.take s.server.budget.maxRequestBytes)
    (ho : s.oversized = decide (s.server.budget.maxRequestBytes < line.length)) (hc : 0x0D ∉ line) :
    s.currentAction N = s.server.acceptLine N line := by
  unfold State.currentAction
  by_cases hlong : s.server.budget.maxRequestBytes < line.length
  · rw [if_pos (by rw [ho]; exact decide_eq_true hlong), Server.acceptLine, if_pos hlong]
  · have hshort : s.line = line := by rw [hl, List.take_of_length_le (by omega)]
    rw [if_neg (by rw [ho]; simpa using hlong), hshort, withoutCarriageReturn_eq hc]

section

variable {lines done rest : List Bytes} {server₀ : Server} {consumed : Bytes} {actions : List LineAction}

/-- A line ends where the next of the lines does. -/
private theorem Progress.lineEnd {s₀ : State} (hp : Progress N lines server₀ s done rest consumed actions)
    (hclean : ∀ line ∈ lines, Clean N line) (he : LineEnd s s₀) :
    ∃ line more, rest = line :: more ∧ line ∈ lines ∧ s₀.input = unlines more ∧
      s₀.currentAction N = s.server.acceptLine N line := by
  cases he with
  | newline input hi =>
    have hframed := hp.framed
    rw [hi] at hframed
    cases rest with
    | nil => simp [unlines] at hframed
    | cons line more =>
      rw [unlines_cons] at hframed
      have hmem : line ∈ lines := by rw [hp.split]; simp
      obtain ⟨rfl, hinput⟩ := append_newline_inj hp.unfinished (hclean line hmem).newline hframed
      exact ⟨consumed, more, rfl, hmem, hinput, currentAction_eq hp.line hp.oversized (hclean _ hmem).carriageReturn⟩
  | ending hi hl =>
    have hframed := hp.framed
    rw [hi, List.append_nil] at hframed
    have hrest : rest = [] := unlines_eq_nil (by rw [← hframed]; exact hp.unfinished)
    rw [hrest] at hframed
    obtain rfl : consumed = [] := hframed
    rcases hl with ho | hl
    · rw [hp.oversized] at ho
      simp at ho
    · exact absurd (hp.line.trans List.take_nil) hl

/-- One more byte of a line. -/
private theorem Progress.byte {c : UInt8} {input : Bytes}
    (hp : Progress N lines server₀ s done rest consumed actions) (hr : s.reader = .reading)
    (hi : s.input = c :: input) (hc : c ≠ 0x0A) :
    Progress N lines server₀ ({ s with input }.push c) done rest (consumed ++ [c]) actions := by
  have hframed : consumed ++ c :: input = unlines rest := by
    rw [← hi]
    exact hp.framed
  have hopen : 0x0A ∉ consumed ++ [c] := by
    simp only [List.mem_append, List.mem_singleton, not_or]
    exact ⟨hp.unfinished, fun he => hc he.symm⟩
  rw [push_eq (s := { s with input }) c rfl hp.line hp.oversized]
  refine ⟨hp.split, ?_, hopen, rfl, rfl, hp.accepted, hp.written, hp.submitted, fun h => ?_⟩
  · rw [List.append_assoc]
    exact hframed
  · rw [show Reader.IsOver _ = Reader.IsOver .reading from congrArg Reader.IsOver hr] at h
    exact h.elim

private theorem readerLines_append (output : List (ThreadId × Bytes)) (t : ThreadId) (line : Option Bytes) :
    ((output ++ (line.map fun line => (t, line)).toList).filter fun e => e.1 = mainThread).map Prod.snd =
      (output.filter fun e => e.1 = mainThread).map Prod.snd ++ if t = mainThread then line.toList else [] := by
  by_cases ht : t = mainThread <;> cases line <;> simp [ht]

private theorem workerLines_append (output : List (ThreadId × Bytes)) (t : ThreadId) (line : Option Bytes) :
    ((output ++ (line.map fun line => (t, line)).toList).filter fun e => !decide (e.1 = mainThread)).map Prod.snd =
      (output.filter fun e => !decide (e.1 = mainThread)).map Prod.snd ++
        if t = mainThread then [] else line.toList := by
  by_cases ht : t = mainThread <;> cases line <;> simp [ht]

/-- The calls of a scheduler that creates one. -/
private theorem calls_makeControl (scheduler : Scheduler.State) (call : ScheduledToolCall) (key : Bytes) :
    (List.range (makeControl scheduler mainThread call key).fresh).map
        (fun h => ((makeControl scheduler mainThread call key).control h).call) =
      (List.range scheduler.fresh).map (fun h => (scheduler.control h).call) ++ [call] := by
  have hfresh : (makeControl scheduler mainThread call key).fresh = scheduler.fresh + 1 := rfl
  rw [hfresh, List.range_succ, List.map_append]
  refine congrArg₂ (· ++ ·) (List.map_congr_left fun h hm => ?_) ?_
  · have hne : h ≠ scheduler.fresh := Nat.ne_of_lt (List.mem_range.1 hm)
    simp [makeControl, hne]
  · simp [makeControl]

/-- The reader goes on as the lines say. -/
private theorem Progress.step (hp : Progress N lines server₀ s done rest consumed actions)
    (hclean : ∀ line ∈ lines, Clean N line) (hs : CalmStep N execute s s') :
    ∃ done' rest' consumed' actions', Progress N lines server₀ s' done' rest' consumed' actions' := by
  cases hs with
  | byte c input hr hi hc => exact ⟨_, _, _, _, hp.byte hr hi hc⟩
  | ended hr hi =>
    exact ⟨_, _, _, _, hp.split, hp.framed, hp.unfinished, hp.line, hp.oversized, hp.accepted, hp.written,
      hp.submitted, hp.drained⟩
  | answered s₀ server result hr he ha =>
    obtain ⟨line, more, rfl, hmem, hinput, hcurrent⟩ := hp.lineEnd hclean he
    obtain ⟨hscheduler, -, houtput, -⟩ := he.eq
    refine ⟨done ++ [line], more, [], actions ++ [{ immediate := some result }], ?_, hinput, nofun, List.take_nil.symm, rfl, ?_,
      ?_,
      ?_, False.elim⟩
    · rw [hp.split, List.append_assoc]
      rfl
    · exact acceptLines_snoc hp.accepted (hcurrent ▸ ha)
    · rw [List.filterMap_append, ← hp.written]
      refine (readerLines_append s.output mainThread result.response).trans ?_
      cases hr : result.response <;> simp [State.readerLines, LineAction.response, hr]
    · rw [List.filterMap_append, ← hp.submitted]
      dsimp only
      rw [hscheduler]
      exact (List.append_nil _).symm
  | submitted s₀ server call key hr he ha ht =>
    obtain ⟨line, more, rfl, hmem, hinput, hcurrent⟩ := hp.lineEnd hclean he
    obtain ⟨-, -, houtput, -⟩ := he.eq
    refine ⟨done ++ [line], more, [], actions ++ [{ toolCall := some call }], ?_, hinput, nofun, List.take_nil.symm, rfl, ?_,
      ?_,
      ?_, False.elim⟩
    · rw [hp.split, List.append_assoc]
      rfl
    · exact acceptLines_snoc hp.accepted (hcurrent ▸ ha)
    · rw [List.filterMap_append, ← hp.written]
      simp [State.readerLines, LineAction.response, houtput]
    · rw [List.filterMap_append, ← hp.submitted]
      exact calls_makeControl s.scheduler (scheduled call) key
  | closing hr hi =>
    exact ⟨_, _, _, _, hp.split, hp.framed, hp.unfinished, hp.line, hp.oversized, hp.accepted, hp.written,
      hp.submitted, fun _ => hi⟩
  | left status hr hi ht =>
    exact ⟨_, _, _, _, hp.split, hp.framed, hp.unfinished, hp.line, hp.oversized, hp.accepted, hp.written,
      hp.submitted, fun _ => hi⟩
  | passed scheduler hk he =>
    refine ⟨_, _, _, _, hp.split, hp.framed, hp.unfinished, hp.line, hp.oversized, hp.accepted, hp.written,
      ?_, hp.drained⟩
    rw [← hp.submitted]
    dsimp only
    rw [hk.fresh]
    exact List.map_congr_left fun h _ => hk.call h
  | returned scheduler reader hk ho hc ha hr =>
    refine ⟨_, _, _, _, hp.split, hp.framed, hp.unfinished, hp.line, hp.oversized, hp.accepted, hp.written,
      ?_, fun hover => ?_⟩
    · rw [← hp.submitted]
      dsimp only
      rw [hk.fresh]
      exact List.map_congr_left fun h _ => hk.call h
    · refine hp.drained ?_
      generalize s.reader = r at hr
      cases hr with
      | submitted => exact hover.elim
      | shutDown => trivial
  | wrote w h result hw hpc hc line hl =>
    refine ⟨_, _, _, _, hp.split, hp.framed, hp.unfinished, hp.line, hp.oversized, hp.accepted, ?_,
      hp.submitted, hp.drained⟩
    rw [← hp.written]
    refine (readerLines_append s.output (.worker w) line).trans ?_
    rw [if_neg nofun, List.append_nil]
    rfl

end

/-! ### What the workers have done -/

/-- The line that a callback has written. -/
def Callback.line : Callback → Option Bytes
  | .wrote line => line
  | _ => none

/-- What the record, the callbacks and the output say of each other: no call was stopped, executors returned what they
compute, each callback wrote the line of its call before it returned, and these are the lines of the workers. -/
structure Ledger (execute : Bytes → Json → ToolExecutionResult) (server₀ : Server) (s : State) : Prop where
  unmarked : ∀ h, ∀ e ∈ s.scheduler.history, ¬ e.Marks h
  computed : ∀ h result, .executorReturned h result ∈ s.scheduler.history → h < s.scheduler.fresh ∧
    result = execute (s.scheduler.control h).call.name (s.scheduler.control h).call.arguments
  called : ∀ h, .completionReturned h ∈ s.scheduler.history → s.callback h ≠ .pending
  callbacks : ∀ h, s.callback h ≠ .pending → h < s.scheduler.fresh ∧
    s.callback h = .wrote (callLine execute server₀ (s.scheduler.control h).call)
  balance : s.workerLines.Perm ((List.range s.scheduler.fresh).filterMap fun h => (s.callback h).line)

/-- One more item has a line. -/
private theorem perm_filterMap_update {α β : Type} {l : List Nat} {f : Nat → α} {g : α → Option β} {a : Nat} {x : α}
    (hl : l.Nodup) (ha : a ∈ l) (hf : g (f a) = none) :
    (l.filterMap fun b => g (Function.update f a x b)).Perm ((l.filterMap fun b => g (f b)) ++ (g x).toList) := by
  induction l with
  | nil => cases ha
  | cons b l ih =>
    obtain ⟨hb, hl⟩ := List.nodup_cons.1 hl
    by_cases hab : b = a
    · subst hab
      have hrest : (l.filterMap fun c => g (Function.update f b x c)) = l.filterMap fun c => g (f c) := by
        refine List.filterMap_congr fun c hc => ?_
        have hne : c ≠ b := fun he => hb (he ▸ hc)
        rw [Function.update_of_ne hne]
      rw [List.filterMap_cons, List.filterMap_cons, Function.update_self, hf, hrest]
      cases hx : g x with
      | none => simp
      | some y => exact (List.perm_append_singleton y _).symm
    · have hm : a ∈ l := (List.mem_cons.1 ha).resolve_left fun he => hab he.symm
      have hperm := ih hl hm
      rw [List.filterMap_cons, List.filterMap_cons, Function.update_of_ne hab]
      cases g (f b) with
      | none => exact hperm
      | some y => exact hperm.cons y

section

variable {server₀ : Server}

/-- The reader's own steps. -/
private theorem Ledger.congr (hl : Ledger execute server₀ s) (hs : s'.scheduler = s.scheduler)
    (hc : s'.callback = s.callback) (ho : s'.workerLines = s.workerLines) : Ledger execute server₀ s' where
  unmarked := by rw [hs]; exact hl.unmarked
  computed := by rw [hs]; exact hl.computed
  called := by rw [hs, hc]; exact hl.called
  callbacks := by rw [hs, hc]; exact hl.callbacks
  balance := by rw [hs, hc, ho]; exact hl.balance

/-- A step of the scheduler that creates no call. -/
private theorem Ledger.keeps (hl : Ledger execute server₀ s) (hc : Scheduler.Calls.Custody s.scheduler.calls)
    {scheduler : Scheduler.State} {reader : Reader} (hk : Keeps s.scheduler (Allowed execute s) scheduler) :
    Ledger execute server₀ { s with scheduler, reader } where
  unmarked h e he := by
    rcases hk.mem he with he | he
    · exact hl.unmarked h e he
    · exact he.unmarked h
  computed h result he := by
    dsimp only
    rw [hk.call h, hk.fresh]
    rcases hk.mem he with he | he
    · exact hl.computed h result he
    · obtain ⟨⟨w, hw⟩, hr⟩ := he.computed h result rfl
      refine ⟨Nat.lt_of_not_le fun hle => ?_, hr⟩
      have hp : s.scheduler.pc h = .absent := hc.unused h hle
      have hon : (s.scheduler.pc h).OnWorker := hc.of_runner (w := w) (by simp [Scheduler.State.calls, hw,
        Scheduler.WorkerPc.runs])
      rw [hp] at hon
      exact hon
  called h he := by
    rcases hk.mem he with he | he
    · exact hl.called h he
    · exact he.called h rfl
  callbacks h hne := by
    dsimp only
    rw [hk.call h, hk.fresh]
    exact hl.callbacks h hne
  balance := by
    dsimp only
    rw [hk.fresh]
    exact hl.balance

/-- A new call has no line yet. -/
private theorem Ledger.submit (hl : Ledger execute server₀ s) {call : ScheduledToolCall} {key : Bytes}
    (hs : s'.scheduler = makeControl s.scheduler mainThread call key) (hc : s'.callback = s.callback)
    (ho : s'.workerLines = s.workerLines) : Ledger execute server₀ s' := by
  have hfresh : s'.scheduler.fresh = s.scheduler.fresh + 1 := by rw [hs]; rfl
  have hhistory : s'.scheduler.history = s.scheduler.history := by rw [hs]; rfl
  have hcall {h : Handle} (hlt : h < s.scheduler.fresh) :
      (s'.scheduler.control h).call = (s.scheduler.control h).call := by
    rw [hs]
    simp [makeControl, Nat.ne_of_lt hlt]
  refine ⟨?_, fun h result he => ?_, ?_, fun h hne => ?_, ?_⟩
  · rw [hhistory]
    exact hl.unmarked
  · rw [hhistory] at he
    obtain ⟨hlt, hr⟩ := hl.computed h result he
    rw [hcall hlt, hfresh]
    exact ⟨Nat.lt_succ_of_lt hlt, hr⟩
  · rw [hhistory, hc]
    exact hl.called
  · rw [hc] at hne ⊢
    obtain ⟨hlt, hr⟩ := hl.callbacks h hne
    rw [hcall hlt, hfresh]
    exact ⟨Nat.lt_succ_of_lt hlt, hr⟩
  · have hnone : (s.callback s.scheduler.fresh).line = none := by
      by_cases hp : s.callback s.scheduler.fresh = .pending
      · rw [hp]
        rfl
      · exact absurd (hl.callbacks _ hp).1 (Nat.lt_irrefl _)
    rw [ho, hc, hfresh, List.range_succ, List.filterMap_append]
    simpa [hnone] using hl.balance

/-- A callback writes the line of its call. -/
private theorem Ledger.wrote (hl : Ledger execute server₀ s) (hreach : (Scheduler.system budget).Reachable s.scheduler)
    (hu : Undisturbed s) (hb : s.server.budget = server₀.budget) {w : Nat} {h : Handle}
    {result : ToolExecutionResult} (hp : s.scheduler.pc h = .completing result) (hc : s.callback h = .pending)
    {line : Option Bytes} (hline : line = s.server.callbackResponse (s.scheduler.control h).call.requestId result) :
    Ledger execute server₀ { s with
      callback := Function.update s.callback h (.wrote line)
      output := s.output ++ (line.map fun line => (ThreadId.worker w, line)).toList } := by
  -- the result is the executor's
  obtain ⟨id, hinvoked⟩ := Scheduler.invoked_of_completing hreach hp
  have hreturned := Scheduler.returned_of_invoked hreach hinvoked (hu.inTime h)
  obtain ⟨hlt, rfl⟩ := hl.computed h result hreturned
  have hline : line = callLine execute server₀ (s.scheduler.control h).call := by
    rw [hline, callLine, Server.callbackResponse, Server.callbackResponse, formatToolResult_congr hb]
  refine ⟨hl.unmarked, hl.computed, fun k hk => ?_, fun k hne => ?_, ?_⟩
  · by_cases hkh : k = h
    · subst hkh
      simp
    · simpa [hkh] using hl.called k hk
  · by_cases hkh : k = h
    · subst hkh
      simpa [hline] using hlt
    · simp only [Function.update_of_ne hkh] at hne ⊢
      exact hl.callbacks k hne
  · have hlines := workerLines_append s.output (.worker w) line
    rw [if_neg (by intro hw; cases hw)] at hlines
    have hperm := perm_filterMap_update (g := Callback.line) (x := .wrote line) List.nodup_range
      (List.mem_range.2 hlt) (f := s.callback) (by rw [hc]; rfl)
    refine List.Perm.trans (.of_eq hlines) ((List.Perm.append_right _ hl.balance).trans ?_)
    exact hperm.symm

end

/-! ### Where the reader is with the scheduler -/

/-- Every call that was created was accepted or is being submitted, and the reader has gone only after a shutdown. -/
structure Calm (server₀ : Server) (s : State) : Prop where
  aligned : Aligned s
  budget : s.server.budget = server₀.budget
  tools : s.server.tools = server₀.tools
  accepted : ∀ h < s.scheduler.fresh, .submitReturned h .accepted ∈ s.scheduler.history ∨
    (s.scheduler.op mainThread).errand = .submit h
  unscheduled : s.hasScheduler = false → s.scheduler.fresh = 0
  shutDown : ∀ status, s.reader = .returned status → s.hasScheduler = true →
    .shutdownReturned mainThread ∈ s.scheduler.history

section

variable {server₀ : Server}

/-- The reader reads on. -/
private theorem Calm.reads (hc : Calm server₀ s) (hr : s.reader = .reading) (hs : s'.scheduler = s.scheduler)
    (hr' : s'.reader = .reading) (hb : s'.server.budget = s.server.budget)
    (ht : s'.server.tools = s.server.tools) : Calm server₀ s' where
  aligned := by
    refine ⟨?_, by rw [hs]; exact hc.aligned.others⟩
    rw [hs, hr', ← hr]
    exact hc.aligned.reader
  budget := hb.trans hc.budget
  tools := ht.trans hc.tools
  accepted := by rw [hs]; exact hc.accepted
  unscheduled h := by
    rw [hs]
    exact hc.unscheduled (by rw [State.hasScheduler, ← ht]; exact h)
  shutDown status h := by cases hr'.symm.trans h

/-- A call is created. -/
private theorem Calm.submit (hc : Calm server₀ s) (hr : s.reader = .reading) {call : ScheduledToolCall} {key : Bytes}
    {id : Json} (hs : s'.scheduler = makeControl s.scheduler mainThread call key) (hr' : s'.reader = .submitting id)
    (hb : s'.server.budget = s.server.budget) (ht : s'.server.tools = s.server.tools) (hn : s.hasScheduler = true) :
    Calm server₀ s' := by
  have hop : s'.scheduler.op mainThread = .submitting s.scheduler.fresh := by
    rw [hs]
    simp [makeControl]
  refine ⟨⟨?_, fun t htm => ?_⟩, hb.trans hc.budget, ht.trans hc.tools, fun h hlt => ?_, fun h => ?_,
    fun status h => ?_⟩
  · rw [hop, hr']
    exact .submitting id _
  · rw [hs]
    simpa [makeControl, htm] using hc.aligned.others t htm
  · rw [hop]
    have hfresh : s'.scheduler.fresh = s.scheduler.fresh + 1 := by rw [hs]; rfl
    rw [hfresh] at hlt
    rcases Nat.lt_succ_iff_lt_or_eq.1 hlt with hlt | rfl
    · rcases hc.accepted h hlt with ha | ha
      · exact .inl (by rw [hs]; exact ha)
      · rw [hc.aligned.idle hr] at ha
        cases ha
    · exact .inr rfl
  · have hno : s.hasScheduler = false := by rw [State.hasScheduler, ← ht]; exact h
    cases hn.symm.trans hno
  · cases hr'.symm.trans h

private theorem Calm.step (hc : Calm server₀ s) (hu : Undisturbed s') (hs : CalmStep N execute s s') :
    Calm server₀ s' := by
  cases hs with
  | byte c input hr hi hc' =>
    unfold State.push
    split
    · exact hc.reads hr rfl hr rfl rfl
    split <;> exact hc.reads hr rfl hr rfl rfl
  | ended hr hi => exact hc.reads hr rfl hr rfl rfl
  | answered s₀ server result hr he ha =>
    obtain ⟨hscheduler, hserver, -, -⟩ := he.eq
    obtain ⟨hb, ht⟩ := currentAction_keeps ha
    exact hc.reads hr hscheduler rfl (hb.trans (by rw [hserver])) (ht.trans (by rw [hserver]))
  | submitted s₀ server call key hr he ha hn =>
    obtain ⟨-, hserver, -, -⟩ := he.eq
    obtain ⟨hb, ht⟩ := currentAction_keeps ha
    exact hc.submit hr rfl rfl (hb.trans (by rw [hserver])) (ht.trans (by rw [hserver])) hn
  | closing hr hi =>
    refine ⟨⟨?_, fun t htm => ?_⟩, hc.budget, hc.tools, fun h hlt => ?_, hc.unscheduled, nofun⟩
    · simpa [Scheduler.State.setOp, Scheduler.Op.errand] using Matches.shuttingDown 0
    · simpa [Scheduler.State.setOp, htm] using hc.aligned.others t htm
    · rcases hc.accepted h hlt with ha | ha
      · exact .inl ha
      · rw [hc.aligned.idle hr] at ha
        cases ha
  | left status hr hi hn =>
    refine ⟨⟨?_, hc.aligned.others⟩, hc.budget, hc.tools, hc.accepted, hc.unscheduled, fun _ _ h => ?_⟩
    · dsimp only
      rw [hc.aligned.idle hr]
      exact .returned status
    · cases hn.symm.trans h
  | passed scheduler hk he =>
    refine ⟨⟨?_, fun t htm => ?_⟩, hc.budget, hc.tools, fun h hlt => ?_, fun h => ?_, fun status h hn => ?_⟩
    · dsimp only
      rw [he mainThread]
      exact hc.aligned.reader
    · refine Scheduler.errand_eq_none.1 ((he t).trans ?_)
      rw [hc.aligned.others t htm]
      rfl
    · dsimp only at hlt ⊢
      rw [he mainThread]
      rw [hk.fresh] at hlt
      exact (hc.accepted h hlt).imp_left hk.mem_of_mem
    · dsimp only
      rw [hk.fresh]
      exact hc.unscheduled h
    · exact hk.mem_of_mem (hc.shutDown status h hn)
  | returned scheduler reader hk ho hothers hanswered hr =>
    have hreader := hc.aligned.reader
    generalize hold : s.reader = r at hr hreader
    generalize herrand : (s.scheduler.op mainThread).errand = errand at hanswered hreader
    refine ⟨⟨?_, fun t htm => ?_⟩, hc.budget, hc.tools, fun h hlt => ?_, fun h => ?_, fun status h hn => ?_⟩
    · dsimp only
      rw [ho]
      cases hr with
      | submitted => exact .reading
      | shutDown status status' => exact .returned status'
    · refine Scheduler.errand_eq_none.1 ((hothers t htm).trans ?_)
      rw [hc.aligned.others t htm]
      rfl
    · dsimp only at hlt ⊢
      rw [hk.fresh] at hlt
      rcases hc.accepted h hlt with ha | ha
      · exact .inl (hk.mem_of_mem ha)
      · -- the call that was being submitted has been accepted
        rw [herrand] at ha
        subst ha
        cases hanswered with
        | submit h status es hh =>
          have hmem : .submitReturned h status ∈ scheduler.history := by rw [hh]; exact List.mem_cons_self ..
          obtain rfl := hu.accepted h status hmem
          exact .inl hmem
    · dsimp only
      rw [hk.fresh]
      exact hc.unscheduled h
    · cases hr with
      | submitted => cases h
      | shutDown =>
        cases hreader
        cases hanswered with
        | shutdown hh => exact hh 0 rfl
  | wrote w h result hw hp hpending line hl =>
    exact ⟨⟨hc.aligned.reader, hc.aligned.others⟩, hc.budget, hc.tools, hc.accepted, hc.unscheduled, hc.shutDown⟩

private theorem Ledger.step (hl : Ledger execute server₀ s) (hc : Calm server₀ s) (hu : Undisturbed s)
    (hreach : (Scheduler.system budget).Reachable s.scheduler) (hs : CalmStep N execute s s') :
    Ledger execute server₀ s' := by
  have hcustody := Scheduler.custody hreach
  cases hs with
  | byte c input hr hi hc' =>
    unfold State.push
    split
    · exact hl.congr rfl rfl rfl
    split <;> exact hl.congr rfl rfl rfl
  | ended => exact hl.congr rfl rfl rfl
  | answered s₀ server result hr he ha =>
    obtain ⟨hscheduler, -, -, -⟩ := he.eq
    have hcallback : s₀.callback = s.callback := by cases he <;> rfl
    refine hl.congr hscheduler hcallback ?_
    refine (workerLines_append s.output mainThread result.response).trans ?_
    rw [if_pos rfl, List.append_nil]
    rfl
  | submitted s₀ server call key hr he ha hn =>
    obtain ⟨-, -, houtput, -⟩ := he.eq
    have hcallback : s₀.callback = s.callback := by cases he <;> rfl
    exact hl.submit rfl hcallback (by simp [State.workerLines, houtput])
  | closing hr hi => exact hl.keeps hcustody ⟨rfl, fun _ => rfl, [], rfl, nofun⟩
  | left => exact hl.congr rfl rfl rfl
  | passed scheduler hk he => exact hl.keeps hcustody hk
  | returned scheduler reader hk => exact hl.keeps hcustody hk
  | wrote w h result hw hp hpending line hline => exact hl.wrote hreach hu hc.budget hp hpending hline

end

/-! ### Undisturbed runs -/

section

variable {lines : List Bytes}

private theorem undisturbed_run (hb : isBudgetValid budget = true) (hclean : ∀ line ∈ lines, Clean N line)
    (hs : (machine N execute budget tools (unlines lines)).system.Reachable s) (hu : Undisturbed s) :
    (∃ done rest consumed actions,
      Progress N lines (Server.create budget tools) s done rest consumed actions) ∧
    Calm (Server.create budget tools) s ∧ Ledger execute (Server.create budget tools) s := by
  revert hu
  apply TransitionSystem.Reachable.invariant (T := (machine N execute budget tools (unlines lines)).system)
    (I := fun s => Undisturbed s → (∃ done rest consumed actions,
      Progress N lines (Server.create budget tools) s done rest consumed actions) ∧
      Calm (Server.create budget tools) s ∧ Ledger execute (Server.create budget tools) s) ?_ ?_ hs
  · rintro s rfl -
    have hreader : (initial budget tools (unlines lines)).reader = .reading := if_pos hb
    refine ⟨⟨[], lines, [], [], ?_⟩, ?_, ?_⟩
    · exact ⟨rfl, rfl, nofun, List.take_nil.symm, rfl, rfl, rfl, rfl, fun h => by rw [hreader] at h; exact h.elim⟩
    · refine ⟨⟨?_, fun _ _ => rfl⟩, rfl, rfl, fun h hlt => absurd hlt (Nat.not_lt_zero h), fun _ => rfl,
        fun status h => ?_⟩
      · rw [hreader]
        exact .reading
      · cases hreader.symm.trans h
    · exact ⟨fun h e he => absurd he List.not_mem_nil, fun h result he => absurd he List.not_mem_nil,
        fun h he => absurd he List.not_mem_nil, fun h hne => absurd rfl hne, .nil⟩
  · rintro s s' hreach ih ⟨a, ha⟩ hu
    have hbefore := hu.of_step ha
    obtain ⟨⟨done, rest, consumed, actions, hp⟩, hcalm, hledger⟩ := ih hbefore
    have hplain : ∀ s₀ action server, LineEnd s s₀ → s₀.currentAction N = some (action, server) →
        Plain s.server.tools action := by
      intro s₀ action server he hc
      obtain ⟨line, more, -, hmem, -, hcurrent⟩ := hp.lineEnd hclean he
      exact plain_of_acceptLine (hcurrent ▸ hc) (hclean line hmem).notice
    have hstep := calmStep_of_step hu hcalm.aligned hplain ha
    exact ⟨hp.step hclean hstep, hcalm.step hu hstep, hledger.step hcalm hbefore (scheduler_reachable hreach) hstep⟩

/-- When the reader has gone, every call has been answered. -/
private theorem wrote_of_returned {server₀ : Server} (hreach : (Scheduler.system budget).Reachable s.scheduler)
    (hc : Calm server₀ s) (hl : Ledger execute server₀ s) {status : Nat} (hr : s.reader = .returned status)
    {h : Handle} (hlt : h < s.scheduler.fresh) :
    s.callback h = .wrote (callLine execute server₀ (s.scheduler.control h).call) := by
  have hscheduler : s.hasScheduler = true := by
    cases hn : s.hasScheduler with
    | true => rfl
    | false =>
      rw [hc.unscheduled hn] at hlt
      exact absurd hlt (Nat.not_lt_zero h)
  have hjoined := Scheduler.joined_of_shutdownReturned hreach (hc.shutDown status hr hscheduler)
  have haccepted : .submitReturned h .accepted ∈ s.scheduler.history := by
    refine (hc.accepted h hlt).resolve_right fun he => ?_
    have hm := hc.aligned.reader
    rw [hr, he] at hm
    cases hm
  have hdone := Scheduler.done_of_joined hreach hjoined (Scheduler.enqueued_of_accepted hreach haccepted)
  have hunmarked : ¬ Scheduler.MarkedBeforeFinish h s.scheduler.history := by
    rintro ⟨newer, older, hh, e, he, hm⟩
    exact hl.unmarked h e (by rw [hh]; exact List.mem_append_right _ (List.mem_cons_of_mem _ he)) hm
  -- the callback was invoked, and so has returned
  have hids := (Scheduler.exactlyOnce_of_done hreach hdone).answered hunmarked
  rw [completionIds_eq_map] at hids
  obtain ⟨⟨id, result⟩, hinvocations, -⟩ := List.map_eq_singleton_iff.1 hids
  have hinvoked : .completionInvoked h id result ∈ s.scheduler.history :=
    mem_invocations (by rw [hinvocations]; exact List.mem_singleton_self _)
  have hreturned := Scheduler.callback_returned hreach hjoined hinvoked
  exact (hl.callbacks h (hl.called h hreturned)).2

private theorem plain_of_mem {server server' : Server} {done : List Bytes} {actions : List LineAction}
    (hn : ∀ line ∈ done, NoNotice N line) (h : acceptLines N server done = some (actions, server')) :
    ∀ action ∈ actions, ∃ tools, Plain tools action := by
  induction done generalizing server actions with
  | nil =>
    cases h
    exact nofun
  | cons line done ih =>
    obtain ⟨⟨a, next⟩, ha, h⟩ := Option.bind_eq_some_iff.1 h
    obtain ⟨⟨as, last⟩, has, h⟩ := Option.bind_eq_some_iff.1 h
    cases h
    intro action hm
    rcases List.mem_cons.1 hm with rfl | hm
    · exact ⟨server.tools, plain_of_acceptLine ha (hn line (List.mem_cons_self ..))⟩
    · exact ih (fun l hl => hn l (List.mem_cons_of_mem _ hl)) has action hm

/-- The lines of plain actions are those of the answers and those of the calls. -/
private theorem perm_actionLines (server₀ : Server) {actions : List LineAction}
    (hp : ∀ action ∈ actions, ∃ tools, Plain tools action) :
    (actions.filterMap (·.response) ++
      (actions.filterMap fun a => a.toolCall.map scheduled).filterMap (callLine execute server₀)).Perm
      (actions.filterMap (actionLine execute server₀)) := by
  induction actions with
  | nil => exact .nil
  | cons a actions ih =>
    have htail := ih fun action hm => hp action (List.mem_cons_of_mem _ hm)
    obtain ⟨tools, ha⟩ := hp a (List.mem_cons_self ..)
    cases ha with
    | immediate result =>
      cases hr : result.response with
      | none => simpa [actionLine, LineAction.response, hr] using htail
      | some line => simpa [actionLine, LineAction.response, hr] using htail
    | toolCall call =>
      cases hl : callLine execute server₀ (scheduled call) with
      | none => simpa [actionLine, LineAction.response, hl] using htail
      | some line =>
        have hline := List.perm_middle.trans (htail.cons line)
        simpa [actionLine, LineAction.response, hl] using hline

/-- When `run_stdio` returns in an undisturbed run, the lines it has written are, up to order, the responses of
`process_line` to the same lines in turn, and the reader has written those to the lines that are not tool calls, in
order. -/
theorem pipelined (hb : isBudgetValid budget = true) (hclean : ∀ line ∈ lines, Clean N line)
    (hex : ∀ name arguments, (execute name arguments).structuredContent.isUtf8 = true)
    (hs : (machine N execute budget tools (unlines lines)).system.Reachable s) (hu : Undisturbed s) {status : Nat}
    (hr : s.reader = .returned status) :
    ∃ results, processLines N execute (Server.create budget tools) lines = some results ∧
      (s.output.map Prod.snd).Perm (results.filterMap (·.2.response)) ∧
      s.readerLines = (results.filter (!·.1)).filterMap (·.2.response) := by
  obtain ⟨⟨done, rest, consumed, actions, hp⟩, hcalm, hledger⟩ := undisturbed_run hb hclean hs hu
  have hreach := scheduler_reachable hs
  -- the reader has come to the end
  have hinput : s.input = [] := hp.drained (by rw [hr]; trivial)
  have hframed := hp.framed
  rw [hinput, List.append_nil] at hframed
  have hrest : rest = [] := unlines_eq_nil (by rw [← hframed]; exact hp.unfinished)
  have hdone : done = lines := by rw [hp.split, hrest, List.append_nil]
  subst hdone
  have hnotice : ∀ line ∈ done, NoNotice N line := fun line hm => (hclean line hm).notice
  have hplain := plain_of_mem hnotice hp.accepted
  obtain ⟨results, hresults, hlines⟩ := processLines_eq hex rfl hnotice hp.accepted
  refine ⟨results, hresults, ?_, ?_⟩
  · have hall : results.filterMap (·.2.response) = actions.filterMap (actionLine execute (Server.create budget tools)) := by
      have he := congrArg (List.filterMap Prod.snd) hlines
      rw [List.filterMap_map, List.filterMap_map] at he
      exact he
    have hworkers : ((List.range s.scheduler.fresh).filterMap fun h => (s.callback h).line) =
        (actions.filterMap fun a => a.toolCall.map scheduled).filterMap
          (callLine execute (Server.create budget tools)) := by
      rw [← hp.submitted, List.filterMap_map]
      refine List.filterMap_congr fun h hm => ?_
      rw [wrote_of_returned hreach hcalm hledger hr (List.mem_range.1 hm)]
      rfl
    have hsplit := (List.filter_append_perm (fun e : ThreadId × Bytes => decide (e.1 = mainThread)) s.output).map Prod.snd
    rw [List.map_append] at hsplit
    rw [hall]
    refine hsplit.symm.trans (List.Perm.trans ?_ (perm_actionLines _ hplain))
    have hreader : (s.output.filter fun e => decide (e.1 = mainThread)).map Prod.snd = actions.filterMap (·.response) :=
      hp.written
    rw [hreader, ← hworkers]
    exact List.Perm.append_left _ hledger.balance
  · have he := congrArg (List.filterMap fun r : Bool × Option Bytes => if r.1 then none else r.2) hlines
    rw [List.filterMap_map, List.filterMap_map] at he
    have hleft : (results.filter (!·.1)).filterMap (·.2.response) =
        results.filterMap ((fun r : Bool × Option Bytes => if r.1 then none else r.2) ∘
          fun r => (r.1, r.2.response)) := by
      rw [List.filterMap_filter]
      refine List.filterMap_congr fun r _ => ?_
      cases hr : r.1 <;> simp [hr]
    rw [hleft, he, hp.written]
    refine List.filterMap_congr fun a ha => ?_
    obtain ⟨tools, hpa⟩ := hplain a ha
    cases hpa <;> simp [actionLine, LineAction.response]

end

/-! ### A session -/

private def initializeText : Bytes := bytes
  ("\x7b\"jsonrpc\":\"2.0\",\"id\":0,\"method\":\"initialize\",\"params\":\x7b\"protocolVersion\":" ++
  "\"2025-11-25\",\"capabilities\":\x7b\x7d,\"clientInfo\":\x7b\"name\":\"c\",\"version\":\"1\"\x7d\x7d\x7d")
private def initializedText : Bytes := bytes "\x7b\"jsonrpc\":\"2.0\",\"method\":\"notifications/initialized\"\x7d"
private def callText : Bytes :=
  bytes "\x7b\"jsonrpc\":\"2.0\",\"id\":1,\"method\":\"tools/call\",\"params\":\x7b\"name\":\"proc.memory\"\x7d\x7d"

private def initializeMessage : Json := .ofPairs [("jsonrpc", .text "2.0"), ("id", .numberUnsigned 0),
  ("method", .text "initialize"), ("params", .ofPairs [("protocolVersion", .text kProtocolVersion),
    ("capabilities", .object []), ("clientInfo", .ofPairs [("name", .text "c"), ("version", .text "1")])])]
private def initializedMessage : Json := .ofPairs [("jsonrpc", .text "2.0"), ("method", .text "notifications/initialized")]
private def callMessage : Json := .ofPairs [("jsonrpc", .text "2.0"), ("id", .numberUnsigned 1),
  ("method", .text "tools/call"), ("params", .ofPairs [("name", .text "proc.memory")])]

/-- What the parser makes of these lines. -/
def sessionReader : Nlohmann where
  saxEvents line :=
    if line = initializeText then
      [.startObject, .key (bytes "jsonrpc"), .string, .key (bytes "id"), .numberUnsigned, .key (bytes "method"), .string,
        .key (bytes "params"), .startObject, .key (bytes "protocolVersion"), .string, .key (bytes "capabilities"),
        .startObject, .endObject, .key (bytes "clientInfo"), .startObject, .key (bytes "name"), .string,
        .key (bytes "version"), .string, .endObject, .endObject, .endObject]
    else if line = initializedText then
      [.startObject, .key (bytes "jsonrpc"), .string, .key (bytes "method"), .string, .endObject]
    else if line = callText then
      [.startObject, .key (bytes "jsonrpc"), .string, .key (bytes "id"), .numberUnsigned, .key (bytes "method"), .string,
        .key (bytes "params"), .startObject, .key (bytes "name"), .string, .endObject, .endObject]
    else [.parseError]
  parse line :=
    if line = initializeText then some initializeMessage
    else if line = initializedText then some initializedMessage
    else if line = callText then some callMessage
    else none
  isUtf8_of_parse line m h := by
    split at h
    · cases h; decide +kernel
    split at h
    · cases h; decide +kernel
    split at h
    · cases h; decide +kernel
    · cases h

def sessionLines : List Bytes := [initializeText, initializedText, callText]

/-- What `proc.memory` returns without its argument. -/
def refuseArguments : Bytes → Json → ToolExecutionResult :=
  fun _ _ => executeProcess (selfPolicy.inspectMemory · (observationOf (bytes "init"))) (.object [])

private def sessionRun : List Action :=
  List.replicate (unlines sessionLines).length (.read false true) ++ List.replicate 4 (.advance true none true) ++
    List.replicate 2 (.read false true) ++ List.replicate 11 (.work 0 true) ++
    List.replicate 3 (.advance true none true) ++ [.work 0 true, .work 1 true] ++
    List.replicate 3 (.advance true none true)

private def sessionService : ToolService where
  hasFilesystemPolicy := false
  hasProcessPolicy := true

private def isUndisturbedEvent : Scheduler.Event → Bool
  | .submitReturned _ status => status = .accepted
  | .timedOut _ => false
  | _ => true

private def isCompleteSession (s : State) : Bool :=
  (match s.reader with
    | .returned 0 => true
    | _ => false) &&
  !s.writerFailed && !s.inputFailed && s.scheduler.history.all isUndisturbedEvent && s.output.length = 2

/-- A client initializes, calls a tool and closes the input while the call is queued. -/
theorem pipelined_session :
    ∃ s, (machine sessionReader refuseArguments conservativeBudget (some sessionService)
        (unlines sessionLines)).system.Reachable s ∧ s.output.length = 2 ∧
      ∃ results, processLines sessionReader refuseArguments
          (Server.create conservativeBudget (some sessionService)) sessionLines = some results ∧
        (s.output.map Prod.snd).Perm (results.filterMap (·.2.response)) ∧
        s.readerLines = (results.filter (!·.1)).filterMap (·.2.response) := by
  have hrun : ((machine sessionReader refuseArguments conservativeBudget (some sessionService)
      (unlines sessionLines)).run (initial conservativeBudget (some sessionService) (unlines sessionLines))
      sessionRun).map isCompleteSession = some true := by decide +kernel
  obtain ⟨s, hs, he⟩ := Option.map_eq_some_iff.1 hrun
  simp only [isCompleteSession, Bool.and_eq_true, Bool.not_eq_true', decide_eq_true_eq] at he
  obtain ⟨⟨⟨⟨hreader, hwritten⟩, hreceived⟩, hhistory⟩, hlength⟩ := he
  have hevents := List.all_eq_true.1 hhistory
  have hreturned : s.reader = .returned 0 := by
    split at hreader
    · assumption
    · cases hreader
  have hreach := Machine.reachable_of_run (M := machine sessionReader refuseArguments conservativeBudget
    (some sessionService) (unlines sessionLines)) (.init rfl) hs
  have hclean : ∀ line ∈ sessionLines, Clean sessionReader line := by
    have hbytes : ∀ line ∈ sessionLines, 0x0A ∉ line ∧ 0x0D ∉ line := by decide +kernel
    have hparse : ∀ line ∈ sessionLines, (sessionReader.parse line).any (fun m =>
        (m.find? "method").any (isText "notifications/cancelled")) = false := by decide +kernel
    refine fun line hm => ⟨(hbytes line hm).1, (hbytes line hm).2, fun m hp hc => ?_⟩
    have hn := hparse line hm
    rw [hp, Option.any_some, hc.method] at hn
    simp [isText, Json.text] at hn
  have hutf8 : (refuseArguments [] .null).structuredContent.isUtf8 = true := by decide +kernel
  refine ⟨s, hreach, hlength, pipelined (by decide) hclean (fun _ _ => hutf8) hreach
    ⟨hwritten, hreceived, fun h status hm => ?_, fun h hm => ?_⟩ hreturned⟩
  · simpa [isUndisturbedEvent] using hevents _ hm
  · simpa [isUndisturbedEvent] using hevents _ hm

end Stdio

end NativeMcp
