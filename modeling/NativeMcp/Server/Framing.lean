import NativeMcp.Server.Lifecycle
import NativeMcp.Server.Stdio

/-!
# The framing of standard input

`run_stdio` reads its input byte by byte.  `lineMachine` is the same server with the input already cut into lines: one
step handles one whole line (`handleLine`), whatever its length.  The reader's loop refines it (`framing_correct`): its
runs are runs of `lineMachine` on the lines of the input, and each line that is next is handled by further reading.

The invariant is `Framed`: what has been read since the last newline, which the buffer holds as far as it fits.
-/

namespace NativeMcp

namespace Stdio

variable {N : Nlohmann} {execute : Bytes → Json → ToolExecutionResult} {budget : ResourceBudget}
  {tools : Option ToolService} {input : Bytes} {s s' : State}

/-! ### Lines -/

/-- The lines as the input has them. -/
def unlines (lines : List Bytes) : Bytes := lines.flatMap fun line => line ++ [0x0A]

inductive Terminator where
  | lf
  | crlf
  deriving DecidableEq, Repr

/-- What stands before the newline. -/
def Terminator.carriageReturn : Terminator → Bytes
  | .lf => []
  | .crlf => [0x0D]

/-- The input that has the given lines with their terminators, and `last` without one. -/
def encodeLines (lines : List (Bytes × Terminator)) (last : Bytes) : Bytes :=
  lines.flatMap (fun line => line.1 ++ line.2.carriageReturn ++ [0x0A]) ++ last

/-- The lines up to their newlines, and what follows the last newline if that is not empty. -/
def allLines (lines : List Bytes) (last : Bytes) : List Bytes := lines ++ if last = [] then [] else [last]

/-- The lines of `encodeLines`, with their carriage returns. -/
def receivedLines (lines : List (Bytes × Terminator)) (last : Bytes) : List Bytes :=
  allLines (lines.map fun line => line.1 ++ line.2.carriageReturn) last

theorem unlines_cons (line : Bytes) (lines : List Bytes) :
    unlines (line :: lines) = line ++ 0x0A :: unlines lines := by simp [unlines]

theorem encodeLines_eq (lines : List (Bytes × Terminator)) (last : Bytes) :
    encodeLines lines last = unlines (lines.map fun line => line.1 ++ line.2.carriageReturn) ++ last := by
  simp [encodeLines, unlines, List.flatMap_map]

/-- What stands before the first newline. -/
theorem append_newline_inj {x x' y y' : Bytes} (hx : 0x0A ∉ x) (hx' : 0x0A ∉ x')
    (h : x ++ 0x0A :: y = x' ++ 0x0A :: y') : x = x' ∧ y = y' := by
  induction x generalizing x' with
  | nil =>
    cases x' with
    | nil => exact ⟨rfl, (List.cons.inj h).2⟩
    | cons b x' => exact absurd (List.mem_cons.2 (.inl (List.cons.inj h).1)) hx'
  | cons a x ih =>
    cases x' with
    | nil => exact absurd (List.mem_cons.2 (.inl (List.cons.inj h).1.symm)) hx
    | cons b x' =>
      obtain ⟨rfl, htail⟩ := List.cons.inj h
      have hx := fun hm => hx (List.mem_cons_of_mem _ hm)
      obtain ⟨rfl, hy⟩ := ih hx (fun hm => hx' (List.mem_cons_of_mem _ hm)) htail
      exact ⟨rfl, hy⟩

theorem unlines_eq_nil {lines : List Bytes} (h : 0x0A ∉ unlines lines) : lines = [] := by
  cases lines with
  | nil => rfl
  | cons line lines => exact absurd (by rw [unlines_cons]; simp) h

/-- The buffer holds what fits of the line, and the flag tells whether that is all. -/
theorem push_eq {m : Nat} {consumed : Bytes} (c : UInt8) (hm : s.server.budget.maxRequestBytes = m)
    (hl : s.line = consumed.take m) (ho : s.oversized = decide (m < consumed.length)) :
    s.push c = { s with
      line := (consumed ++ [c]).take m, oversized := decide (m < (consumed ++ [c]).length) } := by
  have hlen : (consumed ++ [c]).length = consumed.length + 1 := by simp
  have hline : s.line.length = min m consumed.length := by rw [hl, List.length_take]
  unfold State.push
  rw [hm, hlen]
  by_cases hlong : m < consumed.length
  · have hset : s.oversized = true := ho.trans (decide_eq_true hlong)
    rw [if_pos hset, List.take_append_of_le_length (by omega), ← hl, decide_eq_true (by omega), ← hset]
  · have hset : s.oversized = false := ho.trans (decide_eq_false hlong)
    rw [if_neg (by rw [hset]; exact Bool.false_ne_true)]
    by_cases hfull : m = consumed.length
    · rw [if_pos (by omega), List.take_append_of_le_length (by omega), ← hl, decide_eq_true (by omega)]
    · rw [if_neg (by omega), List.take_of_length_le (by omega), decide_eq_false (by omega), ← hset, hl,
        List.take_of_length_le (by omega)]

/-! ### The server over whole lines -/

/-- A whole line: it is given to `accept_line` without its carriage return if it fits, and is answered with the error
of `request_too_large` if not. -/
def State.handleLine (s : State) (N : Nlohmann) (line : Bytes) (good : Bool) : Option State :=
  if line.length ≤ s.server.budget.maxRequestBytes then do
    let (action, server) ← s.server.acceptLine N (State.withoutCarriageReturn line)
    { s with server }.processAction action good
  else s.server.requestTooLarge.map fun result => s.respond result good

/-- The server and the lines that it has not handled.  The input and the buffer of `core` are not used. -/
structure LineState where
  core : State
  lines : List Bytes

/-- A state without what the reader keeps of the input. -/
def State.core (s : State) : State := { s with input := [], ended := true, line := [], oversized := false }

/-- The next line is handled; without one `run_stdio` ends.  The transport may fail at any time. -/
def lineStep (N : Nlohmann) (execute : Bytes → Json → ToolExecutionResult) (t : LineState) :
    Action → Option LineState
  | .read broken good =>
    match t.core.reader with
    | .reading =>
      if broken then some { t with core := { t.core with inputFailed := true, reader := .failing } }
      else
        match t.lines with
        | [] => t.core.finish.map fun core => { t with core }
        | line :: lines => (t.core.handleLine N line good).map fun core => ⟨core, lines⟩
    | _ => none
  | a => (step N execute t.core a).map fun core => { t with core }

/-- `run_stdio` on an input that is a list of lines. -/
def lineMachine (N : Nlohmann) (execute : Bytes → Json → ToolExecutionResult) (budget : ResourceBudget)
    (tools : Option ToolService) (lines : List Bytes) : Machine LineState Action where
  init t := t = ⟨(initial budget tools []).core, lines⟩
  step := lineStep N execute

/-! ### What the rest of the server does not touch -/

/-- The step leaves alone what the reader keeps of the input. -/
structure KeepsInput (s s' : State) : Prop where
  input : s'.input = s.input
  ended : s'.ended = s.ended
  line : s'.line = s.line
  oversized : s'.oversized = s.oversized
  budget : s'.server.budget = s.server.budget

private theorem KeepsInput.trans {s'' : State} (h : KeepsInput s s') (h' : KeepsInput s' s'') : KeepsInput s s'' :=
  ⟨h'.input.trans h.input, h'.ended.trans h.ended, h'.line.trans h.line, h'.oversized.trans h.oversized,
    h'.budget.trans h.budget⟩

/-- Without what the reader keeps of the input the step is the same. -/
structure Blind (s : State) (r₀ r : Option State) : Prop where
  core : r₀ = r.map State.core
  keeps : ∀ s', r = some s' → KeepsInput s s'

private theorem Blind.next {s₀ : State} (hc : s₀ = s'.core) (hk : KeepsInput s s') : Blind s (some s₀) (some s') := by
  refine ⟨congrArg some hc, fun s'' h => ?_⟩
  cases h
  exact hk

private theorem Blind.stuck : Blind s none none := ⟨rfl, fun s' h => by cases h⟩

/-- The same part of the state is replaced by what was computed from the rest. -/
private theorem Blind.map {α : Type} {f₀ f : α → State} {r : Option α}
    (h : ∀ a, f₀ a = (f a).core ∧ KeepsInput s (f a)) : Blind s (r.map f₀) (r.map f) := by
  cases r with
  | none => exact .stuck
  | some a => exact .next (h a).1 (h a).2

private theorem blind_call (s : State) (request : Scheduler.Request) (position : Reader) :
    Blind s (s.core.call request position) (s.call request position) :=
  .map fun _ => ⟨rfl, rfl, rfl, rfl, rfl, rfl⟩

private theorem blind_pass (s : State) (r : Option Scheduler.State) : Blind s (s.core.pass r) (s.pass r) :=
  .map fun _ => ⟨rfl, rfl, rfl, rfl, rfl, rfl⟩

private theorem write_core (s : State) (t : Scheduler.ThreadId) (result : ProcessResult) (good : Bool) :
    s.core.write t result good = ((s.write t result good).1.core, (s.write t result good).2) ∧
      KeepsInput s (s.write t result good).1 := by
  have hw : s.core.writerFailed = s.writerFailed := rfl
  unfold State.write
  rw [hw]
  by_cases hfailed : s.writerFailed = true
  · rw [if_pos hfailed, if_pos hfailed]
    exact ⟨rfl, rfl, rfl, rfl, rfl, rfl⟩
  · rw [if_neg hfailed, if_neg hfailed]
    cases good with
    | true => exact ⟨rfl, rfl, rfl, rfl, rfl, rfl⟩
    | false => exact ⟨rfl, rfl, rfl, rfl, rfl, rfl⟩

private theorem respond_core (s : State) (result : ProcessResult) (good : Bool) :
    s.core.respond result good = (s.respond result good).core ∧ KeepsInput s (s.respond result good) := by
  obtain ⟨hcore, hkeeps⟩ := write_core s mainThread result good
  unfold State.respond
  rw [hcore]
  exact ⟨rfl, hkeeps.input, hkeeps.ended, hkeeps.line, hkeeps.oversized, hkeeps.budget⟩

private theorem blind_respond (s : State) (result : ProcessResult) (good : Bool) :
    Blind s (some (s.core.respond result good)) (some (s.respond result good)) :=
  .next (respond_core s result good).1 (respond_core s result good).2

private theorem blind_processAction (s : State) (action : LineAction) (good : Bool) :
    Blind s (s.core.processAction action good) (s.processAction action good) := by
  have hs : s.core.hasScheduler = s.hasScheduler := rfl
  unfold State.processAction
  rw [hs]
  split
  · exact blind_respond ..
  · split
    · exact blind_call ..
    · exact .next rfl ⟨rfl, rfl, rfl, rfl, rfl⟩
  · exact blind_respond ..
  · split
    · exact blind_call ..
    · exact blind_respond ..

private theorem blind_finish (s : State) : Blind s s.core.finish s.finish := by
  have hs : s.core.hasScheduler = s.hasScheduler := rfl
  unfold State.finish
  rw [hs]
  split
  · exact blind_call ..
  · exact .next rfl ⟨rfl, rfl, rfl, rfl, rfl⟩

private theorem blind_exit (s : State) : Blind s s.core.exit s.exit := by
  have hr : s.core.reader = s.reader := rfl
  have hs : s.core.hasScheduler = s.hasScheduler := rfl
  unfold State.exit
  rw [hr, hs]
  split
  · split
    · exact blind_call ..
    · exact .next rfl ⟨rfl, rfl, rfl, rfl, rfl⟩
  · exact blind_call ..
  · exact .stuck

private theorem blind_answered (s : State) (good : Bool) : Blind s (s.core.answered good) (s.answered good) := by
  have hr : s.core.reader = s.reader := rfl
  have hs : s.core.submitted = s.submitted := rfl
  unfold State.answered
  rw [hr, hs]
  split
  · split
    · exact .stuck
    · exact .next rfl ⟨rfl, rfl, rfl, rfl, rfl⟩
    · exact .map fun result => respond_core s result good
  · exact .next rfl ⟨rfl, rfl, rfl, rfl, rfl⟩
  · exact .next rfl ⟨rfl, rfl, rfl, rfl, rfl⟩
  · exact .next rfl ⟨rfl, rfl, rfl, rfl, rfl⟩
  all_goals exact .stuck

private theorem blind_advance (s : State) (frame : Bool) (wake : Option Nat) (good : Bool) :
    Blind s (s.core.advance frame wake good) (s.advance frame wake good) := by
  have hs : s.core.scheduler = s.scheduler := rfl
  unfold State.advance
  rw [hs]
  cases Scheduler.threadStep s.scheduler mainThread frame wake with
  | none => exact .stuck
  | some scheduler =>
    simp only [Option.bind_eq_bind, Option.bind_some]
    split
    · obtain ⟨hcore, hkeeps⟩ := blind_answered { s with scheduler } good
      exact ⟨hcore, fun s' h => (KeepsInput.mk rfl rfl rfl rfl rfl : KeepsInput s { s with scheduler }).trans (hkeeps s' h)⟩
    · exact .next rfl ⟨rfl, rfl, rfl, rfl, rfl⟩

private theorem blind_complete (s : State) (w : Nat) (h : Scheduler.Handle) (result : ToolExecutionResult)
    (good : Bool) : Blind s (s.core.complete w h result good) (s.complete w h result good) := by
  have hs : s.core.server = s.server := rfl
  have hc : s.core.scheduler = s.scheduler := rfl
  unfold State.complete
  rw [hs, hc]
  split
  · exact .next rfl ⟨rfl, rfl, rfl, rfl, rfl⟩
  · rename_i r _
    obtain ⟨hcore, hkeeps⟩ := write_core s (.worker w) r good
    rw [hcore]
    generalize s.write (.worker w) r good = out at hkeeps
    obtain ⟨s₁, success⟩ := out
    cases success with
    | true => exact .next rfl ⟨hkeeps.input, hkeeps.ended, hkeeps.line, hkeeps.oversized, hkeeps.budget⟩
    | false => exact .map fun _ => ⟨rfl, hkeeps.input, hkeeps.ended, hkeeps.line, hkeeps.oversized, hkeeps.budget⟩

private theorem blind_work (s : State) (w : Nat) (good : Bool) :
    Blind s (s.core.work execute w good) (s.work execute w good) := by
  have ht : s.core.toComplete w = s.toComplete w := rfl
  unfold State.work
  rw [ht]
  split
  · exact blind_complete ..
  · exact blind_pass ..

/-- Only the reader looks at the input. -/
private theorem blind_step (N : Nlohmann) (execute : Bytes → Json → ToolExecutionResult) (s : State) {a : Action}
    (ha : ∀ broken good, a ≠ .read broken good) :
    Blind s (step N execute s.core a) (step N execute s a) := by
  cases a with
  | read broken good => exact absurd rfl (ha broken good)
  | exit => exact blind_exit s
  | advance frame wake good => exact blind_advance s frame wake good
  | work w good =>
    have hs : s.core.hasScheduler = s.hasScheduler := rfl
    simp only [step, hs]
    split
    · exact blind_work s w good
    · exact .stuck
  | stop w frame wake => exact blind_pass ..
  | wakeWorker w => exact blind_pass ..
  | wakeReader => exact blind_pass ..
  | tick => exact blind_pass ..

/-- What the end of a line comes to depends on the line alone. -/
private theorem blind_processCurrentLine (N : Nlohmann) (s : State) (line : Bytes) (good : Bool)
    (hl : s.line = line.take s.server.budget.maxRequestBytes)
    (ho : s.oversized = decide (s.server.budget.maxRequestBytes < line.length)) :
    Blind { s with line := [], oversized := false } (s.core.handleLine N line good) (s.processCurrentLine N good) := by
  have hs : s.core.server = s.server := rfl
  unfold State.handleLine State.processCurrentLine State.currentAction
  rw [hs]
  by_cases hlong : s.server.budget.maxRequestBytes < line.length
  · rw [if_neg (by omega), if_pos (by rw [ho]; exact decide_eq_true hlong)]
    cases s.server.requestTooLarge with
    | none => exact .stuck
    | some result => exact blind_respond { s with line := [], oversized := false } result good
  · have hshort : s.line = line := by rw [hl, List.take_of_length_le (by omega)]
    rw [if_pos (by omega), if_neg (by rw [ho]; simpa using hlong), hshort]
    cases haccept : s.server.acceptLine N (State.withoutCarriageReturn line) with
    | none => exact .stuck
    | some out =>
      have hbudget : out.2.budget = s.server.budget := by
        obtain ⟨a, server', ha, hlaw⟩ := acceptLine_lifecycle N s.server (State.withoutCarriageReturn line)
        rw [haccept] at ha
        obtain rfl : out = (a, server') := Option.some.inj ha
        exact hlaw.budget
      have hbase : KeepsInput { s with line := [], oversized := false }
          { s with server := out.2, line := [], oversized := false } := ⟨rfl, rfl, rfl, rfl, hbudget⟩
      obtain ⟨hcore, hkeeps⟩ :=
        blind_processAction { s with server := out.2, line := [], oversized := false } out.1 good
      exact ⟨hcore, fun s' h => hbase.trans (hkeeps s' h)⟩

/-! ### The reader's positions -/

/-- The reader has failed. -/
def Reader.isFailing : Reader → Bool
  | .failing | .stopping | .stopped => true
  | .shuttingDown status | .returned status => status ≠ 0
  | .reading | .submitting _ | .cancelling => false

/-- The reader is at the end of its input without having failed. -/
def Reader.IsDone : Reader → Prop
  | .shuttingDown status | .returned status => status = 0
  | _ => False

/-- A reader that has failed stays so, and only the loop comes to its end. -/
def Reader.Leads (r r' : Reader) : Prop :=
  r' = r ∨ r'.isFailing = true ∨ r.isFailing = false ∧ (r'.IsDone → r.IsDone)

private theorem proceed_reader (s : State) (success : Bool) : ¬ (s.proceed success).reader.IsDone := by
  cases success with
  | true => exact id
  | false => exact id

private theorem respond_reader (s : State) (result : ProcessResult) (good : Bool) :
    ¬ (s.respond result good).reader.IsDone := proceed_reader _ _

private theorem call_reader {request : Scheduler.Request} {position : Reader}
    (h : s.call request position = some s') : s'.reader = position := by
  obtain ⟨scheduler, -, rfl⟩ := Option.map_eq_some_iff.1 h
  rfl

private theorem processAction_reader {action : LineAction} {good : Bool}
    (h : s.processAction action good = some s') : ¬ s'.reader.IsDone := by
  unfold State.processAction at h
  split at h
  · cases h
    exact respond_reader _ _ _
  · split at h
    · rw [call_reader h]
      exact id
    · cases h
      exact proceed_reader _ _
  · cases h
    exact respond_reader _ _ _
  · split at h
    · rw [call_reader h]
      exact id
    · cases h
      exact respond_reader _ _ _

private theorem processCurrentLine_reader {good : Bool} (h : s.processCurrentLine N good = some s') :
    ¬ s'.reader.IsDone := by
  obtain ⟨out, -, h⟩ := Option.bind_eq_some_iff.1 h
  exact processAction_reader h

private theorem exit_leads (h : s.exit = some s') : s.reader.Leads s'.reader := by
  unfold State.exit at h
  split at h
  · split at h
    · rw [call_reader h]
      exact .inr (.inl rfl)
    · cases h
      exact .inr (.inl rfl)
  · rw [call_reader h]
    exact .inr (.inl rfl)
  · cases h

private theorem answered_leads {good : Bool} (h : s.answered good = some s') : s.reader.Leads s'.reader := by
  unfold State.answered at h
  split at h
  · rename_i id hr
    rw [hr]
    refine .inr (.inr ⟨rfl, fun hd => ?_⟩)
    split at h
    · cases h
    · cases h
      exact absurd hd (proceed_reader _ _)
    · obtain ⟨result, -, rfl⟩ := Option.map_eq_some_iff.1 h
      exact absurd hd (respond_reader _ _ _)
  · rename_i hr
    rw [hr]
    cases h
    exact .inr (.inr ⟨rfl, fun hd => absurd hd (proceed_reader _ _)⟩)
  · cases h
    exact .inr (.inl rfl)
  · rename_i status hr
    rw [hr]
    cases h
    by_cases hw : s.writerFailed = true
    · exact .inr (.inl (by simp [hw, Reader.isFailing]))
    · by_cases hs : status = 0
      · exact .inr (.inr ⟨by simp [hs, Reader.isFailing], fun _ => hs⟩)
      · exact .inr (.inl (by simp [hw, hs, Reader.isFailing]))
  all_goals cases h

private theorem advance_leads {frame good : Bool} {wake : Option Nat} (h : s.advance frame wake good = some s') :
    s.reader.Leads s'.reader := by
  obtain ⟨scheduler, -, h⟩ := Option.bind_eq_some_iff.1 h
  dsimp only at h
  split at h
  · exact answered_leads (s := { s with scheduler }) h
  · cases h
    exact .inl rfl

private theorem write_reader (s : State) (t : Scheduler.ThreadId) (result : ProcessResult) (good : Bool) :
    (s.write t result good).1.reader = s.reader := by
  unfold State.write
  split
  · rfl
  split
  · rfl
  · rfl

private theorem work_leads {w : Nat} {good : Bool} (h : s.work execute w good = some s') :
    s.reader.Leads s'.reader := by
  refine .inl ?_
  unfold State.work at h
  split at h
  · unfold State.complete at h
    split at h
    · cases h
      rfl
    · rename_i r _
      have hr := write_reader s (.worker w) r good
      split at h
      · rename_i he
        rw [he] at hr
        cases h
        exact hr
      · rename_i he
        rw [he] at hr
        obtain ⟨scheduler, -, rfl⟩ := Option.map_eq_some_iff.1 h
        exact hr
  · obtain ⟨scheduler, -, rfl⟩ := Option.map_eq_some_iff.1 h
    rfl

private theorem step_leads {a : Action} (ha : ∀ broken good, a ≠ .read broken good)
    (h : step N execute s a = some s') : s.reader.Leads s'.reader := by
  have hpass : ∀ r, s.pass r = some s' → s.reader.Leads s'.reader := by
    intro r hr
    obtain ⟨scheduler, -, rfl⟩ := Option.map_eq_some_iff.1 hr
    exact .inl rfl
  cases a with
  | read broken good => exact absurd rfl (ha broken good)
  | exit => exact exit_leads h
  | advance frame wake good => exact advance_leads h
  | work w good =>
    simp only [step] at h
    split at h
    · exact work_leads h
    · cases h
  | stop w frame wake => exact hpass _ h
  | wakeWorker w => exact hpass _ h
  | wakeReader => exact hpass _ h
  | tick => exact hpass _ h

/-! ### What has been read of a line -/

/-- The end of a line, at a newline or at the end of the input. -/
inductive LineEnd (s : State) : State → Prop where
  | newline (rest : Bytes) (hi : s.input = 0x0A :: rest) : LineEnd s { s with input := rest }
  | ending (hi : s.input = []) (hl : s.oversized = true ∨ s.line ≠ []) : LineEnd s { s with ended := true }

/-- The reader has `lines` before it, and `consumed` is what it has read of the first of them. -/
structure Framed (s : State) (lines : List Bytes) (consumed : Bytes) (more : List Bytes) (last : Bytes) : Prop where
  split : lines = allLines more last
  input : consumed ++ s.input = unlines more ++ last
  closed : ∀ line ∈ more, 0x0A ∉ line
  unended : 0x0A ∉ last
  unfinished : 0x0A ∉ consumed
  line : s.line = consumed.take s.server.budget.maxRequestBytes
  oversized : s.oversized = decide (s.server.budget.maxRequestBytes < consumed.length)
  drained : s.ended = true ∨ s.reader.IsDone → lines = []

section

variable {lines more : List Bytes} {consumed last : Bytes}

/-- Without a newline there is only the last line. -/
private theorem Framed.atEnd (hf : Framed s lines consumed more last) (hi : s.input = []) :
    lines = allLines [] consumed := by
  have hinput := hf.input
  rw [hi, List.append_nil] at hinput
  have hmore : more = [] := by
    apply unlines_eq_nil
    intro hm
    refine hf.unfinished ?_
    rw [hinput]
    exact List.mem_append_left _ hm
  have hlast : consumed = last := by
    rw [hinput, hmore]
    rfl
  rw [hf.split, hmore, hlast]

/-- A line ends where the next of the lines does, and what follows is framed as it would be without it. -/
private theorem Framed.lineEnd {s₀ : State} (hf : Framed s lines consumed more last) (he : LineEnd s s₀) :
    ∃ rest more' last', lines = consumed :: rest ∧
      ∀ s', KeepsInput { s₀ with line := [], oversized := false } s' → ¬ s'.reader.IsDone →
        Framed s' rest [] more' last' := by
  have hframe : ∀ rest more' last', lines = consumed :: rest → rest = allLines more' last' →
      s₀.input = unlines more' ++ last' → (∀ line ∈ more', 0x0A ∉ line) → 0x0A ∉ last' →
      (s₀.ended = true → rest = []) → ∀ s', KeepsInput { s₀ with line := [], oversized := false } s' →
      ¬ s'.reader.IsDone → Framed s' rest [] more' last' := by
    intro rest more' last' hl hrest hinput hclosed hopen hended s' hk hr
    refine ⟨hrest, hk.input.trans hinput, hclosed, hopen, List.not_mem_nil, ?_, ?_, ?_⟩
    · rw [hk.line, List.take_nil]
    · rw [hk.oversized]
      simp
    · rintro (he | hd)
      · exact hended (hk.ended ▸ he)
      · exact absurd hd hr
  cases he with
  | newline rest hi =>
    have hinput := hf.input
    rw [hi] at hinput
    cases hm : more with
    | nil =>
      rw [hm] at hinput
      have hmem : 0x0A ∈ last := by
        have hcut : consumed ++ 0x0A :: rest = last := hinput
        rw [← hcut]
        simp
      exact absurd hmem hf.unended
    | cons first more' =>
      rw [hm, unlines_cons, List.append_assoc, List.cons_append] at hinput
      have hfirst : 0x0A ∉ first := hf.closed first (by rw [hm]; exact List.mem_cons_self)
      obtain ⟨hconsumed, hrest⟩ := append_newline_inj hf.unfinished hfirst hinput
      have hlines : lines = consumed :: allLines more' last := by
        rw [hf.split, hm, hconsumed]
        rfl
      refine ⟨_, more', last, hlines, hframe _ more' last hlines rfl hrest ?_ hf.unended fun hended => ?_⟩
      · intro line hl
        exact hf.closed line (by rw [hm]; exact List.mem_cons_of_mem _ hl)
      · rw [hf.drained (.inl hended)] at hlines
        cases hlines
  | ending hi hl =>
    have hconsumed : consumed ≠ [] := by
      rintro rfl
      rcases hl with ho | hl
      · rw [hf.oversized] at ho
        simp at ho
      · exact hl (hf.line.trans List.take_nil)
    have hlines : lines = [consumed] := by
      rw [hf.atEnd hi, allLines, if_neg hconsumed]
      rfl
    exact ⟨[], [], [], hlines, hframe [] [] [] hlines rfl hi (fun _ hm => absurd hm List.not_mem_nil)
      List.not_mem_nil fun _ => rfl⟩

/-- One more byte of a line. -/
private theorem Framed.byte {c : UInt8} {input : Bytes} (hf : Framed s lines consumed more last)
    (hi : s.input = c :: input) (hc : c ≠ 0x0A) :
    Framed ({ s with input }.push c) lines (consumed ++ [c]) more last := by
  have hinput : consumed ++ c :: input = unlines more ++ last := hi ▸ hf.input
  rw [push_eq (s := { s with input }) c rfl hf.line hf.oversized]
  refine ⟨hf.split, ?_, hf.closed, hf.unended, ?_, rfl, rfl, hf.drained⟩
  · rw [List.append_assoc]
    exact hinput
  · simp only [List.mem_append, List.mem_singleton, not_or]
    exact ⟨hf.unfinished, fun he => hc he.symm⟩

/-- A step of the rest of the server. -/
private theorem Framed.keeps (hf : Framed s lines consumed more last) (hk : KeepsInput s s')
    (hd : s'.reader.IsDone → lines = []) : Framed s' lines consumed more last := by
  refine ⟨hf.split, ?_, hf.closed, hf.unended, hf.unfinished, ?_, ?_, ?_⟩
  · rw [hk.input]
    exact hf.input
  · rw [hk.line, hk.budget]
    exact hf.line
  · rw [hk.oversized, hk.budget]
    exact hf.oversized
  · rintro (he | hr)
    · exact hf.drained (.inl (hk.ended ▸ he))
    · exact hd hr

end

/-! ### The reader's loop refines the server over whole lines -/

/-- The server of `t` is that of `s`, and the reader of `s`, unless it has failed, has the lines of `t` before it. -/
structure Abstracts (budget : ResourceBudget) (s : State) (t : LineState) : Prop where
  core : t.core = s.core
  framed : s.reader.isFailing = true ∨ ∃ consumed more last, Framed s t.lines consumed more last
  configured : s.server.budget = budget
  bounded : s.line.length ≤ budget.maxRequestBytes

variable {t : LineState}

/-- A step that only the rest of the server takes. -/
private theorem Abstracts.other {a : Action} (h : Abstracts budget s t) (ha : ∀ broken good, a ≠ .read broken good)
    (hs : step N execute s a = some s') : ∃ t', lineStep N execute t a = some t' ∧ Abstracts budget s' t' := by
  obtain ⟨hcore, hkeeps⟩ := blind_step N execute s ha
  have hk := hkeeps s' hs
  have hstep : lineStep N execute t a = some { t with core := s'.core } := by
    have hmap : lineStep N execute t a = (step N execute t.core a).map fun core => { t with core } := by
      cases a with
      | read broken good => exact absurd rfl (ha broken good)
      | exit | advance | work | stop | wakeWorker | wakeReader | tick => rfl
    rw [hmap, h.core, hcore, hs]
    rfl
  refine ⟨_, hstep, rfl, ?_, hk.budget.trans h.configured, by rw [hk.line]; exact h.bounded⟩
  rcases step_leads ha hs with hr | hr | ⟨hr, hd⟩
  · rcases h.framed with hf | ⟨consumed, more, last, hf⟩
    · exact .inl (by rw [hr]; exact hf)
    · exact .inr ⟨consumed, more, last, hf.keeps hk fun hd => hf.drained (.inr (hr ▸ hd))⟩
  · exact .inl hr
  · rcases h.framed with hf | ⟨consumed, more, last, hf⟩
    · rw [hr] at hf
      cases hf
    · exact .inr ⟨consumed, more, last, hf.keeps hk fun hd' => hf.drained (.inr (hd hd'))⟩

/-- A failure of the transport. -/
private theorem Abstracts.broken (h : Abstracts budget s t) (hr : s.reader = .reading) (input : Bytes) (ended good : Bool) :
    ∃ t', lineStep N execute t (.read true good) = some t' ∧
      Abstracts budget { s with input, ended, inputFailed := true, reader := .failing } t' := by
  have hreader : t.core.reader = .reading := by
    rw [h.core]
    exact hr
  refine ⟨_, by simp only [lineStep, hreader]; rfl, ?_, .inl rfl, h.configured, h.bounded⟩
  rw [h.core]
  rfl

private theorem LineEnd.same {s₀ : State} (he : LineEnd s s₀) :
    s₀.core = s.core ∧ s₀.line = s.line ∧ s₀.oversized = s.oversized ∧ s₀.server = s.server := by
  cases he with
  | newline rest hi => exact ⟨rfl, rfl, rfl, rfl⟩
  | ending hi hl => exact ⟨rfl, rfl, rfl, rfl⟩

/-- What ends is the next of the lines, and it comes to what that line comes to. -/
private theorem Abstracts.lineEnd {s₀ : State} (h : Abstracts budget s t) (hr : s.reader = .reading)
    (he : LineEnd s s₀) (N : Nlohmann) (good : Bool) : ∃ line rest more last, t.lines = line :: rest ∧
      Blind { s₀ with line := [], oversized := false } (t.core.handleLine N line good)
        (s₀.processCurrentLine N good) ∧
      ∀ s', KeepsInput { s₀ with line := [], oversized := false } s' → ¬ s'.reader.IsDone →
        Framed s' rest [] more last := by
  obtain ⟨hcore, hline, hoversized, hserver⟩ := he.same
  rcases h.framed with hf | ⟨consumed, more, last, hf⟩
  · rw [hr] at hf
    cases hf
  obtain ⟨rest, more', last', hlines, hframe⟩ := hf.lineEnd he
  have hblind := blind_processCurrentLine N s₀ consumed good
    (by rw [hline, hserver]; exact hf.line) (by rw [hoversized, hserver]; exact hf.oversized)
  rw [hcore, ← h.core] at hblind
  exact ⟨consumed, rest, more', last', hlines, hblind, hframe⟩

/-- The end of a line is one step of the server over whole lines. -/
private theorem Abstracts.handled {s₀ : State} {good : Bool} (h : Abstracts budget s t) (hr : s.reader = .reading)
    (he : LineEnd s s₀) (hs : s₀.processCurrentLine N good = some s') :
    ∃ t', lineStep N execute t (.read false good) = some t' ∧ Abstracts budget s' t' := by
  have hreader : t.core.reader = .reading := by
    rw [h.core]
    exact hr
  obtain ⟨line, rest, more, last, hlines, hblind, hframe⟩ := h.lineEnd hr he N good
  have hk := hblind.keeps s' hs
  have hstep : lineStep N execute t (.read false good) = some ⟨s'.core, rest⟩ := by
    simp only [lineStep, hreader, hlines]
    rw [hblind.core, hs]
    rfl
  refine ⟨_, hstep, rfl, .inr ⟨[], more, last, hframe s' hk (processCurrentLine_reader hs)⟩, ?_, ?_⟩
  · have hserver : s₀.server = s.server := he.same.2.2.2
    exact hk.budget.trans (hserver ▸ h.configured)
  · rw [hk.line]
    exact Nat.zero_le _

private theorem push_bounded {m : Nat} (c : UInt8) (hm : s.server.budget.maxRequestBytes = m)
    (hl : s.line.length ≤ m) : (s.push c).line.length ≤ m := by
  unfold State.push
  split
  · exact hl
  split
  · exact hl
  · rw [List.length_append, List.length_singleton]
    omega

private theorem push_same (c : UInt8) : (s.push c).core = s.core ∧ (s.push c).reader = s.reader ∧
    (s.push c).server = s.server := by
  unfold State.push
  split
  · exact ⟨rfl, rfl, rfl⟩
  split
  · exact ⟨rfl, rfl, rfl⟩
  · exact ⟨rfl, rfl, rfl⟩

/-- A byte that does not end a line is no step of the server over whole lines. -/
private theorem Abstracts.byte {c : UInt8} {input : Bytes} (h : Abstracts budget s t) (hr : s.reader = .reading)
    (hi : s.input = c :: input) (hc : c ≠ 0x0A) : Abstracts budget ({ s with input }.push c) t := by
  obtain ⟨hcore, hreader, hserver⟩ := push_same (s := { s with input }) c
  rcases h.framed with hf | ⟨consumed, more, last, hf⟩
  · rw [hr] at hf
    cases hf
  refine ⟨h.core.trans hcore.symm, .inr ⟨_, more, last, hf.byte hi hc⟩, ?_, ?_⟩
  · rw [hserver]
    exact h.configured
  · exact push_bounded c (congrArg ResourceBudget.maxRequestBytes h.configured) h.bounded

/-- The end of an input whose last line has ended. -/
private theorem Abstracts.ended (h : Abstracts budget s t) (hr : s.reader = .reading) (hi : s.input = [])
    (hl : s.line = []) (ho : s.oversized = false) : Abstracts budget { s with ended := true } t := by
  rcases h.framed with hf | ⟨consumed, more, last, hf⟩
  · rw [hr] at hf
    cases hf
  have hconsumed : consumed = [] := by
    have hlong := hf.oversized
    rw [ho, eq_comm, decide_eq_false_iff_not] at hlong
    rw [← List.take_of_length_le (Nat.le_of_not_lt hlong), ← hf.line, hl]
  have hlines : t.lines = [] := by
    rw [hf.atEnd hi, hconsumed]
    rfl
  exact ⟨h.core, .inr ⟨consumed, more, last, hf.split, hf.input, hf.closed, hf.unended, hf.unfinished, hf.line,
    hf.oversized, fun _ => hlines⟩, h.configured, h.bounded⟩

/-- The end of `run_stdio`: every line has been handled. -/
private theorem Abstracts.finish (good : Bool) (h : Abstracts budget s t) (hr : s.reader = .reading)
    (he : s.ended = true) (hs : s.finish = some s') :
    ∃ t', lineStep N execute t (.read false good) = some t' ∧ Abstracts budget s' t' := by
  have hreader : t.core.reader = .reading := by
    rw [h.core]
    exact hr
  rcases h.framed with hf | ⟨consumed, more, last, hf⟩
  · rw [hr] at hf
    cases hf
  have hlines := hf.drained (.inl he)
  obtain ⟨hblind, hkeeps⟩ := blind_finish s
  have hk := hkeeps s' hs
  have hstep : lineStep N execute t (.read false good) = some { t with core := s'.core } := by
    simp only [lineStep, hreader, hlines]
    rw [h.core, hblind, hs]
    rfl
  refine ⟨_, hstep, rfl, .inr ⟨consumed, more, last, hf.keeps hk fun _ => hlines⟩, hk.budget.trans h.configured, ?_⟩
  rw [hk.line]
  exact h.bounded

/-- A step of the reader. -/
private theorem Abstracts.read {broken good : Bool} (h : Abstracts budget s t) (hr : s.reader = .reading)
    (hs : s.read N broken good = some s') :
    ∃ t', (t' = t ∨ ∃ a, lineStep N execute t a = some t') ∧ Abstracts budget s' t' := by
  unfold State.read at hs
  split at hs
  · rename_i c rest hi
    split at hs
    · cases hs
      obtain ⟨t', ht, ha⟩ := h.broken hr rest s.ended good
      exact ⟨t', .inr ⟨_, ht⟩, ha⟩
    · split at hs
      · rename_i hc
        obtain ⟨t', ht, ha⟩ := h.handled hr (.newline rest (hc ▸ hi)) hs
        exact ⟨t', .inr ⟨_, ht⟩, ha⟩
      · rename_i hc
        cases hs
        exact ⟨t, .inl rfl, h.byte hr hi hc⟩
  · rename_i hi
    split at hs
    · rename_i he
      obtain ⟨t', ht, ha⟩ := h.finish good hr he hs
      exact ⟨t', .inr ⟨_, ht⟩, ha⟩
    split at hs
    · cases hs
      obtain ⟨t', ht, ha⟩ := h.broken hr s.input true good
      exact ⟨t', .inr ⟨_, ht⟩, ha⟩
    split at hs
    · rename_i hl
      have hl : s.oversized = true ∨ s.line ≠ [] := by simpa using hl
      obtain ⟨t', ht, ha⟩ := h.handled hr (.ending hi hl) hs
      exact ⟨t', .inr ⟨_, ht⟩, ha⟩
    · rename_i hl
      have hl : s.oversized = false ∧ s.line = [] := by simpa using hl
      cases hs
      exact ⟨t, .inl rfl, h.ended hr hi hl.2 hl.1⟩

/-- Every step is one step or none of the server over whole lines. -/
private theorem Abstracts.step {a : Action} (h : Abstracts budget s t) (hs : step N execute s a = some s') :
    ∃ t', (t' = t ∨ ∃ a, lineStep N execute t a = some t') ∧ Abstracts budget s' t' := by
  by_cases ha : ∃ broken good, a = .read broken good
  · obtain ⟨broken, good, rfl⟩ := ha
    cases hr : s.reader with
    | reading =>
      have hread : s.read N broken good = some s' := by simpa only [Stdio.step, hr] using hs
      exact h.read hr hread
    | submitting | cancelling | failing | stopping | stopped | shuttingDown | returned =>
      simp only [Stdio.step, hr] at hs
      cases hs
  · obtain ⟨t', ht, ha⟩ := h.other (fun broken good he => ha ⟨broken, good, he⟩) hs
    exact ⟨t', .inr ⟨_, ht⟩, ha⟩

private theorem abstracts_initial (hb : isBudgetValid budget = true) (lines : List (Bytes × Terminator)) (last : Bytes)
    (hlines : ∀ line ∈ lines, 0x0A ∉ line.1) (hlast : 0x0A ∉ last) :
    Abstracts budget (initial budget tools (encodeLines lines last))
      ⟨(initial budget tools []).core, receivedLines lines last⟩ := by
  have hreader : (initial budget tools (encodeLines lines last)).reader = .reading := if_pos hb
  refine ⟨rfl, .inr ⟨[], lines.map fun line => line.1 ++ line.2.carriageReturn, last, rfl, ?_, ?_, hlast,
    List.not_mem_nil, List.take_nil.symm, rfl, ?_⟩, ?_, Nat.zero_le _⟩
  · exact encodeLines_eq lines last
  · intro line hm
    obtain ⟨⟨content, terminator⟩, hmem, rfl⟩ := List.mem_map.1 hm
    have hcontent : 0x0A ∉ content := hlines _ hmem
    cases terminator <;> simpa [Terminator.carriageReturn] using hcontent
  · rintro (he | hd)
    · cases he
    · rw [hreader] at hd
      exact hd.elim
  · show effectiveBudget budget = budget
    exact if_pos hb

/-- Every run is a run of the server over whole lines. -/
private theorem abstracts_run (hb : isBudgetValid budget = true) (lines : List (Bytes × Terminator)) (last : Bytes)
    (hlines : ∀ line ∈ lines, 0x0A ∉ line.1) (hlast : 0x0A ∉ last)
    (hs : (machine N execute budget tools (encodeLines lines last)).system.Reachable s) :
    ∃ t, (lineMachine N execute budget tools (receivedLines lines last)).system.Reachable t ∧
      Abstracts budget s t := by
  apply TransitionSystem.Reachable.invariant (T := (machine N execute budget tools (encodeLines lines last)).system)
    (I := fun s => ∃ t, (lineMachine N execute budget tools (receivedLines lines last)).system.Reachable t ∧
      Abstracts budget s t) ?_ ?_ hs
  · rintro s rfl
    exact ⟨_, .init rfl, abstracts_initial hb lines last hlines hlast⟩
  · rintro s s' - ⟨t, ht, ha⟩ ⟨a, hstep⟩
    obtain ⟨t', (rfl | ⟨b, hb⟩), ha'⟩ := ha.step hstep
    · exact ⟨t', ht, ha'⟩
    · exact ⟨t', ht.step ⟨b, hb⟩, ha'⟩

private theorem step_read {good : Bool} (hr : s.reader = .reading) :
    step N execute s (.read false good) = s.read N false good := by
  simp only [Stdio.step, hr]

/-- Further reading comes to the end of the next line. -/
private theorem Abstracts.next {line : Bytes} {rest : List Bytes} {good : Bool} {u : State}
    (h : Abstracts budget s t) (hr : s.reader = .reading) (hl : t.lines = line :: rest)
    (hu : t.core.handleLine N line good = some u) :
    ∃ n s', (machine N execute budget tools input).run s (List.replicate n (.read false good)) = some s' ∧
      s'.core = u := by
  -- One step is enough at the end of the line.
  have hend : ∀ s : State, ∀ s₀, Abstracts budget s t → s.reader = .reading → LineEnd s s₀ →
      s.read N false good = s₀.processCurrentLine N good →
      ∃ n s', (machine N execute budget tools input).run s (List.replicate n (.read false good)) = some s' ∧
        s'.core = u := by
    intro s s₀ h hr he hs₀
    obtain ⟨line', rest', -, -, hlines, hblind, -⟩ := h.lineEnd hr he N good
    rw [hl] at hlines
    obtain ⟨rfl, -⟩ := List.cons.inj hlines
    have hcore := hblind.core
    rw [hu] at hcore
    obtain ⟨s', hs', hc⟩ := Option.map_eq_some_iff.1 hcore.symm
    refine ⟨1, s', ?_, hc⟩
    show (Stdio.step N execute s (.read false good)).bind some = some s'
    rw [step_read hr, hs₀, hs']
    rfl
  induction hi : s.input generalizing s with
  | nil =>
    rcases h.framed with hf | ⟨consumed, more, last, hf⟩
    · rw [hr] at hf
      cases hf
    have hlines := hf.atEnd hi
    have hended : s.ended ≠ true := by
      intro he
      rw [hf.drained (.inl he)] at hl
      cases hl
    have hconsumed : consumed ≠ [] := by
      rintro rfl
      rw [hl] at hlines
      cases hlines
    have hleft : s.oversized = true ∨ s.line ≠ [] := by
      by_cases hlong : s.server.budget.maxRequestBytes < consumed.length
      · exact .inl (hf.oversized.trans (decide_eq_true hlong))
      · right
        rw [hf.line, List.take_of_length_le (by omega)]
        exact hconsumed
    refine hend s _ h hr (.ending hi hleft) ?_
    have hleft' : (s.oversized || !s.line.isEmpty) = true := by simpa using hleft
    simp only [State.read, hi, hended, hleft', if_false, if_true, Bool.false_eq_true]
  | cons c input' ih =>
    by_cases hc : c = 0x0A
    · refine hend s _ h hr (.newline input' (hc ▸ hi)) ?_
      simp only [State.read, hi, hc, if_true, if_false, Bool.false_eq_true]
    · have hpush : s.read N false good = some ({ s with input := input' }.push c) := by
        simp only [State.read, hi, hc, if_false, Bool.false_eq_true]
      obtain ⟨-, hreader, -⟩ := push_same (s := { s with input := input' }) c
      have hrest : ({ s with input := input' }.push c).input = input' := by
        unfold State.push
        split
        · rfl
        split <;> rfl
      obtain ⟨n, s', hs', hcore⟩ := ih (h.byte hr hi hc) (hreader.trans hr) hrest
      refine ⟨n + 1, s', ?_, hcore⟩
      rw [List.replicate_succ, Machine.run_cons]
      show (Stdio.step N execute s (.read false good)).bind _ = _
      rw [step_read hr, hpush]
      exact hs'

/-! ### The error for a line over the limit -/

def requestTooLargeError : Json :=
  JsonRpc.makeError .null JsonRpc.kRequestTooLarge "Request exceeds configured limit"

/-- The error is written if the response limit admits it; what would replace it is longer. -/
private theorem requestTooLarge_eq : ∃ text, requestTooLargeError.dump = some text ∧
    ∀ server : Server, server.requestTooLarge = some
      (if text.length ≤ server.budget.maxResponseBytes then ⟨some text, none⟩
        else ⟨none, some "response limit too small for a JSON-RPC error"⟩) := by
  have hlengths : (requestTooLargeError.dump.bind fun text => (responseTooLarge .null).dump.map fun text' =>
      decide (text.length < text'.length)) = some true := by decide +kernel
  obtain ⟨text, htext, hlengths⟩ := Option.bind_eq_some_iff.1 hlengths
  obtain ⟨text', htext', hlength⟩ := Option.map_eq_some_iff.1 hlengths
  have hlength := of_decide_eq_true hlength
  have hid : (responseTooLarge (responseId requestTooLargeError)).dump = (responseTooLarge .null).dump := by
    decide +kernel
  refine ⟨text, htext, fun server => ?_⟩
  show (serializeBounded requestTooLargeError server.budget none .ready).map (·.1) = _
  unfold serializeBounded
  rw [htext, hid, htext']
  by_cases hfits : text.length ≤ server.budget.maxResponseBytes
  · simp [hfits]
  · simp [hfits, show ¬ text'.length ≤ server.budget.maxResponseBytes by omega]

/-! ### The main result -/

/-- The lines of the input are handled one by one in order: a line within the limit is given to `accept_line` without
its carriage return, a longer one is answered with the error for it, and nothing of one line reaches the next.  The
buffer keeps within the limit, no line is left when `run_stdio` returns without a failure, and while it reads, further
reading handles the next line. -/
theorem framing_correct (hb : isBudgetValid budget = true) (lines : List (Bytes × Terminator)) (last : Bytes)
    (hlines : ∀ line ∈ lines, 0x0A ∉ line.1) (hlast : 0x0A ∉ last)
    (hs : (machine N execute budget tools (encodeLines lines last)).system.Reachable s) :
    s.line.length ≤ budget.maxRequestBytes ∧
    (∃ t, (lineMachine N execute budget tools (receivedLines lines last)).system.Reachable t ∧ t.core = s.core ∧
      (s.reader = .returned 0 → t.lines = []) ∧
      ∀ line rest good u, s.reader = .reading → t.lines = line :: rest → t.core.handleLine N line good = some u →
        ∃ n s', (machine N execute budget tools (encodeLines lines last)).run s
          (List.replicate n (.read false good)) = some s' ∧ s'.core = u) ∧
    ∃ text, requestTooLargeError.dump = some text ∧ ∀ server : Server, server.requestTooLarge = some
      (if text.length ≤ server.budget.maxResponseBytes then ⟨some text, none⟩
        else ⟨none, some "response limit too small for a JSON-RPC error"⟩) := by
  obtain ⟨t, ht, ha⟩ := abstracts_run hb lines last hlines hlast hs
  refine ⟨ha.bounded, ⟨t, ht, ha.core, fun hr => ?_, ?_⟩, requestTooLarge_eq⟩
  · rcases ha.framed with hf | ⟨consumed, more, last, hf⟩
    · rw [hr] at hf
      cases hf
    · exact hf.drained (.inr (by rw [hr]; rfl))
  · intro line rest good u hr hl hu
    exact ha.next hr hl hu

/-! ### Examples -/

private theorem isUtf8_of_none (_line : Bytes) (m : Json) (h : none = some m) : m.isUtf8 = true :=
  absurd h.symm (Option.some_ne_none m)

def noTextReader : Nlohmann := ⟨fun _ => [.parseError], fun _ => none, isUtf8_of_none⟩

def noTool : Bytes → Json → ToolExecutionResult := fun _ _ => ⟨true, .null⟩

def oneByteBudget : ResourceBudget := { conservativeBudget with maxRequestBytes := 1 }

private def isReturned (s : State) : Bool :=
  match s.reader with
  | .returned status => status = 0
  | _ => false

private theorem returned_of_run (budget : ResourceBudget) (input : Bytes) (n : Nat) (p : State → Bool)
    (h : ((machine noTextReader noTool budget none input).run (initial budget none input)
      (List.replicate n (.read false true))).map (fun s => isReturned s && p s) = some true) :
    ∃ s, (machine noTextReader noTool budget none input).system.Reachable s ∧
      s.reader = .returned 0 ∧ p s = true := by
  obtain ⟨s, hs, he⟩ := Option.map_eq_some_iff.1 h
  rw [Bool.and_eq_true] at he
  refine ⟨s, Machine.reachable_of_run (.init rfl) hs, ?_, he.2⟩
  have hr := he.1
  unfold isReturned at hr
  split at hr
  · rename_i status hreader
    rw [hreader, of_decide_eq_true hr]
  · cases hr

/-- A line of one byte, and one that its carriage return makes too long. -/
theorem framing_oneByte : ∃ s,
    (machine noTextReader noTool oneByteBudget none
      (encodeLines [(bytes "x", .lf), (bytes "x", .crlf)] (bytes "y"))).system.Reachable s ∧
    s.output.length = 3 ∧ s.line.length ≤ 1 ∧
    ∃ t, (lineMachine noTextReader noTool oneByteBudget none
      (receivedLines [(bytes "x", .lf), (bytes "x", .crlf)] (bytes "y"))).system.Reachable t ∧ t.core = s.core ∧
      t.lines = [] := by
  obtain ⟨s, hs, hr, ho⟩ := returned_of_run oneByteBudget
    (encodeLines [(bytes "x", .lf), (bytes "x", .crlf)] (bytes "y")) 8 (fun s => s.output.length = 3) (by decide +kernel)
  obtain ⟨hbounded, ⟨t, ht, hcore, hdone, -⟩, -⟩ := framing_correct (by decide)
    [(bytes "x", .lf), (bytes "x", .crlf)] (bytes "y") (by decide +kernel) (by decide +kernel) hs
  exact ⟨s, hs, of_decide_eq_true ho, hbounded, t, ht, hcore, hdone hr⟩

/-- A budget with a valid request limit may be refused for another limit, and then nothing is read; and a response
limit may be too small for the error that a line over the request limit is answered with. -/
theorem framing_refused :
    (∀ N execute s, (machine N execute { conservativeBudget with maxPendingRequests := 0 } none
      (encodeLines [(bytes "x", .lf)] [])).system.Reachable s → s.input = bytes "x\n") ∧
    isBudgetValid { oneByteBudget with maxResponseBytes := 1 } = true ∧
    ∃ s, (machine noTextReader noTool { oneByteBudget with maxResponseBytes := 1 } none
      (encodeLines [(bytes "xx", .lf)] [])).system.Reachable s ∧ s.reader = .returned 0 ∧ s.output = [] := by
  refine ⟨fun N execute s hs => ?_, by decide, ?_⟩
  · have hkept : s.reader.isFailing = true ∧ s.input = bytes "x\n" := by
      apply TransitionSystem.Reachable.invariant
        (T := (machine N execute { conservativeBudget with maxPendingRequests := 0 } none
          (encodeLines [(bytes "x", .lf)] [])).system)
        (I := fun s => s.reader.isFailing = true ∧ s.input = bytes "x\n") ?_ ?_ hs
      · rintro s rfl
        exact ⟨rfl, by decide +kernel⟩
      · rintro s s' - ⟨hf, hi⟩ ⟨a, hstep⟩
        by_cases ha : ∃ broken good, a = .read broken good
        · obtain ⟨broken, good, rfl⟩ := ha
          cases hr : s.reader with
          | reading =>
            rw [hr] at hf
            cases hf
          | submitting | cancelling | failing | stopping | stopped | shuttingDown | returned =>
            simp only [machine, Stdio.step, hr] at hstep
            cases hstep
        · have ha : ∀ broken good, a ≠ .read broken good := fun broken good he => ha ⟨broken, good, he⟩
          refine ⟨?_, ((blind_step N execute s ha).keeps s' hstep).input.trans hi⟩
          rcases step_leads ha hstep with hr | hr | ⟨hr, -⟩
          · rw [hr]
            exact hf
          · exact hr
          · rw [hr] at hf
            cases hf
    exact hkept.2
  · obtain ⟨s, hs, hr, ho⟩ := returned_of_run { oneByteBudget with maxResponseBytes := 1 }
      (encodeLines [(bytes "xx", .lf)] []) 5 (fun s => s.output.isEmpty) (by decide +kernel)
    exact ⟨s, hs, hr, List.isEmpty_iff.1 ho⟩

end Stdio

end NativeMcp
