import NativeMcp.Lib.TransitionSystem
import NativeMcp.Server.Model

/-!
# The serialized writer and its descriptors

`SerializedProtocolWriter::write` over the two `DescriptorBuffer`s of the process, one step for every access to what is
shared: the lock, the clock, the failure flag and the system calls.  The input side may raise the flag at any moment.

What reaches stdout are whole lines, in the order in which the lock was taken, and at most a piece of one more
(`lines_of_reachable`).  Once the flag is up, nothing is written but what the one `write` call transfers whose check of
the flag came before (`reached_of_failed`), and a later call with something to write returns false (`returns_false`).
-/

namespace NativeMcp

namespace Transport

inductive Channel where
  | stdout
  | stderr
  deriving DecidableEq, Repr

/-- A stream: the bytes that have reached its descriptor, and whether it is still good. -/
structure Stream where
  reached : Bytes := []
  good : Bool := true
  deriving DecidableEq, Repr

/-- One call of `xsputn`. -/
structure Transfer where
  channel : Channel
  data : Bytes
  written : Nat
  deadline : Nat
  deriving DecidableEq, Repr

/-- Where the call of `write` is that holds the lock.  `head`, `timing`, `calling`, `waiting` and `leaving` are the
places of the loop of `xsputn`: its condition, the reading of the clock, the system calls `write` and `poll`, and what
follows the loop. -/
inductive Stage where
  | entered
  | answering
  | head (t : Transfer)
  | timing (t : Transfer)
  | calling (t : Transfer)
  | waiting (t : Transfer)
  | leaving (t : Transfer)
  | flushing
  | judging
  deriving DecidableEq, Repr

structure State where
  failed : Bool := false
  clock : Nat := 0
  output : Stream := {}
  diagnostics : Stream := {}
  writerFailed : Bool := false
  current : Option (ProcessResult × Stage) := none
  history : List (ProcessResult × Bool) := []
  deriving DecidableEq

/-- What `::write` returns. -/
inductive WriteResult where
  | wrote (count : Nat)
  | interrupted
  | again
  | error
  deriving DecidableEq, Repr

inductive Action where
  | enter (r : ProcessResult)
  | proceed
  | write (result : WriteResult)
  | poll (succeeds : Bool)
  | tick (d : Nat)
  | inputFails

def State.stream (s : State) : Channel → Stream
  | .stdout => s.output
  | .stderr => s.diagnostics

def State.setStream (s : State) (c : Channel) (x : Stream) : State :=
  match c with
  | .stdout => { s with output := x }
  | .stderr => { s with diagnostics := x }

def diagnosticLine (diagnostic : String) : Bytes := bytes "native-mcp-sandbox: " ++ bytes diagnostic ++ [0x0A]

def responseLine (response : Bytes) : Bytes := response ++ [0x0A]

/-- What follows the transfer on a channel. -/
def after : Channel → Stage
  | .stderr => .answering
  | .stdout => .flushing

/-- `ostream::write`: nothing is written to a stream that is not good. -/
def begin (timeout : Nat) (s : State) (c : Channel) (data : Bytes) : Stage :=
  if (s.stream c).good then .head ⟨c, data, 0, s.clock + timeout⟩ else after c

/-- The lock is released. -/
def State.leave (s : State) (r : ProcessResult) (value : Bool) : State :=
  { s with current := none, history := s.history ++ [(r, value)] }

/-- The steps that do not depend on a system call. -/
def proceed (timeout : Nat) (s : State) (r : ProcessResult) : Stage → Option State
  | .entered =>
    if s.writerFailed then some (s.leave r false)
    else
      match r.diagnostic with
      | some d => some { s with current := some (r, begin timeout s .stderr (diagnosticLine d)) }
      | none => some { s with current := some (r, .answering) }
  | .answering =>
    match r.response with
    | some t => some { s with current := some (r, begin timeout s .stdout (responseLine t)) }
    | none => some { s with current := some (r, .judging) }
  | .head t =>
    if t.written < t.data.length && !s.failed then some { s with current := some (r, .timing t) }
    else some { s with current := some (r, .leaving t) }
  | .timing t =>
    if t.deadline ≤ s.clock then some { s with current := some (r, .leaving t) }
    else some { s with current := some (r, .calling t) }
  | .leaving t =>
    if t.written ≠ t.data.length then
      some { (s.setStream t.channel { s.stream t.channel with good := false }) with
        failed := true, current := some (r, after t.channel) }
    else some { s with current := some (r, after t.channel) }
  | .flushing =>
    -- `sync` fails when the flag is up
    if s.output.good && !s.failed then some { s with current := some (r, .judging) }
    else some ({ s with output := { s.output with good := false }, writerFailed := true }.leave r false)
  | .judging =>
    if s.diagnostics.good then some (s.leave r true)
    else some ({ s with writerFailed := true }.leave r false)
  | .calling _ => none
  | .waiting _ => none

/-- `::write` with the bytes from the cursor on. -/
def sysWrite (s : State) (r : ProcessResult) (t : Transfer) : WriteResult → State
  | .wrote count =>
    let n := min count (t.data.length - t.written)
    if n = 0 then { s with current := some (r, .leaving t) }
    else
      { (s.setStream t.channel { s.stream t.channel with
          reached := (s.stream t.channel).reached ++ (t.data.drop t.written).take n }) with
        current := some (r, .head { t with written := t.written + n }) }
  | .interrupted => { s with current := some (r, .head t) }
  | .again => { s with current := some (r, .waiting t) }
  | .error => { s with current := some (r, .leaving t) }

def step (timeout : Nat) (s : State) : Action → Option State
  | .enter r =>
    match s.current with
    | none => some { s with current := some (r, .entered) }
    | some _ => none
  | .proceed =>
    match s.current with
    | some (r, stage) => proceed timeout s r stage
    | none => none
  | .write result =>
    match s.current with
    | some (r, .calling t) => some (sysWrite s r t result)
    | _ => none
  | .poll succeeds =>
    match s.current with
    | some (r, .waiting t) => some { s with current := some (r, if succeeds then .head t else .leaving t) }
    | _ => none
  | .tick d => some { s with clock := s.clock + d }
  | .inputFails => some { s with failed := true }

/-- The writer of one process, with its write deadline. -/
def machine (timeout : Nat) : Machine State Action where
  init s := ∃ clock, s = { clock }
  step := step timeout

/-! ### The lines on stdout -/

def lineOf (r : ProcessResult) : Option Bytes := r.response.map responseLine

/-- The results whose calls have taken the lock, in that order. -/
def State.taken (s : State) : List ProcessResult := s.history.map (·.1) ++ (s.current.map (·.1)).toList

def State.lines (s : State) : List Bytes := s.taken.filterMap lineOf

/-- Whole lines, in order from the first, and at most a piece of the next one. -/
def Torn (lines : List Bytes) (reached : Bytes) : Prop :=
  ∃ n tail, n ≤ lines.length ∧ reached = (lines.take n).flatten ++ tail ∧
    (tail = [] ∨ ∃ line, lines[n]? = some line ∧ tail <+: line ∧ tail ≠ line)

def transferOf : Stage → Option Transfer
  | .head t | .timing t | .calling t | .waiting t | .leaving t => some t
  | .entered | .answering | .flushing | .judging => none

/-- What the call that holds the lock has sent to stdout as long as nothing went wrong. -/
def sent (r : ProcessResult) (stage : Stage) : Bytes :=
  match transferOf stage with
  | some t => if t.channel = .stdout then t.data.take t.written else []
  | none => if stage = .flushing ∨ stage = .judging then (lineOf r).getD [] else []

/-- The lines of the calls that have returned. -/
def State.doneLines (s : State) : List Bytes := (s.history.map (·.1)).filterMap lineOf

/-- Nothing has gone wrong on stdout: every line of a call that has returned is there. -/
structure Healthy (s : State) : Prop where
  writer : s.writerFailed = false
  good : s.output.good = true
  reached : s.output.reached =
    s.doneLines.flatten ++ (s.current.map fun c => sent c.1 c.2).getD []
  transfer : ∀ r stage t, s.current = some (r, stage) → transferOf stage = some t → t.channel = .stdout →
    lineOf r = some t.data

/-- Something has gone wrong: what has reached stdout stays, and the writer is about to refuse everything. -/
structure Broken (s : State) : Prop where
  torn : Torn s.lines s.output.reached
  stopped : (s.writerFailed = true ∧ ∀ r stage, s.current = some (r, stage) → stage = .entered) ∨
    s.writerFailed = false ∧ s.output.good = false ∧ ∃ r, s.current = some (r, .flushing)

theorem torn_whole (lines : List Bytes) : Torn lines lines.flatten :=
  ⟨lines.length, [], Nat.le_refl _, by simp, .inl rfl⟩

theorem Torn.append {lines : List Bytes} {reached : Bytes} (h : Torn lines reached) (more : List Bytes) :
    Torn (lines ++ more) reached := by
  obtain ⟨n, tail, hn, heq, htail⟩ := h
  refine ⟨n, tail, by simp; omega, by rw [List.take_append_of_le_length hn]; exact heq, ?_⟩
  rcases htail with htail | ⟨line, hline, htail⟩
  · exact .inl htail
  · exact .inr ⟨line, by rw [List.getElem?_append_left (List.getElem?_eq_some_iff.1 hline).1]; exact hline, htail⟩

/-- A piece of the next line. -/
theorem torn_piece {lines : List Bytes} {line : Bytes} {n : Nat} :
    Torn (lines ++ [line]) (lines.flatten ++ line.take n) := by
  by_cases hn : n < line.length
  · refine ⟨lines.length, line.take n, by simp, by simp, .inr ⟨line, by simp, List.take_prefix _ _, ?_⟩⟩
    intro h
    have := congrArg List.length h
    rw [List.length_take] at this
    omega
  · rw [List.take_of_length_le (by omega)]
    have := torn_whole (lines ++ [line])
    simpa using this

theorem Healthy.torn {s : State} (h : Healthy s) : Torn s.lines s.output.reached := by
  have hlines : s.lines = s.doneLines ++ ((s.current.map (·.1)).toList).filterMap lineOf := by
    rw [State.lines, State.taken, List.filterMap_append]
    rfl
  rw [hlines, h.reached]
  cases hc : s.current with
  | none => simpa using torn_whole s.doneLines
  | some c =>
    obtain ⟨r, stage⟩ := c
    simp only [Option.map_some, Option.getD_some, Option.toList_some, List.filterMap_cons, List.filterMap_nil, sent]
    cases ht : transferOf stage with
    | some t =>
      by_cases hch : t.channel = .stdout
      · rw [h.transfer r stage t hc ht hch]
        simpa [hch] using torn_piece
      · simpa [hch] using (torn_whole s.doneLines).append _
    | none =>
      cases hline : lineOf r with
      | none => simpa using torn_whole s.doneLines
      | some line =>
        by_cases hst : stage = .flushing ∨ stage = .judging
        · have := torn_whole (s.doneLines ++ [line])
          simpa [hst] using this
        · simpa [hst] using (torn_whole s.doneLines).append [line]

variable {timeout : Nat} {s s' : State} {r : ProcessResult} {stage stage' : Stage} {t : Transfer}

/-- A step inside the call that sends nothing to stdout. -/
theorem Healthy.move (h : Healthy s) (hc : s.current = some (r, stage)) (hw : s'.writerFailed = s.writerFailed)
    (ho : s'.output = s.output) (hh : s'.history = s.history) (hc' : s'.current = some (r, stage'))
    (hsent : sent r stage' = sent r stage)
    (ht : ∀ t, transferOf stage' = some t → t.channel = .stdout → lineOf r = some t.data) : Healthy s' := by
  refine ⟨hw.trans h.writer, by rw [ho]; exact h.good, ?_, ?_⟩
  · have hr := h.reached
    rw [hc] at hr
    have hdone : s'.doneLines = s.doneLines := by rw [State.doneLines, hh, State.doneLines]
    rw [ho, hr, hc', hdone]
    simp [hsent]
  · intro r' stage'' t hcur
    rw [hc'] at hcur
    obtain ⟨rfl, rfl⟩ := Prod.mk.inj (Option.some.inj hcur)
    exact ht t

theorem lines_leave (hc : s.current = some (r, stage)) {value : Bool} (hh : s'.history = s.history ++ [(r, value)])
    (hc' : s'.current = none) : s'.lines = s.lines := by
  simp [State.lines, State.taken, hc, hc', hh]

theorem lines_move (hc : s.current = some (r, stage)) (hh : s'.history = s.history)
    (hc' : s'.current = some (r, stage')) : s'.lines = s.lines := by
  simp [State.lines, State.taken, hc, hc', hh]

/-- The start of a transfer sends nothing yet. -/
theorem sent_begin (c : Channel) (data : Bytes) (hgood : c = .stdout → s.output.good = true) :
    sent r (begin timeout s c data) = [] := by
  unfold begin
  cases c with
  | stdout => simp [State.stream, hgood rfl, sent, transferOf]
  | stderr => cases hd : s.diagnostics.good <;> simp [State.stream, hd, sent, transferOf, after]

theorem transferOf_begin {c : Channel} {data : Bytes} (h : transferOf (begin timeout s c data) = some t) :
    t.channel = c ∧ t.data = data := by
  unfold begin at h
  split at h
  · cases h
    exact ⟨rfl, rfl⟩
  · cases c <;> cases h

/-- What the call does between two system calls. -/
theorem healthy_proceed (h : Healthy s) (hc : s.current = some (r, stage))
    (hs : proceed timeout s r stage = some s') : Healthy s' ∨ Broken s' := by
  have hsame : ∀ t, transferOf stage = some t → t.channel = .stdout → lineOf r = some t.data :=
    fun t => h.transfer r stage t hc
  cases stage with
  | entered =>
    simp only [proceed] at hs
    rw [if_neg (by simp [h.writer])] at hs
    left
    split at hs
    · rw [← Option.some.inj hs]
      refine h.move hc rfl rfl rfl rfl ?_ ?_
      · rw [sent_begin _ _ (by simp)]
        simp [sent, transferOf]
      · intro t ht hch
        rw [(transferOf_begin ht).1] at hch
        cases hch
    · rw [← Option.some.inj hs]
      exact h.move hc rfl rfl rfl rfl (by simp [sent, transferOf]) (by simp [transferOf])
  | answering =>
    simp only [proceed] at hs
    left
    split at hs
    · rename_i response hr
      rw [← Option.some.inj hs]
      refine h.move hc rfl rfl rfl rfl ?_ ?_
      · rw [sent_begin _ _ (fun _ => h.good)]
        simp [sent, transferOf]
      · intro t ht _
        rw [(transferOf_begin ht).2, lineOf, hr, Option.map_some]
    · rename_i hr
      rw [← Option.some.inj hs]
      exact h.move hc rfl rfl rfl rfl (by simp [sent, transferOf, lineOf, hr]) (by simp [transferOf])
  | head t =>
    simp only [proceed] at hs
    left
    split at hs <;> rw [← Option.some.inj hs] <;> exact h.move hc rfl rfl rfl rfl rfl hsame
  | timing t =>
    simp only [proceed] at hs
    left
    split at hs <;> rw [← Option.some.inj hs] <;> exact h.move hc rfl rfl rfl rfl rfl hsame
  | calling t => cases hs
  | waiting t => cases hs
  | leaving t =>
    simp only [proceed] at hs
    split at hs
    · rw [← Option.some.inj hs]
      cases hch : t.channel with
      | stderr =>
        left
        exact h.move hc rfl rfl rfl rfl (by simp [sent, transferOf, after, hch]) (by simp [transferOf, after])
      | stdout =>
        right
        refine ⟨?_, .inr ⟨h.writer, rfl, r, rfl⟩⟩
        have hlines : ({ (s.setStream .stdout { s.stream .stdout with good := false }) with
            failed := true, current := some (r, .flushing) } : State).lines = s.lines := lines_move hc rfl rfl
        rw [after, hlines]
        exact h.torn
    · rename_i hfull
      rw [ne_eq, Decidable.not_not] at hfull
      rw [← Option.some.inj hs]
      left
      cases hch : t.channel with
      | stderr => exact h.move hc rfl rfl rfl rfl (by simp [sent, transferOf, after, hch]) (by simp [transferOf, after])
      | stdout =>
        refine h.move hc rfl rfl rfl rfl ?_ (by simp [transferOf, after])
        simp [sent, transferOf, after, hch, hsame t rfl hch, hfull]
  | flushing =>
    simp only [proceed] at hs
    split at hs
    · rw [← Option.some.inj hs]
      left
      exact h.move hc rfl rfl rfl rfl (by simp [sent, transferOf]) (by simp [transferOf])
    · rw [← Option.some.inj hs]
      right
      refine ⟨?_, .inl ⟨rfl, by simp [State.leave]⟩⟩
      rw [lines_leave hc rfl rfl]
      exact h.torn
  | judging =>
    simp only [proceed] at hs
    split at hs
    · rw [← Option.some.inj hs]
      left
      refine ⟨h.writer, h.good, ?_, by simp [State.leave]⟩
      have hr := h.reached
      rw [hc] at hr
      show s.output.reached = _
      rw [hr]
      cases hline : lineOf r <;> simp [State.leave, State.doneLines, sent, transferOf, hline]
    · rw [← Option.some.inj hs]
      right
      refine ⟨?_, .inl ⟨rfl, by simp [State.leave]⟩⟩
      rw [lines_leave hc rfl rfl]
      exact h.torn

/-- A system call of the transfer. -/
theorem healthy_sysWrite (h : Healthy s) (hc : s.current = some (r, .calling t)) (result : WriteResult) :
    Healthy (sysWrite s r t result) := by
  have hsame : ∀ t', transferOf (.calling t) = some t' → t'.channel = .stdout → lineOf r = some t'.data :=
    fun t' => h.transfer r _ t' hc
  cases result with
  | interrupted => exact h.move hc rfl rfl rfl rfl rfl hsame
  | again => exact h.move hc rfl rfl rfl rfl rfl hsame
  | error => exact h.move hc rfl rfl rfl rfl rfl hsame
  | wrote count =>
    unfold sysWrite
    simp only
    split
    · exact h.move hc rfl rfl rfl rfl rfl hsame
    · cases hch : t.channel with
      | stderr =>
        refine h.move hc rfl rfl rfl rfl (by simp [sent, transferOf, hch]) ?_
        rintro t' ⟨rfl⟩ hch'
        cases hch'
      | stdout =>
        refine ⟨h.writer, h.good, ?_, ?_⟩
        · have hr := h.reached
          simp only [hc, Option.map_some, Option.getD_some, sent, transferOf, hch, if_true] at hr
          simp only [State.setStream, State.stream, State.doneLines, Option.map_some, Option.getD_some, sent,
            transferOf, if_true]
          rw [hr, List.append_assoc, ← List.take_add]
          rfl
        · rintro r' stage t' hcur ht hch'
          obtain ⟨rfl, rfl⟩ := Prod.mk.inj (Option.some.inj hcur)
          cases ht
          exact hsame t rfl hch

/-- Once broken, nothing more is sent to stdout. -/
theorem broken_step (h : Broken s) {a : Action} (hs : step timeout s a = some s') :
    Broken s' ∧ s'.output.reached = s.output.reached := by
  have hstage : ∀ r stage, s.current = some (r, stage) → stage = .entered ∨ stage = .flushing := by
    intro r stage hc
    rcases h.stopped with ⟨-, hent⟩ | ⟨-, -, r', hfl⟩
    · exact .inl (hent r stage hc)
    · rw [hfl] at hc
      exact .inr (Prod.mk.inj (Option.some.inj hc)).2.symm
  cases a with
  | enter r =>
    simp only [step] at hs
    split at hs
    · rename_i hc
      rw [← Option.some.inj hs]
      refine ⟨⟨?_, ?_⟩, rfl⟩
      · have hlines : ({ s with current := some (r, .entered) } : State).lines = s.lines ++ (lineOf r).toList := by
          cases hline : lineOf r <;> simp [State.lines, State.taken, hc, hline]
        rw [hlines]
        exact h.torn.append _
      · rcases h.stopped with ⟨hw, -⟩ | ⟨-, -, r', hfl⟩
        · refine .inl ⟨hw, ?_⟩
          intro r' stage hcur
          exact (Prod.mk.inj (Option.some.inj hcur)).2.symm
        · rw [hc] at hfl
          cases hfl
    · cases hs
  | proceed =>
    simp only [step] at hs
    split at hs
    · rename_i r stage hc
      rcases h.stopped with ⟨hw, hent⟩ | ⟨hw, hgood, r', hfl⟩
      · rw [hent r stage hc] at hs hc
        simp only [proceed, hw, if_true] at hs
        rw [← Option.some.inj hs]
        refine ⟨⟨?_, .inl ⟨hw, by simp [State.leave]⟩⟩, rfl⟩
        rw [lines_leave hc rfl rfl]
        exact h.torn
      · rw [hc] at hfl
        obtain ⟨-, rfl⟩ := Prod.mk.inj (Option.some.inj hfl)
        simp only [proceed, hgood, Bool.false_and, Bool.false_eq_true, if_false] at hs
        rw [← Option.some.inj hs]
        refine ⟨⟨?_, .inl ⟨rfl, by simp [State.leave]⟩⟩, rfl⟩
        rw [lines_leave hc rfl rfl]
        exact h.torn
    · cases hs
  | write result =>
    simp only [step] at hs
    split at hs
    · rename_i r t hc
      rcases hstage _ _ hc with h' | h' <;> cases h'
    · cases hs
  | poll succeeds =>
    simp only [step] at hs
    split at hs
    · rename_i r t hc
      rcases hstage _ _ hc with h' | h' <;> cases h'
    · cases hs
  | tick d =>
    rw [← Option.some.inj hs]
    exact ⟨⟨h.torn, h.stopped⟩, rfl⟩
  | inputFails =>
    rw [← Option.some.inj hs]
    exact ⟨⟨h.torn, h.stopped⟩, rfl⟩

theorem healthy_step (h : Healthy s) {a : Action} (hs : step timeout s a = some s') : Healthy s' ∨ Broken s' := by
  cases a with
  | enter r =>
    simp only [step] at hs
    split at hs
    · rename_i hc
      rw [← Option.some.inj hs]
      left
      refine ⟨h.writer, h.good, ?_, ?_⟩
      · have hr := h.reached
        rw [hc] at hr
        simpa [State.doneLines, sent, transferOf] using hr
      · rintro r' stage t hcur ht -
        obtain ⟨rfl, rfl⟩ := Prod.mk.inj (Option.some.inj hcur)
        cases ht
    · cases hs
  | proceed =>
    simp only [step] at hs
    split at hs
    · rename_i r stage hc
      exact healthy_proceed h hc hs
    · cases hs
  | write result =>
    simp only [step] at hs
    split at hs
    · rename_i r t hc
      rw [← Option.some.inj hs]
      exact .inl (healthy_sysWrite h hc result)
    · cases hs
  | poll succeeds =>
    simp only [step] at hs
    split at hs
    · rename_i r t hc
      rw [← Option.some.inj hs]
      have hsame : ∀ t', transferOf (.waiting t) = some t' → t'.channel = .stdout → lineOf r = some t'.data :=
        fun t' => h.transfer r _ t' hc
      left
      cases succeeds <;> exact h.move hc rfl rfl rfl rfl rfl hsame
    · cases hs
  | tick d =>
    rw [← Option.some.inj hs]
    exact .inl ⟨h.writer, h.good, h.reached, h.transfer⟩
  | inputFails =>
    rw [← Option.some.inj hs]
    exact .inl ⟨h.writer, h.good, h.reached, h.transfer⟩

/-- What has reached stdout in any state of any run. -/
theorem lines_of_reachable (h : (machine timeout).system.Reachable s) : Torn s.lines s.output.reached := by
  have hboth : Healthy s ∨ Broken s := by
    apply TransitionSystem.Reachable.invariant (T := (machine timeout).system) (I := fun s => Healthy s ∨ Broken s) ?_ ?_ h
    · rintro s ⟨clock, rfl⟩
      left
      exact ⟨rfl, rfl, rfl, by simp⟩
    · rintro s s' - hs ⟨a, ha⟩
      rcases hs with hs | hs
      · exact healthy_step hs ha
      · exact .inr (broken_step hs ha).1
  rcases hboth with h | h
  · exact h.torn
  · exact h.torn

/-! ### After a failure -/

/-- The transfer that the flag was clear for when it last looked, and that has not called `::write` since. -/
def armed : Stage → Option Transfer
  | .timing t | .calling t => some t
  | _ => none

/-- What the `::write` call that may still come can transfer to a channel. -/
def State.pending (s : State) (c : Channel) : Bytes :=
  match s.current.bind fun x => armed x.2 with
  | some t => if t.channel = c then t.data.drop t.written else []
  | none => []

theorem pending_of_not_armed (h : ∀ r stage, s.current = some (r, stage) → armed stage = none) (c : Channel) :
    s.pending c = [] := by
  unfold State.pending
  cases hc : s.current with
  | none => rfl
  | some x => simp [h x.1 x.2 hc]

theorem armed_begin (c : Channel) (data : Bytes) : armed (begin timeout s c data) = none := by
  unfold begin
  split
  · rfl
  · cases c <;> rfl

/-- The flag stays up; what one step transfers was pending, and less is pending after it. -/
theorem failed_step (hf : s.failed = true) {a : Action} (hs : step timeout s a = some s') (c : Channel) :
    s'.failed = true ∧ ∃ p, (s'.stream c).reached = (s.stream c).reached ++ p ∧ p ++ s'.pending c <+: s.pending c := by
  -- a step that transfers nothing and leaves no transfer armed
  have hstill : ∀ u : State, u.failed = true → (u.stream c).reached = (s.stream c).reached →
      (∀ r stage, u.current = some (r, stage) → armed stage = none) → u.failed = true ∧
        ∃ p, (u.stream c).reached = (s.stream c).reached ++ p ∧ p ++ u.pending c <+: s.pending c := by
    intro u hu hr harmed
    refine ⟨hu, [], by rw [hr, List.append_nil], ?_⟩
    rw [pending_of_not_armed harmed]
    exact List.nil_prefix
  have hat : ∀ {r : ProcessResult} {stage : Stage}, armed stage = none →
      ∀ r' stage', some (r, stage) = some (r', stage') → armed stage' = none := by
    rintro r stage harmed r' stage' heq
    obtain ⟨-, rfl⟩ := Prod.mk.inj (Option.some.inj heq)
    exact harmed
  cases a with
  | enter r =>
    simp only [step] at hs
    split at hs
    · rw [← Option.some.inj hs]
      exact hstill _ hf (by cases c <;> rfl) (hat rfl)
    · cases hs
  | proceed =>
    simp only [step] at hs
    split at hs
    · rename_i r stage hc
      cases stage with
      | entered =>
        simp only [proceed] at hs
        split at hs
        · rw [← Option.some.inj hs]
          exact hstill _ hf (by cases c <;> rfl) (by simp [State.leave])
        · split at hs <;> rw [← Option.some.inj hs]
          · exact hstill _ hf (by cases c <;> rfl) (hat (armed_begin _ _))
          · exact hstill _ hf (by cases c <;> rfl) (hat rfl)
      | answering =>
        simp only [proceed] at hs
        split at hs <;> rw [← Option.some.inj hs]
        · exact hstill _ hf (by cases c <;> rfl) (hat (armed_begin _ _))
        · exact hstill _ hf (by cases c <;> rfl) (hat rfl)
      | head t =>
        simp only [proceed, hf, Bool.not_true, Bool.and_false, Bool.false_eq_true, if_false] at hs
        rw [← Option.some.inj hs]
        exact hstill _ rfl (by cases c <;> rfl) (hat rfl)
      | timing t =>
        simp only [proceed] at hs
        split at hs <;> rw [← Option.some.inj hs]
        · exact hstill _ hf (by cases c <;> rfl) (hat rfl)
        · refine ⟨hf, [], by cases c <;> simp [State.stream], ?_⟩
          simp [State.pending, hc, armed]
      | calling t => cases hs
      | waiting t => cases hs
      | leaving t =>
        simp only [proceed] at hs
        split at hs <;> rw [← Option.some.inj hs]
        · refine hstill _ rfl ?_ (hat (by cases t.channel <;> rfl))
          cases c <;> cases t.channel <;> rfl
        · exact hstill _ hf (by cases c <;> rfl) (hat (by cases t.channel <;> rfl))
      | flushing =>
        simp only [proceed] at hs
        split at hs <;> rw [← Option.some.inj hs]
        · exact hstill _ hf (by cases c <;> rfl) (hat rfl)
        · exact hstill _ hf (by cases c <;> rfl) (by simp [State.leave])
      | judging =>
        simp only [proceed] at hs
        split at hs <;> rw [← Option.some.inj hs]
        · exact hstill _ hf (by cases c <;> rfl) (by simp [State.leave])
        · exact hstill _ hf (by cases c <;> rfl) (by simp [State.leave])
    · cases hs
  | write result =>
    simp only [step] at hs
    split at hs
    · rename_i r t hc
      rw [← Option.some.inj hs]
      cases result with
      | interrupted => exact hstill _ hf (by cases c <;> rfl) (hat rfl)
      | again => exact hstill _ hf (by cases c <;> rfl) (hat rfl)
      | error => exact hstill _ hf (by cases c <;> rfl) (hat rfl)
      | wrote count =>
        unfold sysWrite
        simp only
        split
        · exact hstill _ hf (by cases c <;> rfl) (hat rfl)
        · by_cases hch : t.channel = c
          · refine ⟨by cases t.channel <;> exact hf, (t.data.drop t.written).take
              (min count (t.data.length - t.written)), ?_, ?_⟩
            · subst hch
              cases t.channel <;> rfl
            · rw [pending_of_not_armed (hat rfl), List.append_nil]
              simp only [State.pending, hc, Option.bind_some, armed, hch, if_true]
              exact List.take_prefix _ _
          · refine hstill _ (by cases t.channel <;> exact hf) ?_ (hat rfl)
            cases c <;> cases hc' : t.channel <;> first | rfl | exact absurd hc' hch
    · cases hs
  | poll succeeds =>
    simp only [step] at hs
    split at hs
    · rename_i r t hc
      rw [← Option.some.inj hs]
      exact hstill _ hf (by cases c <;> rfl) (hat (by cases succeeds <;> rfl))
    · cases hs
  | tick d =>
    rw [← Option.some.inj hs]
    exact ⟨hf, [], by cases c <;> simp [State.stream], by simp [State.pending]⟩
  | inputFails =>
    rw [← Option.some.inj hs]
    exact ⟨rfl, [], by cases c <;> simp [State.stream], by simp [State.pending]⟩

/-- Once the flag is up, no byte reaches a descriptor but what was pending. -/
theorem reached_of_failed (hf : s.failed = true) (h : (machine timeout).system.Later s s') (c : Channel) :
    s'.failed = true ∧ ∃ p, (s'.stream c).reached = (s.stream c).reached ++ p ∧ p ++ s'.pending c <+: s.pending c := by
  induction h with
  | refl => exact ⟨hf, [], by simp, by simp⟩
  | tail _ hstep ih =>
    obtain ⟨a, ha⟩ := hstep
    obtain ⟨hf', p, hp, hpre⟩ := ih
    obtain ⟨hf'', q, hq, hqre⟩ := failed_step hf' ha c
    refine ⟨hf'', p ++ q, by rw [hq, hp, List.append_assoc], ?_⟩
    rw [List.append_assoc]
    exact ((List.prefix_append_right_inj p).2 hqre).trans hpre

/-- The result has something to write. -/
def Nonempty (r : ProcessResult) : Prop := r.response.isSome = true ∨ r.diagnostic.isSome = true

/-- A call that took the lock with the flag up is on its way to false, if it has anything to write: its transfers end
where they begin, and leave their streams bad. -/
def Doomed (s : State) (r : ProcessResult) : Stage → Prop
  | .entered => True
  | .head t | .leaving t =>
    t.written = 0 ∧ t.data ≠ [] ∧ (t.channel = .stdout → r.diagnostic.isSome = true → s.diagnostics.good = false)
  | .answering => r.diagnostic.isSome = true → s.diagnostics.good = false
  | .flushing => True
  | .judging => r.response = none ∧ (r.diagnostic.isSome = true → s.diagnostics.good = false)
  | .timing _ | .calling _ | .waiting _ => False

/-- The flag is up, and of the calls from the `n`-th on those with something to write return false. -/
structure Refusing (n : Nat) (s : State) : Prop where
  failed : s.failed = true
  returned : ∀ i r v, n ≤ i → s.history[i]? = some (r, v) → Nonempty r → v = false
  current : n ≤ s.history.length → ∀ r stage, s.current = some (r, stage) → Doomed s r stage

/-- A call returns. -/
theorem Refusing.leave {n : Nat} (h : Refusing n s) (hc : s.current = some (r, stage)) {value : Bool}
    (hv : Doomed s r stage → Nonempty r → value = false) (hf : s'.failed = true)
    (hh : s'.history = s.history ++ [(r, value)]) (hc' : s'.current = none) : Refusing n s' := by
  refine ⟨hf, ?_, fun _ r stage hcur => by rw [hc'] at hcur; cases hcur⟩
  intro i r' v hi hget hne
  rw [hh] at hget
  by_cases hlt : i < s.history.length
  · rw [List.getElem?_append_left hlt] at hget
    exact h.returned i r' v hi hget hne
  · obtain ⟨hlt', heq⟩ := List.getElem?_eq_some_iff.1 hget
    rw [List.length_append, List.length_singleton] at hlt'
    have hi' : i = s.history.length := by omega
    subst hi'
    rw [List.getElem?_concat_length] at hget
    obtain ⟨rfl, rfl⟩ := Prod.mk.inj (Option.some.inj hget)
    exact hv (h.current hi r stage hc) hne

/-- A call goes on. -/
theorem Refusing.move {n : Nat} (h : Refusing n s) (hc : s.current = some (r, stage))
    (hd : Doomed s r stage → Doomed s' r stage') (hf : s'.failed = true) (hh : s'.history = s.history)
    (hc' : s'.current = some (r, stage')) : Refusing n s' := by
  refine ⟨hf, by rw [hh]; exact h.returned, ?_⟩
  intro hn r' stage'' hcur
  rw [hh] at hn
  rw [hc'] at hcur
  obtain ⟨rfl, rfl⟩ := Prod.mk.inj (Option.some.inj hcur)
  exact hd (h.current hn r stage hc)

/-- The start of a transfer with the flag up. -/
theorem doomed_begin {u : State} {c : Channel} {data : Bytes} (hdata : data ≠ []) (hu : u.diagnostics = s.diagnostics)
    (hd : c = .stdout → r.diagnostic.isSome = true → s.diagnostics.good = false) :
    Doomed u r (begin timeout s c data) := by
  unfold begin
  split
  · exact ⟨rfl, hdata, fun hc hr => by rw [hu]; exact hd hc hr⟩
  · rename_i hbad
    cases c with
    | stdout => exact trivial
    | stderr =>
      intro _
      rw [hu]
      simpa [State.stream] using hbad

theorem refusing_proceed {n : Nat} (h : Refusing n s) (hc : s.current = some (r, stage))
    (hs : proceed timeout s r stage = some s') : Refusing n s' := by
  cases stage with
  | entered =>
    simp only [proceed] at hs
    split at hs
    · rw [← Option.some.inj hs]
      exact h.leave hc (fun _ _ => rfl) h.failed rfl rfl
    · split at hs <;> rw [← Option.some.inj hs]
      · refine h.move hc (fun _ => ?_) h.failed rfl rfl
        exact doomed_begin (by simp [diagnosticLine]) rfl (by simp)
      · rename_i hd
        exact h.move hc (fun _ => by simp [Doomed, hd]) h.failed rfl rfl
  | answering =>
    simp only [proceed] at hs
    split at hs <;> rw [← Option.some.inj hs]
    · refine h.move hc (fun hd => ?_) h.failed rfl rfl
      exact doomed_begin (by simp [responseLine]) rfl (fun _ => hd)
    · rename_i hr
      refine h.move hc (fun hd => ?_) h.failed rfl rfl
      exact ⟨hr, hd⟩
  | head t =>
    have hf := h.failed
    simp only [proceed] at hs
    rw [if_neg (by simp [hf])] at hs
    rw [← Option.some.inj hs]
    exact h.move hc id hf rfl rfl
  | timing t =>
    simp only [proceed] at hs
    split at hs <;> rw [← Option.some.inj hs] <;> exact h.move hc False.elim h.failed rfl rfl
  | calling t => cases hs
  | waiting t => cases hs
  | leaving t =>
    simp only [proceed] at hs
    split at hs <;> rw [← Option.some.inj hs]
    · refine h.move hc (fun hd => ?_) rfl (by cases t.channel <;> rfl) rfl
      cases hch : t.channel with
      | stdout => exact trivial
      | stderr => exact fun _ => rfl
    · rename_i hfull
      refine h.move hc (fun hd => ?_) h.failed rfl rfl
      -- the transfer has not moved
      rw [ne_eq, Decidable.not_not, hd.1] at hfull
      exact absurd (List.length_eq_zero_iff.1 hfull.symm) hd.2.1
  | flushing =>
    have hf := h.failed
    simp only [proceed] at hs
    rw [if_neg (by simp [hf])] at hs
    rw [← Option.some.inj hs]
    exact h.leave hc (fun _ _ => rfl) hf rfl rfl
  | judging =>
    simp only [proceed] at hs
    split at hs <;> rw [← Option.some.inj hs]
    · rename_i hgood
      refine h.leave hc (fun hd hne => ?_) h.failed rfl rfl
      rcases hne with hne | hne
      · rw [hd.1] at hne
        cases hne
      · rw [hd.2 hne] at hgood
        cases hgood
    · exact h.leave hc (fun _ _ => rfl) h.failed rfl rfl

theorem refusing_step {n : Nat} (h : Refusing n s) {a : Action} (hs : step timeout s a = some s') : Refusing n s' := by
  cases a with
  | enter r =>
    simp only [step] at hs
    split at hs
    · rw [← Option.some.inj hs]
      refine ⟨h.failed, h.returned, ?_⟩
      intro _ r' stage hcur
      obtain ⟨rfl, rfl⟩ := Prod.mk.inj (Option.some.inj hcur)
      exact trivial
    · cases hs
  | proceed =>
    simp only [step] at hs
    split at hs
    · rename_i r stage hc
      exact refusing_proceed h hc hs
    · cases hs
  | write result =>
    simp only [step] at hs
    split at hs
    · rename_i r t hc
      rw [← Option.some.inj hs]
      cases result with
      | wrote count =>
        unfold sysWrite
        simp only
        split
        · exact h.move hc False.elim h.failed rfl rfl
        · exact h.move hc False.elim (by cases t.channel <;> exact h.failed) (by cases t.channel <;> rfl) rfl
      | interrupted => exact h.move hc False.elim h.failed rfl rfl
      | again => exact h.move hc False.elim h.failed rfl rfl
      | error => exact h.move hc False.elim h.failed rfl rfl
    · cases hs
  | poll succeeds =>
    simp only [step] at hs
    split at hs
    · rename_i r t hc
      rw [← Option.some.inj hs]
      exact h.move hc False.elim h.failed rfl rfl
    · cases hs
  | tick d =>
    rw [← Option.some.inj hs]
    exact ⟨h.failed, h.returned, h.current⟩
  | inputFails =>
    rw [← Option.some.inj hs]
    exact ⟨rfl, h.returned, h.current⟩

/-- Once the flag is up, a later call with something to write returns false. -/
theorem returns_false (hf : s.failed = true) (h : (machine timeout).system.Later s s') :
    Refusing s.taken.length s' := by
  induction h with
  | refl =>
    refine ⟨hf, ?_, ?_⟩
    · intro i r v hi hget
      obtain ⟨hlt, -⟩ := List.getElem?_eq_some_iff.1 hget
      simp only [State.taken, List.length_append, List.length_map] at hi
      omega
    · intro hn r stage hc
      simp [State.taken, hc] at hn
  | tail _ hstep ih =>
    obtain ⟨a, ha⟩ := hstep
    exact refusing_step ih ha

/-! ### The writer as a whole -/

/-- In every run: stdout holds whole lines in the order of the lock and at most a piece of one more; and once the flag is
up it stays up, nothing reaches a descriptor but what the one `write` call transfers that had already found the flag
clear, and every later call with something to write returns false. -/
theorem writer_lines_and_failure (timeout : Nat) {s : State} (h : (machine timeout).system.Reachable s) :
    Torn s.lines s.output.reached ∧
      (s.failed = true → ∀ s', (machine timeout).system.Later s s' →
        s'.failed = true ∧
        (∀ c, ∃ p, (s'.stream c).reached = (s.stream c).reached ++ p ∧ p ++ s'.pending c <+: s.pending c) ∧
        ∀ i r v, s.taken.length ≤ i → s'.history[i]? = some (r, v) → Nonempty r → v = false) := by
  refine ⟨lines_of_reachable h, fun hf s' hl => ⟨?_, fun c => (reached_of_failed hf hl c).2, ?_⟩⟩
  · exact (reached_of_failed hf hl .stdout).1
  · exact (returns_false hf hl).returned

/-- A response of one byte, cut off by a deadline after none of it was written. -/
theorem writer_lines_and_failure_cut :
    ∃ s : State, s.failed = true ∧ s.output.reached = [] ∧ Torn s.lines s.output.reached := by
  have hrun : ∃ s : State, (machine 5).run {} [.enter ⟨some [0x78], none⟩, .proceed, .proceed, .proceed, .tick 5, .proceed,
      .proceed] = some s ∧ s.failed = true ∧ s.output.reached = [] := ⟨_, rfl, rfl, rfl⟩
  obtain ⟨s, hs, hf, hr⟩ := hrun
  have hreach := Machine.reachable_of_run (M := machine 5) (.init ⟨0, rfl⟩) hs
  exact ⟨s, hf, hr, (writer_lines_and_failure 5 hreach).1⟩

/-- The flag may go up between its check and the `write` call, whose bytes then still reach stdout; and a later call with
nothing to write returns true. -/
theorem written_and_true_after_failure :
    (∃ s s' : State, (machine 5).system.Reachable s ∧ s.failed = true ∧ s.output.reached = [] ∧
      (machine 5).system.Later s s' ∧ s'.output.reached = [0x78, 0x0A]) ∧
    ∃ s s' : State, (machine 5).system.Reachable s ∧ s.failed = true ∧ s.taken = [] ∧
      (machine 5).system.Later s s' ∧ s'.history = [(⟨none, none⟩, true)] := by
  constructor
  · have hrun : ∃ s s', (machine 5).run {} [.enter ⟨some [0x78], none⟩, .proceed, .proceed, .proceed, .proceed,
        .inputFails] = some s ∧ (machine 5).run s [.write (.wrote 2)] = some s' ∧ s.failed = true ∧
        s.output.reached = [] ∧ s'.output.reached = [0x78, 0x0A] := ⟨_, _, rfl, rfl, rfl, rfl, rfl⟩
    obtain ⟨s, s', hs, hs', hf, hr, hr'⟩ := hrun
    exact ⟨s, s', Machine.reachable_of_run (.init ⟨0, rfl⟩) hs, hf, hr, Machine.later_of_run hs', hr'⟩
  · have hrun : ∃ s s', (machine 5).run {} [.inputFails] = some s ∧
        (machine 5).run s [.enter ⟨none, none⟩, .proceed, .proceed, .proceed] = some s' ∧ s.failed = true ∧
        s.taken = [] ∧ s'.history = [(⟨none, none⟩, true)] := ⟨_, _, rfl, rfl, rfl, rfl, rfl⟩
    obtain ⟨s, s', hs, hs', hf, ht, hh⟩ := hrun
    exact ⟨s, s', Machine.reachable_of_run (.init ⟨0, rfl⟩) hs, hf, ht, Machine.later_of_run hs', hh⟩

end Transport

end NativeMcp
