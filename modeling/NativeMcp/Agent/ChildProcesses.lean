import Mathlib.Tactic.Linarith
import NativeMcp.Agent.Orchestrator

/-!
# The children of a client

`start` makes a child and `close` ends it: it closes the child's input, asks it to end, waits, kills it and waits again,
and lets go of it in any case.  When the child ends, whether a call of the system fails and how long everything takes is
arbitrary (`Interaction`).  Over any sequence of the two, a child is signalled only by its `close`, what `close` reports
is what has happened, and no wait goes beyond its deadline (`processes_supervised`).
-/

namespace NativeMcp.Agent

namespace Processes

/-! ### Children -/

inductive Signal where
  | terminate
  | kill
  deriving DecidableEq, Repr

/-- A `Popen`.  `reaped` tells whether it has its return code; the rest is what has happened to it. -/
structure ChildProcess where
  reaped : Bool := false
  signals : List Signal := []
  /-- A call of the system that `close` makes has failed. -/
  failed : Bool := false
  /-- What `close` has made of it. -/
  released : Option CloseMode := none
  deriving DecidableEq

/-- A call of `Popen.wait`. -/
structure Wait where
  start : Rat
  timeout : Rat
  deadline : Option Deadline

/-- What the client has: its child, and those it has let go. -/
structure ProcessState where
  now : Rat
  count : Nat := 0
  process : Option ChildProcess := none
  former : List ChildProcess := []
  waits : List Wait := []

/-- What one interaction with the system meets: how much later it is than the one before, whether the child has ended
until then, and whether the call fails. -/
structure Interaction where
  advance : Rat
  gone : Bool
  fails : Bool

def ChildProcess.look (i : Interaction) (c : ChildProcess) : ChildProcess := { c with reaped := c.reaped || i.gone }

def ChildProcess.receive (sig : Signal) (c : ChildProcess) : ChildProcess := { c with signals := c.signals ++ [sig] }

def ChildProcess.fail (c : ChildProcess) : ChildProcess := { c with failed := true }

def ChildProcess.release (mode : CloseMode) (c : ChildProcess) : ChildProcess := { c with released := some mode }

namespace ProcessState

def tick (i : Interaction) (s : ProcessState) : ProcessState :=
  { s with now := s.now + i.advance, count := s.count + 1 }

def onChild (f : ChildProcess → ChildProcess) (s : ProcessState) : ProcessState :=
  { s with process := s.process.map f }

/-- Whether the child has its return code. -/
def isReaped (s : ProcessState) : Bool := s.process.any (·.reaped)

/-- A wait: it lasts no longer than its timeout, and as long if the child does not end. -/
def await (i : Interaction) (timeout : Rat) (deadline : Option Deadline) (s : ProcessState) : ProcessState :=
  let longest := max timeout 0
  { s with
    now := s.now + (if s.isReaped || i.gone then min i.advance longest else longest)
    count := s.count + 1
    process := s.process.map (ChildProcess.look i)
    waits := s.waits ++ [⟨s.now, timeout, deadline⟩] }

def hold (s : ProcessState) : ProcessState := { s with process := some {} }

def letGo (mode : CloseMode) (s : ProcessState) : ProcessState :=
  { s with process := none, former := s.former ++ (s.process.map (ChildProcess.release mode)).toList }

end ProcessState

/-! ### `close` -/

section

variable (world : Nat → Interaction) (limits : Limits) (deadline : Option Deadline)

/-- `self.clock()` -/
def readClock : Program ProcessState Raised Rat := do
  Program.modify fun s => s.tick (world s.count)
  let s ← Program.get
  return s.now

/-- `process.poll() is not None` -/
def poll : Program ProcessState Raised Bool := do
  Program.modify fun s => (s.onChild (ChildProcess.look (world s.count))).tick (world s.count)
  let s ← Program.get
  return s.isReaped

/-- A call of the system that may raise `OSError`. -/
def systemCall (f : ChildProcess → ChildProcess) : Program ProcessState Raised Unit := do
  let s ← Program.get
  Program.modify fun s => s.tick (world s.count)
  if (world s.count).fails then do
    Program.modify (ProcessState.onChild ChildProcess.fail)
    Program.raise .other
  else Program.modify (ProcessState.onChild f)

/-- `process.terminate()` and `process.kill()`: `Popen` looks whether the child is there before it signals it. -/
def sendSignal (sig : Signal) : Program ProcessState Raised Unit := do
  let gone ← poll world
  if gone then return () else systemCall world (ChildProcess.receive sig)

/-- `process.wait(timeout)`, with `TimeoutExpired` ignored. -/
def wait (timeout : Rat) : Program ProcessState Raised Unit :=
  Program.modify fun s => s.await (world s.count) timeout deadline

/-- `deadline.remaining_ms()` -/
def remaining (d : Deadline) : Program ProcessState Raised Int := do
  let now ← readClock world
  return d.remainingMs now

/-- `graceful_wait`, in seconds -/
def gracefulWait : Program ProcessState Raised (Option Rat) :=
  match deadline with
  | none => return some ((limits.gracefulShutdownTimeoutMs : Rat) / 1000)
  | some d => do
    let left ← remaining world d
    if 0 < left then do
      let left ← remaining world d
      return some ((min (limits.gracefulShutdownTimeoutMs : Int) left : Int) / 1000)
    else return none

/-- `reap_wait`, in seconds -/
def reapWait : Program ProcessState Raised (Option Rat) :=
  match deadline with
  | none => return some (1 / 5)
  | some d => do
    let left ← remaining world d
    if 0 < left then do
      let left ← remaining world d
      return some ((left : Rat) / 1000)
    else return none

/-- The part of `close` that asks the child to end. -/
def terminateChild : Program ProcessState Raised CloseMode := do
  let gone ← poll world
  if gone then return .none
  else do
    sendSignal world .terminate
    match ← gracefulWait world limits deadline with
    | some timeout => do
      wait world deadline timeout
      return .terminate
    | none => return .terminate

/-- The part of `close` that kills it; after the deadline it only looks whether the child is gone. -/
def killChild (mode : CloseMode) : Program ProcessState Raised CloseMode := do
  let gone ← poll world
  if gone then return mode
  else do
    sendSignal world .kill
    let timeout ← reapWait world deadline
    wait world deadline (timeout.getD 0)
    return .kill

/-- The part of `close` that tells whether the child is gone. -/
def concludeChild (suppress : Bool) (mode : CloseMode) : Program ProcessState Raised CloseMode := do
  let gone ← poll world
  if gone then return mode
  else if suppress then return .unreaped
  else Program.raise (.provider .mcpProcessExit)

/-- The `try` of `close`. -/
def endChild (suppress : Bool) : Program ProcessState Raised CloseMode := do
  systemCall world id
  let mode ← terminateChild world limits deadline
  let mode ← killChild world deadline mode
  concludeChild world suppress mode

/-- What `close` makes of an `OSError`. -/
def afterFailure (suppress : Bool) : Raised → Program ProcessState Raised CloseMode
  | .other => if suppress then return .unreaped else Program.raise (.provider .mcpProcessExit)
  | raised => Program.raise raised

/-- The mode of `close` when its `try` is left. -/
def modeOf : Ending Raised CloseMode → CloseMode
  | .returned mode => mode
  | _ => .unreaped

/-- `close` -/
def close (suppress : Bool) : Program ProcessState Raised CloseMode := fun s =>
  if s.process.isNone then (.returned .none, s)
  else
    let r := Program.handle (endChild world limits deadline suppress) (afterFailure suppress) s
    (r.1, r.2.letGo (modeOf r.1))

end

/-! ### `start` -/

/-- How far `start` comes with its child. -/
inductive Spawn where
  | failed
  | unprepared
  | running
  deriving DecidableEq, Repr

section

variable (world : Nat → Interaction) (limits : Limits)

/-- `self.close(deadline, suppress=True)`, and the failure of `start` -/
def abandon (deadline : Deadline) : Program ProcessState Raised Unit := do
  let _ ← close world limits (some deadline) true
  Program.raise (.provider .mcpProcessExit)

/-- `start` -/
def start (spawn : Spawn) (deadline : Deadline) : Program ProcessState Raised Unit := do
  let s ← Program.get
  if s.process.isSome then Program.raise (.provider .localPolicyFailure)
  else do
    let now ← readClock world
    let _ ← Program.lift (deadline.timeout now limits.processStartupTimeoutMs)
    match spawn with
    | .failed => abandon world limits deadline
    | .unprepared => do
      Program.modify ProcessState.hold
      abandon world limits deadline
    | .running => do
      Program.modify ProcessState.hold
      let now ← readClock world
      if deadline.expired now then abandon world limits deadline else return ()

/-- What a caller does about the child. -/
inductive Operation where
  | start (spawn : Spawn) (deadline : Deadline)
  | close (deadline : Option Deadline) (suppress : Bool)

def Operation.perform (s : ProcessState) : Operation → ProcessState
  | .start spawn deadline => (Processes.start world limits spawn deadline s).2
  | .close deadline suppress => (Processes.close world limits deadline suppress s).2

end

/-! ### What has happened to a child -/

/-- The signals of a child whose `close` ends in this mode. -/
def signalsOf : CloseMode → List Signal
  | .none => []
  | .terminate => [.terminate]
  | .kill | .unreaped => [.terminate, .kill]

/-- A child in the course of a `close` in this mode: as long as it is there, it has got every signal of the mode. -/
structure ChildProcess.Met (mode : CloseMode) (c : ChildProcess) : Prop where
  works : c.failed = false
  signals : c.signals <+: signalsOf mode
  all : c.reaped = false → c.signals = signalsOf mode

/-- A child at the end of a `close` in this mode: it is gone, or it is reported as unreaped and has got both signals,
unless a call of the system has failed. -/
structure ChildProcess.Closed (mode : CloseMode) (c : ChildProcess) : Prop where
  signals : c.signals <+: signalsOf mode
  reaped : mode ≠ .unreaped → c.reaped = true ∧ c.failed = false
  unreaped : mode = .unreaped → c.failed = true ∨ c.reaped = false ∧ c.signals = [.terminate, .kill]

/-- A child that `start` has made. -/
structure ChildProcess.Fresh (c : ChildProcess) : Prop where
  signals : c.signals = []
  failed : c.failed = false
  released : c.released = none

/-- A wait ends before its deadline, or has a fixed length if there is none. -/
def Wait.Within (limits : Limits) (w : Wait) : Prop :=
  match w.deadline with
  | none => w.timeout ≤ max ((limits.gracefulShutdownTimeoutMs : Rat) / 1000) (1 / 5)
  | some d => w.timeout ≤ 0 ∨ w.start + w.timeout ≤ d.absolute

/-- In the course of a `close` that has begun in the first state: the child, and at most `n` waits. -/
structure Closing (limits : Limits) (s₀ : ProcessState) (n : Nat) (P : ChildProcess → Prop) (s : ProcessState) :
    Prop where
  child : ∃ c, s.process = some c ∧ c.released = none ∧ P c
  former : s.former = s₀.former
  waits : ∃ waits, s.waits = s₀.waits ++ waits ∧ waits.length ≤ n ∧ ∀ w ∈ waits, w.Within limits

/-- What has happened when the `try` of `close` is left by an exception. -/
structure Broken (limits : Limits) (s₀ : ProcessState) (suppress : Bool) (raised : Raised) (s : ProcessState) :
    Prop where
  raised : raised = .other ∨ suppress = false ∧ raised = .provider .mcpProcessExit
  child : Closing limits s₀ 2 (ChildProcess.Closed .unreaped) s

open Program (Ends)

section

variable {world : Nat → Interaction} {limits : Limits} {deadline : Option Deadline} {s₀ s t : ProcessState} {n m : Nat}
  {P Q : ChildProcess → Prop} {mode mode' : CloseMode} {suppress : Bool} {E : Raised → ProcessState → Prop}
  {S : ProcessState → Prop}

theorem Closing.mono (h : Closing limits s₀ n P s) (hP : ∀ c, P c → Q c) (hn : n ≤ m) :
    Closing limits s₀ m Q s where
  child := by
    obtain ⟨c, hprocess, hreleased, hc⟩ := h.child
    exact ⟨c, hprocess, hreleased, hP c hc⟩
  former := h.former
  waits := by
    obtain ⟨waits, heq, hlength, hwithin⟩ := h.waits
    exact ⟨waits, heq, hlength.trans hn, hwithin⟩

/-- A change of the child. -/
theorem Closing.onChild (h : Closing limits s₀ n P s) (f : ChildProcess → ChildProcess) (hf : ∀ c, P c → Q (f c))
    (hreleased : ∀ c, (f c).released = c.released) : Closing limits s₀ n Q (s.onChild f) where
  child := by
    obtain ⟨c, hc, hfresh, hP⟩ := h.child
    refine ⟨f c, ?_, (hreleased c).trans hfresh, hf c hP⟩
    unfold ProcessState.onChild
    rw [hc]
    rfl
  former := h.former
  waits := h.waits

theorem Closing.tick (h : Closing limits s₀ n P s) (i : Interaction) : Closing limits s₀ n P (s.tick i) :=
  ⟨h.child, h.former, h.waits⟩

theorem ChildProcess.Met.look (i : Interaction) (c : ChildProcess) (h : c.Met mode) : (c.look i).Met mode where
  works := h.works
  signals := h.signals
  all := by
    intro hreaped
    exact h.all (Bool.or_eq_false_iff.1 hreaped).1

/-! ### What the parts of `close` do -/

theorem readClock_apply (s : ProcessState) :
    readClock world s = (.returned (s.tick (world s.count)).now, s.tick (world s.count)) := rfl

/-- After a look the client knows whether the child is gone. -/
theorem poll_ends (hlook : ∀ i c, P c → P (ChildProcess.look i c)) :
    Ends (Closing limits s₀ n P) (poll world) (fun gone => Closing limits s₀ n fun c => c.reaped = gone ∧ P c) E S := by
  intro s hs
  have hnext := (hs.onChild (Q := P) (ChildProcess.look (world s.count)) (hlook _) fun _ => rfl).tick (world s.count)
  obtain ⟨c, hprocess, hreleased, hc⟩ := hnext.child
  refine ⟨⟨c, hprocess, hreleased, ?_, hc⟩, hnext.former, hnext.waits⟩
  unfold ProcessState.isReaped
  rw [hprocess]
  rfl

theorem systemCall_ends {f : ChildProcess → ChildProcess} (hf : ∀ c, P c → Q (f c))
    (hreleased : ∀ c, (f c).released = c.released) (hsignals : ∀ c, P c → c.signals <+: [.terminate, .kill])
    (hn : n ≤ 2) :
    Ends (Closing limits s₀ n P) (systemCall world f) (fun _ => Closing limits s₀ n Q) (Broken limits s₀ suppress)
      S := by
  intro s hs
  unfold systemCall
  rw [Program.bind_apply, Program.get_apply]
  dsimp only
  rw [Program.bind_apply, Program.modify_apply]
  dsimp only
  by_cases hfails : (world s.count).fails = true
  · rw [if_pos hfails]
    refine ⟨.inl rfl, ?_⟩
    have hfailed : ∀ c, P c → c.fail.Closed .unreaped := fun c hc =>
      ⟨hsignals c hc, fun hne => absurd rfl hne, fun _ => .inl rfl⟩
    exact ((hs.tick _).onChild ChildProcess.fail hfailed fun _ => rfl).mono (fun _ hc => hc) hn
  · rw [if_neg hfails]
    exact (hs.tick _).onChild f hf hreleased

/-- The signal that leads from one mode to the next. -/
theorem sendSignal_ends {sig : Signal} (hnext : signalsOf mode ++ [sig] = signalsOf mode')
    (hmode : signalsOf mode <+: [.terminate, .kill]) (hn : n ≤ 2) :
    Ends (Closing limits s₀ n (ChildProcess.Met mode)) (sendSignal world sig)
      (fun _ => Closing limits s₀ n (ChildProcess.Met mode')) (Broken limits s₀ suppress) S := by
  have hsub : signalsOf mode <+: signalsOf mode' := ⟨[sig], hnext⟩
  refine .bind (poll_ends ChildProcess.Met.look) fun gone => ?_
  cases gone with
  | true =>
    -- it has ended before it could be signalled
    refine .pure fun s hs => hs.mono (fun c hc => ?_) (Nat.le_refl n)
    obtain ⟨hreaped, hmet⟩ := hc
    exact ⟨hmet.works, hmet.signals.trans hsub, fun halive => absurd (hreaped.symm.trans halive) Bool.noConfusion⟩
  | false =>
    refine systemCall_ends (fun c hc => ?_) (fun _ => rfl) (fun c hc => hc.2.signals.trans hmode) hn
    obtain ⟨halive, hmet⟩ := hc
    have hgot : (c.receive sig).signals = signalsOf mode' := by
      unfold ChildProcess.receive
      rw [hmet.all halive, hnext]
    exact ⟨hmet.works, by rw [hgot], fun _ => hgot⟩

/-- What is left until a deadline, where something is left. -/
theorem remaining_within {d : Deadline} {now : Rat} {ms : Int} (h : ms ≤ d.remainingMs now) :
    (ms : Rat) / 1000 ≤ 0 ∨ now + (ms : Rat) / 1000 ≤ d.absolute := by
  by_cases hms : ms ≤ 0
  · left
    have hcast : (ms : Rat) ≤ 0 := by exact_mod_cast hms
    linarith
  · right
    have hpos : 0 < d.remainingMs now := by omega
    have hfloor : d.remainingMs now = ((d.absolute - now) * 1000).floor := by
      unfold Deadline.remainingMs truncate at hpos ⊢
      by_cases hq : 0 ≤ (d.absolute - now) * 1000
      · rw [if_pos hq]
      · rw [if_neg hq] at hpos
        have hneg : 0 ≤ (-((d.absolute - now) * 1000)).floor := Rat.le_floor_iff.2 (by push_cast; linarith)
        omega
    have hle : (ms : Rat) ≤ (d.absolute - now) * 1000 := by
      rw [hfloor] at h
      exact Rat.le_floor_iff.1 h
    linarith

theorem remaining_ends {d : Deadline} :
    Ends (Closing limits s₀ n P) (remaining world d)
      (fun left s => left = d.remainingMs s.now ∧ Closing limits s₀ n P s) E S :=
  fun s hs => ⟨rfl, hs.tick (world s.count)⟩

/-- The timeout of the wait that follows `terminate`. -/
theorem gracefulWait_ends :
    Ends (Closing limits s₀ n P) (gracefulWait world limits deadline)
      (fun timeout s => Closing limits s₀ n P s ∧ ∀ t ∈ timeout, Wait.Within limits ⟨s.now, t, deadline⟩) E S := by
  cases deadline with
  | none =>
    refine .pure fun s hs => ⟨hs, fun t ht => ?_⟩
    cases ht
    exact le_max_left _ _
  | some d =>
    refine remaining_ends.bind fun left => ?_
    by_cases hleft : 0 < left
    · rw [if_pos hleft]
      refine (remaining_ends.pre fun s hs => hs.2).bind fun left' => .pure fun s hs => ⟨hs.2, fun t ht => ?_⟩
      cases ht
      apply remaining_within
      rw [hs.1]
      exact Int.min_le_right _ _
    · rw [if_neg hleft]
      exact .pure fun s hs => ⟨hs.2, fun t ht => absurd ht (Option.not_mem_none t)⟩

/-- The timeout of the wait that follows `kill`. -/
theorem reapWait_ends :
    Ends (Closing limits s₀ n P) (reapWait world deadline)
      (fun timeout s => Closing limits s₀ n P s ∧ Wait.Within limits ⟨s.now, timeout.getD 0, deadline⟩) E S := by
  cases deadline with
  | none => exact .pure fun s hs => ⟨hs, le_max_right _ _⟩
  | some d =>
    refine remaining_ends.bind fun left => ?_
    by_cases hleft : 0 < left
    · rw [if_pos hleft]
      refine (remaining_ends.pre fun s hs => hs.2).bind fun left' => .pure fun s hs => ⟨hs.2, ?_⟩
      apply remaining_within
      exact hs.1.le
    · rw [if_neg hleft]
      exact .pure fun s hs => ⟨hs.2, .inl (le_refl 0)⟩

theorem wait_ends {timeout : Rat} (hlook : ∀ i c, P c → P (ChildProcess.look i c)) :
    Ends (fun s => Closing limits s₀ n P s ∧ Wait.Within limits ⟨s.now, timeout, deadline⟩)
      (wait world deadline timeout) (fun _ => Closing limits s₀ (n + 1) P) E S := by
  rintro s ⟨hs, hwithin⟩
  obtain ⟨c, hprocess, hreleased, hc⟩ := hs.child
  obtain ⟨waits, hwaits, hlength, hall⟩ := hs.waits
  refine ⟨⟨c.look (world s.count), ?_, hreleased, hlook _ c hc⟩, hs.former, waits ++ [⟨s.now, timeout, deadline⟩], ?_,
    ?_, ?_⟩
  · show s.process.map _ = _
    rw [hprocess]
    rfl
  · show s.waits ++ _ = _
    rw [hwaits, List.append_assoc]
  · rw [List.length_append, List.length_singleton]
    omega
  · intro w hw
    rcases List.mem_append.1 hw with hold | hnew
    · exact hall w hold
    · rw [List.mem_singleton.1 hnew]
      exact hwithin

/-- The child has ended of itself, or it has been asked to end. -/
def Asked (mode : CloseMode) (c : ChildProcess) : Prop :=
  c.Met mode ∧ (mode = .none ∧ c.reaped = true ∨ mode = .terminate)

/-- The child has ended, or it has been killed. -/
def Killed (mode : CloseMode) (c : ChildProcess) : Prop :=
  c.Met mode ∧ (mode ≠ .unreaped ∧ c.reaped = true ∨ mode = .kill)

theorem terminateChild_ends :
    Ends (Closing limits s₀ 0 (ChildProcess.Met .none)) (terminateChild world limits deadline)
      (fun mode => Closing limits s₀ 1 (Asked mode)) (Broken limits s₀ suppress) S := by
  refine .bind (poll_ends ChildProcess.Met.look) fun gone => ?_
  cases gone with
  | true => exact .pure fun s hs => hs.mono (fun c hc => ⟨hc.2, .inl ⟨rfl, hc.1⟩⟩) (Nat.zero_le 1)
  | false =>
    have hsent : Ends (Closing limits s₀ 0 fun c => c.reaped = false ∧ c.Met .none) (sendSignal world .terminate)
        (fun _ => Closing limits s₀ 0 (ChildProcess.Met .terminate)) (Broken limits s₀ suppress) S :=
      (sendSignal_ends rfl (by decide) (Nat.zero_le 2)).pre fun s hs => hs.mono (fun _ hc => hc.2) (Nat.le_refl 0)
    refine hsent.bind fun _ => gracefulWait_ends.bind fun timeout => ?_
    cases timeout with
    | none => exact .pure fun s hs => hs.1.mono (fun c hc => ⟨hc, .inr rfl⟩) (Nat.zero_le 1)
    | some t =>
      have hwaited : Ends (fun s => Closing limits s₀ 0 (ChildProcess.Met .terminate) s ∧
          ∀ t' ∈ some t, Wait.Within limits ⟨s.now, t', deadline⟩) (wait world deadline t)
          (fun _ => Closing limits s₀ 1 (ChildProcess.Met .terminate)) (Broken limits s₀ suppress) S :=
        (wait_ends ChildProcess.Met.look).pre fun s hs => ⟨hs.1, hs.2 t rfl⟩
      exact hwaited.bind fun _ => .pure fun s hs => hs.mono (fun c hc => ⟨hc, .inr rfl⟩) (Nat.le_refl 1)

theorem killChild_ends :
    Ends (Closing limits s₀ 1 (Asked mode)) (killChild world deadline mode)
      (fun mode => Closing limits s₀ 2 (Killed mode)) (Broken limits s₀ suppress) S := by
  have hlook : ∀ i c, Asked mode c → Asked mode (ChildProcess.look i c) := by
    intro i c hc
    refine ⟨hc.1.look i, hc.2.imp (fun h => ⟨h.1, ?_⟩) id⟩
    unfold ChildProcess.look
    rw [h.2]
    rfl
  refine .bind (poll_ends hlook) fun gone => ?_
  cases gone with
  | true =>
    refine .pure fun s hs => hs.mono (fun c hc => ⟨hc.2.1, .inl ⟨?_, hc.1⟩⟩) (by omega)
    rcases hc.2.2 with hnone | hterminate
    · rw [hnone.1]
      exact CloseMode.noConfusion
    · rw [hterminate]
      exact CloseMode.noConfusion
  | false =>
    -- a child that is still there has been asked to end
    have hsent : Ends (Closing limits s₀ 1 fun c => c.reaped = false ∧ Asked mode c) (sendSignal world .kill)
        (fun _ => Closing limits s₀ 1 (ChildProcess.Met .kill)) (Broken limits s₀ suppress) S := by
      refine (sendSignal_ends rfl (by decide) (by omega)).pre (P := Closing limits s₀ 1 (ChildProcess.Met .terminate))
        fun s hs => hs.mono (fun c hc => ?_) (Nat.le_refl 1)
      rcases hc.2.2 with hnone | hterminate
      · exact absurd (hnone.2.symm.trans hc.1) Bool.noConfusion
      · rw [← hterminate]
        exact hc.2.1
    refine hsent.bind fun _ => reapWait_ends.bind fun timeout => (wait_ends ChildProcess.Met.look).bind fun _ => ?_
    exact .pure fun s hs => hs.mono (fun c hc => ⟨hc, .inr rfl⟩) (Nat.le_refl 2)

theorem concludeChild_ends :
    Ends (Closing limits s₀ 2 (Killed mode)) (concludeChild world suppress mode)
      (fun mode s => (suppress = false → mode ≠ .unreaped) ∧ Closing limits s₀ 2 (ChildProcess.Closed mode) s)
      (Broken limits s₀ suppress) S := by
  have hlook : ∀ i c, Killed mode c → Killed mode (ChildProcess.look i c) := by
    intro i c hc
    refine ⟨hc.1.look i, hc.2.imp (fun h => ⟨h.1, ?_⟩) id⟩
    unfold ChildProcess.look
    rw [h.2]
    rfl
  refine .bind (poll_ends hlook) fun gone => ?_
  cases gone with
  | true =>
    have hmode : ∀ c, Killed mode c → mode ≠ .unreaped := by
      intro c hc
      rcases hc.2 with hreaped | hkill
      · exact hreaped.1
      · rw [hkill]
        exact CloseMode.noConfusion
    refine .pure fun s hs => ?_
    obtain ⟨c, -, -, hc⟩ := hs.child
    refine ⟨fun _ => hmode c hc.2, hs.mono (fun c hc => ?_) (Nat.le_refl 2)⟩
    exact ⟨hc.2.1.signals, fun _ => ⟨hc.1, hc.2.1.works⟩, fun h => absurd h (hmode c hc.2)⟩
  | false =>
    have hleft : ∀ c, c.reaped = false ∧ Killed mode c → c.Closed .unreaped := by
      intro c hc
      obtain ⟨halive, hmet, hreaped | hkill⟩ := hc
      · exact absurd (hreaped.2.symm.trans halive) Bool.noConfusion
      · have hgot := hmet.all halive
        rw [hkill] at hgot
        exact ⟨by rw [hgot]; exact List.prefix_rfl, fun hne => absurd rfl hne, fun _ => .inr ⟨halive, hgot⟩⟩
    cases suppress with
    | true => exact .pure fun s hs => ⟨fun h => Bool.noConfusion h, hs.mono hleft (Nat.le_refl 2)⟩
    | false => exact .raise fun s hs => ⟨.inr ⟨rfl, rfl⟩, hs.mono hleft (Nat.le_refl 2)⟩

variable (world deadline suppress) in
theorem endChild_ends :
    Ends (Closing limits s₀ 0 (ChildProcess.Met .none)) (endChild world limits deadline suppress)
      (fun mode s => (suppress = false → mode ≠ .unreaped) ∧ Closing limits s₀ 2 (ChildProcess.Closed mode) s)
      (Broken limits s₀ suppress) (fun _ => False) := by
  have hcall : Ends (Closing limits s₀ 0 (ChildProcess.Met .none)) (systemCall world id)
      (fun _ => Closing limits s₀ 0 (ChildProcess.Met .none)) (Broken limits s₀ suppress) (fun _ => False) :=
    systemCall_ends (fun _ hc => hc) (fun _ => rfl) (fun c hc => hc.signals.trans List.nil_prefix) (Nat.zero_le 2)
  exact hcall.bind fun _ => terminateChild_ends.bind fun _ => killChild_ends.bind fun _ => concludeChild_ends

/-! ### What `close` and `start` do -/

/-- The answer of a `close` that has ended in this mode. -/
def answer (suppress : Bool) (mode : CloseMode) : Ending Raised CloseMode :=
  if suppress = false ∧ mode = .unreaped then .raised (.provider .mcpProcessExit) else .returned mode

/-- What `close` does with a child. -/
structure Released (limits : Limits) (suppress : Bool) (s : ProcessState) (r : Ending Raised CloseMode × ProcessState) :
    Prop where
  process : r.2.process = none
  former : ∃ c mode, r.2.former = s.former ++ [c] ∧ c.released = some mode ∧ c.Closed mode ∧ r.1 = answer suppress mode
  waits : ∃ waits, r.2.waits = s.waits ++ waits ∧ waits.length ≤ 2 ∧ ∀ w ∈ waits, w.Within limits

theorem Closing.letGo (h : Closing limits s₀ 2 (ChildProcess.Closed mode) s) :
    Released limits suppress s₀ (answer suppress mode, s.letGo mode) where
  process := rfl
  former := by
    obtain ⟨c, hprocess, -, hclosed⟩ := h.child
    refine ⟨c.release mode, mode, ?_, rfl, ⟨hclosed.signals, hclosed.reaped, hclosed.unreaped⟩, rfl⟩
    unfold ProcessState.letGo
    rw [hprocess, h.former]
    rfl
  waits := h.waits

variable (world limits deadline suppress) in
theorem close_released {c : ChildProcess} (hprocess : s.process = some c) (hfresh : c.Fresh) :
    Released limits suppress s (close world limits deadline suppress s) := by
  have hmet : c.Met .none := ⟨hfresh.failed, by rw [hfresh.signals]; exact List.prefix_rfl, fun _ => hfresh.signals⟩
  have hstart : Closing limits s 0 (ChildProcess.Met .none) s :=
    ⟨⟨c, hprocess, hfresh.released, hmet⟩, rfl, [], (List.append_nil _).symm, Nat.le_refl 0,
      fun w hw => absurd hw List.not_mem_nil⟩
  have hends := endChild_ends world deadline suppress s hstart
  unfold close Program.handle
  rw [hprocess, if_neg (by simp)]
  dsimp only
  generalize endChild world limits deadline suppress s = r at hends ⊢
  obtain ⟨mode | raised | _, u⟩ := r
  · obtain ⟨hmode, hclosing⟩ := hends
    have hanswer : answer suppress mode = .returned mode := by
      unfold answer
      rw [if_neg fun h => hmode h.1 h.2]
    have hreleased : Released limits suppress s (answer suppress mode, u.letGo mode) := hclosing.letGo
    rw [hanswer] at hreleased
    exact hreleased
  · obtain ⟨hraised, hclosing⟩ := hends
    rcases hraised with rfl | ⟨rfl, rfl⟩
    · cases suppress <;> exact hclosing.letGo
    · exact hclosing.letGo
  · exact hends.elim

end

/-! ### Whole runs -/

/-- What holds at any time: only children that have been let go have been signalled, each of them is accounted for, and
no wait was too long. -/
structure Supervised (limits : Limits) (s : ProcessState) : Prop where
  process : ∀ c, s.process = some c → c.Fresh
  former : ∀ c ∈ s.former, ∃ mode, c.released = some mode ∧ c.Closed mode
  count : s.waits.length ≤ 2 * s.former.length
  waits : ∀ w ∈ s.waits, w.Within limits

section

variable {world : Nat → Interaction} {limits : Limits} {deadline : Option Deadline} {s t : ProcessState}
  {suppress : Bool}

theorem Supervised.tick (h : Supervised limits s) (i : Interaction) : Supervised limits (s.tick i) :=
  ⟨h.process, h.former, h.count, h.waits⟩

theorem Supervised.hold (h : Supervised limits s) : Supervised limits s.hold where
  process := by
    intro c hc
    cases hc
    exact ⟨rfl, rfl, rfl⟩
  former := h.former
  count := h.count
  waits := h.waits

theorem Supervised.released (h : Supervised limits s) {r : Ending Raised CloseMode × ProcessState}
    (hr : Released limits suppress s r) : Supervised limits r.2 where
  process := by
    intro c hc
    rw [hr.process] at hc
    cases hc
  former := by
    obtain ⟨c, mode, hformer, hreleased, hclosed, -⟩ := hr.former
    intro c' hc'
    rw [hformer] at hc'
    rcases List.mem_append.1 hc' with hold | hnew
    · exact h.former c' hold
    · rw [List.mem_singleton.1 hnew]
      exact ⟨mode, hreleased, hclosed⟩
  count := by
    obtain ⟨c, mode, hformer, -⟩ := hr.former
    obtain ⟨waits, hwaits, hlength, -⟩ := hr.waits
    have hcount := h.count
    rw [hwaits, hformer, List.length_append, List.length_append, List.length_singleton]
    omega
  waits := by
    obtain ⟨waits, hwaits, -, hwithin⟩ := hr.waits
    intro w hw
    rw [hwaits] at hw
    rcases List.mem_append.1 hw with hold | hnew
    · exact h.waits w hold
    · exact hwithin w hnew

theorem Supervised.close (h : Supervised limits s) : Supervised limits (close world limits deadline suppress s).2 := by
  cases hprocess : s.process with
  | none =>
    unfold Processes.close
    rw [hprocess]
    exact h
  | some c => exact h.released (close_released world limits deadline suppress hprocess (h.process c hprocess))

theorem Supervised.abandon (h : Supervised limits s) (d : Deadline) :
    Supervised limits (abandon world limits d s).2 := by
  have hclosed : Supervised limits (Processes.close world limits (some d) true s).2 := h.close
  unfold Processes.abandon
  rw [Program.bind_apply]
  generalize Processes.close world limits (some d) true s = r at hclosed
  obtain ⟨mode | raised | _, t⟩ := r <;> exact hclosed

theorem Supervised.start (h : Supervised limits s) (spawn : Spawn) (d : Deadline) :
    Supervised limits (start world limits spawn d s).2 := by
  unfold Processes.start
  rw [Program.bind_apply, Program.get_apply]
  dsimp only
  by_cases hheld : s.process.isSome = true
  · rw [if_pos hheld]
    exact h
  rw [if_neg hheld, Program.bind_apply, readClock_apply]
  dsimp only
  have hread := h.tick (world s.count)
  generalize s.tick (world s.count) = s₁ at hread ⊢
  rw [Program.bind_apply]
  cases d.timeout s₁.now limits.processStartupTimeoutMs with
  | error raised => exact hread
  | ok ms =>
    rw [Program.lift_ok, Program.pure_apply]
    dsimp only
    cases spawn with
    | failed => exact hread.abandon d
    | unprepared => exact hread.hold.abandon d
    | running =>
      dsimp only
      rw [Program.bind_apply, Program.modify_apply]
      dsimp only
      rw [Program.bind_apply, readClock_apply]
      dsimp only
      have hheld := hread.hold.tick (world s₁.hold.count)
      generalize s₁.hold.tick (world s₁.hold.count) = s₂ at hheld ⊢
      by_cases hexpired : d.expired s₂.now = true
      · rw [if_pos hexpired]
        exact hheld.abandon d
      · rw [if_neg hexpired]
        exact hheld

theorem Supervised.perform (h : Supervised limits s) (o : Operation) :
    Supervised limits (o.perform world limits s) := by
  cases o with
  | start spawn d => exact h.start spawn d
  | close deadline suppress => exact h.close

end

/-- Whatever is started and closed, and whatever the system does: a child is signalled only by its `close`, every child
that has been let go is gone or reported as unreaped, and at most two waits are made for each, none beyond its deadline.
A `close` that follows lets go of its child, answers with the mode that it leaves, and raises an exception only if it is
not to suppress it. -/
theorem processes_supervised (world : Nat → Interaction) (limits : Limits) (now : Rat) (operations : List Operation) :
    Supervised limits (operations.foldl (Operation.perform world limits) { now }) ∧
    ∀ c deadline suppress, (operations.foldl (Operation.perform world limits) { now }).process = some c →
      Released limits suppress (operations.foldl (Operation.perform world limits) { now })
        (close world limits deadline suppress (operations.foldl (Operation.perform world limits) { now })) := by
  have hrun : ∀ s, Supervised limits s → Supervised limits (operations.foldl (Operation.perform world limits) s) := by
    induction operations with
    | nil => exact fun s hs => hs
    | cons o operations ih => exact fun s hs => ih _ (hs.perform o)
  have hfirst : Supervised limits { now } :=
    ⟨fun c hc => (by cases hc), fun c hc => absurd hc List.not_mem_nil, Nat.le_refl 0,
      fun w hw => absurd hw List.not_mem_nil⟩
  have hlast := hrun _ hfirst
  exact ⟨hlast, fun c deadline suppress hc => close_released world limits deadline suppress hc (hlast.process c hc)⟩

end Processes

end NativeMcp.Agent
