import NativeMcp.Scheduler.Calls

/-!
# The life of one call

`Life` is what a single call goes through: offered by a `submit`, refused or admitted, run by a worker, counted once
in `finish`, and then answered through the completion callback or not.  The scheduler projects onto the life of each
of its calls (`Life.projection`), so a fact about the small system holds of every call of every run.  `Life.Account`
is the invariant of a life: what the events recorded so far say, given the phase the call is in.
-/

namespace NativeMcp.Scheduler

open Function (update)

/-- The call an event is about. -/
def Event.call? : Event → Option Handle
  | submitReturned h _ | admitted h | unwound h | executorStarted h | executorReturned h _ | timedOut h
  | finished h | completionInvoked h _ _ | completionReturned h | cancelHit h | stopHit h => some h
  | closed | shutdownReturned _ => none

/-- The locked section of a `cancel` that found the call, or of `request_stop`. -/
inductive Event.Marks (h : Handle) : Event → Prop where
  | cancel : Marks h (.cancelHit h)
  | stop : Marks h (.stopHit h)

inductive Phase where
  | absent
  | offered
  | refused
  | admitted
  | queued
  | executing
  | answered (haveResult : Bool) (result : ToolExecutionResult)
  | owed (send : Bool) (result : ToolExecutionResult)
  | delivering (result : ToolExecutionResult)
  | settled

def CallPc.phase : CallPc → Phase
  | absent => .absent
  | submitted => .offered
  | refused | unwound | failed => .refused
  | admitted | suspending | unwinding => .admitted
  | queued | resumed | checkingDeadline => .queued
  | executing => .executing
  | executed result | recheckingDeadline result => .answered true result
  | finishing haveResult _ result => .answered haveResult result
  | notifying send result => .owed send result
  | completing result => .delivering result
  | done => .settled

namespace Phase

/-- The call is in the in-flight table. -/
def InFlight : Phase → Prop
  | admitted | queued | executing | answered .. => True
  | _ => False

/-- The call has been counted in `finish`. -/
def Finished : Phase → Prop
  | owed .. | delivering _ | settled => True
  | _ => False

/-- The call has been handed to the workers. -/
def Enqueued : Phase → Prop
  | queued | executing | answered .. | owed .. | delivering _ | settled => True
  | _ => False

end Phase

theorem inFlight_phase {p : CallPc} : p.phase.InFlight ↔ p.InFlight := by
  cases p <;> exact Iff.rfl

theorem enqueued_phase {p : CallPc} : p.phase.Enqueued ↔ p.Enqueued := by
  cases p <;> exact Iff.rfl

structure Life where
  id : Json
  phase : Phase
  cancelled : Bool
  /-- The events about the call, newest first. -/
  events : List Event

def State.life (s : State) (h : Handle) : Life where
  id := (s.control h).call.requestId
  phase := (s.pc h).phase
  cancelled := (s.control h).cancelledByClient
  events := s.history.filter fun e => e.call? = some h

theorem mem_life {s : State} {h : Handle} {e : Event} (he : e.call? = some h) :
    e ∈ (s.life h).events ↔ e ∈ s.history := by
  simp [State.life, List.mem_filter, he]

namespace Life

/-- What happens to the call `h`. -/
inductive Step (h : Handle) (l : Life) : Life → Prop where
  | offer (id : Json) (hp : l.phase = .absent) : Step h l { l with id, phase := .offered, cancelled := false }
  | refuse (status : ToolSubmitStatus) (hp : l.phase = .offered ∨ l.phase = .refused) (hs : status ≠ .accepted) :
      Step h l { l with phase := .refused, events := .submitReturned h status :: l.events }
  | admission (hp : l.phase = .offered) : Step h l { l with phase := .admitted, events := .admitted h :: l.events }
  | unwind (hp : l.phase = .admitted) : Step h l { l with phase := .refused, events := .unwound h :: l.events }
  | enqueue (hp : l.phase = .admitted) : Step h l { l with phase := .queued }
  | accepted (hp : l.phase.Enqueued) : Step h l { l with events := .submitReturned h .accepted :: l.events }
  | mark (e : Event) (hp : l.phase.InFlight) (he : e.Marks h) :
      Step h l { l with cancelled := true, events := e :: l.events }
  | start (hp : l.phase = .queued) :
      Step h l { l with phase := .executing, events := .executorStarted h :: l.events }
  | skip (result : ToolExecutionResult) (hp : l.phase = .queued) (hc : l.cancelled = true) :
      Step h l { l with phase := .answered false result }
  | answer (result : ToolExecutionResult) (hp : l.phase = .executing) :
      Step h l { l with phase := .answered true result, events := .executorReturned h result :: l.events }
  | expire (result : ToolExecutionResult) (hp : l.phase = .queued ∨ ∃ r, l.phase = .answered true r) :
      Step h l { l with phase := .answered true result, events := .timedOut h :: l.events }
  | finish (haveResult : Bool) (result : ToolExecutionResult) (hp : l.phase = .answered haveResult result) :
      Step h l { l with phase := .owed (!l.cancelled && haveResult) result, events := .finished h :: l.events }
  | suppress (result : ToolExecutionResult) (hp : l.phase = .owed false result) :
      Step h l { l with phase := .settled }
  | complete (result : ToolExecutionResult) (hp : l.phase = .owed true result) :
      Step h l { l with
        phase := .delivering result
        events := .completionInvoked h l.id result :: l.events }
  | completed (result : ToolExecutionResult) (hp : l.phase = .delivering result) :
      Step h l { l with phase := .settled, events := .completionReturned h :: l.events }

def system (h : Handle) : TransitionSystem Life where
  init l := l.phase = .absent ∧ l.cancelled = false ∧ l.events = []
  next := Step h

end Life

/-! ### The scheduler projects onto the life of a call -/

section Projection

variable (s : State) {h k : Handle}

theorem life_setPc (p : CallPc) : (s.setPc h p).life h = { s.life h with phase := p.phase } := by
  simp [State.life, State.setPc]

theorem life_setPc_ne (p : CallPc) (hk : k ≠ h) : (s.setPc k p).life h = s.life h := by
  simp [State.life, State.setPc, Function.update_of_ne hk.symm]

theorem life_log {e : Event} (he : e.call? = some h) :
    (s.log e).life h = { s.life h with events := e :: (s.life h).events } := by
  simp [State.life, State.log, he]

theorem life_log_ne {e : Event} (he : e.call? = some k) (hk : k ≠ h) : (s.log e).life h = s.life h := by
  simp [State.life, State.log, he, hk]

@[simp] theorem life_setOp (t : ThreadId) (o : Op) : (s.setOp t o).life h = s.life h := rfl

@[simp] theorem life_setWorker (w : Nat) (p : WorkerPc) : (s.setWorker w p).life h = s.life h := rfl

@[simp] theorem life_notifyAllReady : s.notifyAllReady.life h = s.life h := rfl

@[simp] theorem life_notifyAllDone : s.notifyAllDone.life h = s.life h := rfl

theorem life_mark (hs : List Handle) :
    (s.mark hs).life h = if h ∈ hs then { s.life h with cancelled := true } else s.life h := by
  simp only [State.life, State.mark]
  split <;> rfl

theorem life_returnSubmit (t : ThreadId) (status : ToolSubmitStatus) :
    (returnSubmit s t h status).life h =
      { s.life h with events := .submitReturned h status :: (s.life h).events } := life_log (s.setOp t .idle) rfl

theorem life_returnSubmit_ne (t : ThreadId) (status : ToolSubmitStatus) (hk : k ≠ h) :
    (returnSubmit s t k status).life h = s.life h := life_log_ne (s.setOp t .idle) rfl hk

/-- What a step does to another call, and to everything but calls, is not seen. -/
private theorem life_other {e : Event} {p : CallPc} (hk : k ≠ h) (he : e.call? = some k) :
    ((s.setPc k p).log e).life h = s.life h := by
  rw [life_log_ne _ he hk, life_setPc_ne s p hk]

private theorem life_same {e : Event} {p : CallPc} (he : e.call? = some h) :
    ((s.setPc h p).log e).life h =
      { s.life h with phase := p.phase, events := e :: (s.life h).events } := by
  rw [life_log _ he, life_setPc]

/-- A call may change its position within a phase. -/
private theorem life_silent {p : CallPc} (hp : p.phase = (s.pc k).phase) : (s.setPc k p).life h = s.life h := by
  by_cases e : k = h
  · subst e
    rw [life_setPc, hp]
    rfl
  · exact life_setPc_ne s p e

end Projection

/-- The marks of a `request_stop`, as one call sees them. -/
private theorem filter_stopHit {l : List Handle} (hl : l.Nodup) (h : Handle) :
    (l.map Event.stopHit).filter (fun e => e.call? = some h) = if h ∈ l then [.stopHit h] else [] := by
  induction l with
  | nil => rfl
  | cons a l ih =>
    obtain ⟨ha, hl⟩ := List.nodup_cons.1 hl
    rw [List.map_cons, List.filter_cons, ih hl]
    by_cases e : a = h
    · subst e; simp [Event.call?, ha]
    · simp [Event.call?, e, Ne.symm e]

private theorem life_requestStop {s : State} (hc : Calls.Custody s.calls) (t : ThreadId) (h : Handle) :
    (requestStop s t).life h = s.life h ∨
      (s.life h).phase.InFlight ∧
        (requestStop s t).life h =
          { s.life h with cancelled := true, events := .stopHit h :: (s.life h).events } := by
  have hn : (s.inFlight.map Prod.snd).Nodup := hc.table.nodup_items
  have hm : h ∈ s.inFlight.map Prod.snd ↔ (s.pc h).InFlight := hc.table.mem_items
  have hf : (requestStop s t).history.filter (fun e => decide (e.call? = some h)) =
      (if h ∈ s.inFlight.map Prod.snd then [.stopHit h] else []) ++
        s.history.filter fun e => decide (e.call? = some h) := by
    rw [← filter_stopHit hn h, ← List.filter_append]
    rfl
  have hl : (requestStop s t).life h =
      { s.life h with
        cancelled := (({ s with accepting := false }.mark (s.inFlight.map Prod.snd)).life h).cancelled
        events := (requestStop s t).history.filter fun e => decide (e.call? = some h) } := by
    simp only [State.life, requestStop, State.setOp, State.mark]
    split <;> rfl
  rw [hl, hf, life_mark]
  by_cases hi : h ∈ s.inFlight.map Prod.snd
  · right
    rw [if_pos hi, if_pos hi]
    exact ⟨inFlight_phase.2 (hm.1 hi), rfl⟩
  · left
    rw [if_neg hi, if_neg hi]
    rfl

private theorem Move.event {s : State} {h : Handle} {q p : CallPc} {e : Option Event} {ev : Event}
    (hm : Move s h q p e) (he : e = some ev) : ev.call? = some h := by
  cases hm <;> cases he <;> rfl

private theorem life_move {s : State} {h : Handle} {q p : CallPc} {e : Option Event} (hq : s.pc h = q)
    (hm : Move s h q p e) :
    ((s.setPc h p).logAny e).life h = s.life h ∨ Life.Step h (s.life h) (((s.setPc h p).logAny e).life h) := by
  have hq : (s.life h).phase = q.phase := congrArg CallPc.phase hq
  have plain {p : CallPc} : ((s.setPc h p).logAny none).life h = { s.life h with phase := p.phase } :=
    life_setPc s p
  have same {p : CallPc} (hp : p.phase = q.phase) : ((s.setPc h p).logAny none).life h = s.life h := by
    rw [plain, hp, ← hq]
  have noted {p : CallPc} {e : Event} (he : e.call? = some h) : ((s.setPc h p).logAny (some e)).life h =
      { s.life h with phase := p.phase, events := e :: (s.life h).events } := life_same s he
  cases hm with
  | skip hc => rw [plain]; exact .inr (.skip _ hq hc)
  | resume => exact .inl (same rfl)
  | expired => rw [noted rfl]; exact .inr (.expire _ (.inl hq))
  | start => rw [noted rfl]; exact .inr (.start hq)
  | executed outcome => rw [noted rfl]; exact .inr (.answer _ hq)
  | cancelled result => exact .inl (same rfl)
  | recheck result => exact .inl (same rfl)
  | overran result => rw [noted rfl]; exact .inr (.expire _ (.inr ⟨result, hq⟩))
  | inTime result => exact .inl (same rfl)

private theorem life_makeControl {s : State} (hc : Calls.Custody s.calls) (t : ThreadId)
    (call : ScheduledToolCall) (key : Bytes) (h : Handle) :
    (makeControl s t call key).life h = s.life h ∨ Life.Step h (s.life h) ((makeControl s t call key).life h) := by
  by_cases e : h = s.fresh
  · right
    have hl : (makeControl s t call key).life h =
        { s.life h with id := call.requestId, phase := .offered, cancelled := false } := by
      simp [State.life, makeControl, e, CallPc.phase]
    rw [hl]
    have ha : s.pc h = .absent := hc.unused h (Nat.le_of_eq e.symm)
    exact .offer _ (congrArg CallPc.phase ha)
  · left
    simp [State.life, makeControl, Function.update_of_ne e]

private theorem life_stopFirst (s : State) (t : ThreadId) (pending : List Handle) (h : Handle) :
    (stopFirst s t pending).life h = s.life h := by
  cases pending with
  | nil => rfl
  | cons a rest => by_cases e : h = a <;> simp [State.life, stopFirst, State.setOp, e]

private theorem life_drainWait (s : State) (t : ThreadId) (h : Handle) :
    (drainWait s t).life h = s.life h := by
  unfold drainWait
  split <;> rfl

private theorem life_step {s s' : State} (hc : Calls.Custody s.calls) (hs : Step s s') (h : Handle) :
    s'.life h = s.life h ∨ Life.Step h (s.life h) (s'.life h) := by
  have at_ {k : Handle} {p : CallPc} (hp : s.pc k = p) : (s.life k).phase = p.phase := congrArg CallPc.phase hp
  have returned {t : ThreadId} {k : Handle} (ho : s.op t = .notifyingReady k) (r : State)
      (hr : r.life h = s.life h) :
      (returnSubmit r t k .accepted).life h = s.life h ∨
        Life.Step h (s.life h) ((returnSubmit r t k .accepted).life h) := by
    by_cases e : k = h
    · subst e
      rw [life_returnSubmit, hr]
      have hn : (s.pc k).Enqueued := hc.notified t k (by simp [State.calls, ho, Op.notifies])
      exact .inr (.accepted (enqueued_phase.2 hn))
    · rw [life_returnSubmit_ne _ _ _ e]
      exact .inl hr
  cases hs with
  | submitCall t call key => exact life_makeControl hc t call key h
  | refuse t k status statistics ho hp hr =>
    by_cases e : k = h
    · subst e
      rw [life_returnSubmit, life_setPc]
      exact .inr (.refuse status (.inl (at_ hp)) (by cases hr <;> exact ToolSubmitStatus.noConfusion))
    · rw [life_returnSubmit_ne _ _ _ e, life_setPc_ne _ _ e]
      exact .inl rfl
  | admission t k ho hp =>
    by_cases e : k = h
    · subst e
      right
      have e : (admitted s k).life k = _ := life_same _ rfl
      rw [e]
      exact .admission (at_ hp)
    · exact .inl (life_other _ e rfl)
  | startCoroutine t k ho hp => exact .inl (life_silent s (by rw [hp]; rfl))
  | frameFailure t k ho hp => exact .inl (life_silent s (by rw [hp]; rfl))
  | enqueue t k ho hp =>
    by_cases e : k = h
    · subst e
      right
      have e : (enqueue s t k).life k = _ := life_setPc { s with ready := s.ready ++ [k] } .queued
      rw [e]
      exact .enqueue (at_ hp)
    · exact .inl (life_setPc_ne { s with ready := s.ready ++ [k] } _ e)
  | unwind t k ho hp =>
    by_cases e : k = h
    · subst e
      right
      have e : (unwind s k).life k = _ := life_same _ rfl
      rw [e]
      exact .unwind (at_ hp)
    · exact .inl (life_other _ e rfl)
  | unwound t k ho hp =>
    by_cases e : k = h
    · subst e
      rw [life_returnSubmit, life_setPc, life_notifyAllDone]
      exact .inr (.refuse .stopped (.inr (at_ hp)) ToolSubmitStatus.noConfusion)
    · rw [life_returnSubmit_ne _ _ _ e, life_setPc_ne _ _ e]
      exact .inl rfl
  | wakeOne t k w ho hw => exact returned ho (s.setWorker w .looping) rfl
  | wakeNone t k ho hw => exact returned ho s rfl
  | cancelHit t id key k ho hk hl =>
    by_cases e : k = h
    · subst e
      right
      have hf : (s.pc k).InFlight := (hc.table.lookup_eq_some.1 hl).1
      rw [life_log _ rfl, life_setOp, life_mark, if_pos (List.mem_singleton_self k)]
      exact .mark _ (inFlight_phase.2 hf) .cancel
    · left
      rw [life_log_ne _ rfl e, life_setOp, life_mark,
        if_neg (by simpa using Ne.symm e)]
  | requestStop t ho =>
    rcases life_requestStop hc t h with e | ⟨hp, e⟩
    · exact .inl e
    · rw [e]; exact .inr (.mark _ hp .stop)
  | stopFirst t pending ho => exact .inl (life_stopFirst s t pending h)
  | drain t ho hj => exact .inl (life_drainWait ({ s with accepting := false }.log .closed) t h)
  | recheck t ho => exact .inl (life_drainWait s t h)
  | dequeue w k rest hw hr =>
    have hq : s.pc k = .queued := hc.eq_queued hr
    exact .inl (life_silent { s with ready := rest } (show _ = (s.pc k).phase by rw [hq]; rfl))
  | move w k p e hw hm =>
    by_cases hk : k = h
    · subst hk
      exact life_move rfl hm
    · left
      cases e with
      | none => exact life_setPc_ne s p hk
      | some e => exact life_other s hk (hm.event rfl)
  | finish w k haveResult timedOut result hw hp =>
    rw [finish_eq hc hp]
    by_cases e : k = h
    · subst e
      right
      have e : ((finishFound s k haveResult timedOut result).log (.finished k)).life k = _ := life_same _ rfl
      rw [e]
      exact .finish haveResult result (at_ hp)
    · exact .inl (life_other _ e rfl)
  | suppress w k result hw hp =>
    by_cases e : k = h
    · subst e
      rw [life_setWorker, life_setPc, life_notifyAllDone]
      exact .inr (.suppress result (at_ hp))
    · rw [life_setWorker, life_setPc_ne _ _ e]
      exact .inl rfl
  | complete w k result hw hp =>
    by_cases e : k = h
    · subst e
      rw [life_same _ rfl]
      exact .inr (.complete result (at_ hp))
    · exact .inl (life_other s.notifyAllDone e rfl)
  | completed w k result hw hp ho =>
    by_cases e : k = h
    · subst e
      rw [life_log _ rfl, life_setWorker, life_setPc]
      exact .inr (.completed result (at_ hp))
    · rw [life_log_ne _ rfl e, life_setWorker, life_setPc_ne _ _ e]
      exact .inl rfl
  | _ => exact .inl rfl

/-- Every call of the scheduler lives a `Life`. -/
theorem Life.projection (b : ResourceBudget) (h : Handle) :
    (Scheduler.system b).Projection (Life.system h) fun s => s.life h where
  init s hs := by
    obtain rfl : s = initial b := hs
    exact ⟨rfl, rfl, rfl⟩
  step s s' hs _ := fun ⟨_, hs'⟩ => life_step (custody hs) (step_sound hs') h

/-! ### What the events of a run say about a call -/

/-- How often the call passed through the locked section of `finish`. -/
def finishes (h : Handle) (es : List Event) : Nat :=
  es.countP fun
    | .finished k => k = h
    | _ => false

/-- The request ids its completion callback was invoked with. -/
def completionIds (h : Handle) (es : List Event) : List Json :=
  es.filterMap fun
    | .completionInvoked k id _ => if k = h then some id else none
    | _ => none

def Marked (h : Handle) (es : List Event) : Prop := ∃ e ∈ es, e.Marks h

/-- A `cancel` that found the call, or a `request_stop`, came before its `finish`. -/
def MarkedBeforeFinish (h : Handle) (es : List Event) : Prop :=
  ∃ newer older, es = newer ++ .finished h :: older ∧ Marked h older

section Events

variable {h : Handle} {es : List Event} {e : Event}

theorem Event.Marks.call?_eq (he : e.Marks h) : e.call? = some h := by
  cases he <;> rfl

theorem marked_cons : Marked h (e :: es) ↔ e.Marks h ∨ Marked h es := by
  simp [Marked]

theorem markedBeforeFinish_cons :
    MarkedBeforeFinish h (e :: es) ↔ e = .finished h ∧ Marked h es ∨ MarkedBeforeFinish h es := by
  constructor
  · rintro ⟨newer, older, he, hm⟩
    cases newer with
    | nil =>
      obtain ⟨rfl, rfl⟩ := List.cons.inj he
      exact .inl ⟨rfl, hm⟩
    | cons a newer =>
      obtain ⟨-, rfl⟩ := List.cons.inj he
      exact .inr ⟨newer, older, rfl, hm⟩
  · rintro (⟨rfl, hm⟩ | ⟨newer, older, rfl, hm⟩)
    · exact ⟨[], es, rfl, hm⟩
    · exact ⟨e :: newer, older, rfl, hm⟩

theorem not_markedBeforeFinish (hf : finishes h es = 0) : ¬ MarkedBeforeFinish h es := by
  rintro ⟨newer, older, rfl, -⟩
  simp [finishes] at hf

/-- Only the events about the call matter. -/
theorem finishes_filter : finishes h (es.filter fun e => e.call? = some h) = finishes h es := by
  simp only [finishes, List.countP_filter]
  refine List.countP_congr fun e _ => ?_
  cases e <;> simp [Event.call?]

theorem completionIds_filter : completionIds h (es.filter fun e => e.call? = some h) = completionIds h es := by
  simp only [completionIds, List.filterMap_filter]
  refine List.filterMap_congr fun e _ => ?_
  cases e <;> simp [Event.call?]

theorem marked_filter : Marked h (es.filter fun e => e.call? = some h) ↔ Marked h es := by
  simp only [Marked, List.mem_filter, decide_eq_true_eq]
  exact exists_congr fun e => ⟨fun ⟨⟨hm, _⟩, he⟩ => ⟨hm, he⟩, fun ⟨hm, he⟩ => ⟨⟨hm, he.call?_eq⟩, he⟩⟩

theorem markedBeforeFinish_filter :
    MarkedBeforeFinish h (es.filter fun e => e.call? = some h) ↔ MarkedBeforeFinish h es := by
  induction es with
  | nil => rfl
  | cons e es ih =>
    rw [markedBeforeFinish_cons, ← ih]
    by_cases he : e.call? = some h
    · rw [List.filter_cons_of_pos (by simpa using he), markedBeforeFinish_cons, marked_filter]
    · rw [List.filter_cons_of_neg (by simpa using he)]
      refine (or_iff_right ?_).symm
      rintro ⟨rfl, -⟩
      exact he rfl

end Events

namespace Life

/-- How often a call in this phase has been counted in `finish`. -/
def count : Phase → Nat
  | .owed .. | .delivering _ | .settled => 1
  | _ => 0

/-- The request ids that the completion callback of a call in this phase has been invoked with. -/
def answers (l : Life) : List Json :=
  match l.phase with
  | .delivering _ => [l.id]
  | .settled => if l.cancelled then [] else [l.id]
  | _ => []

/-- The decisions that were taken by the cancellation flag. -/
def Decided (l : Life) : Prop :=
  match l.phase with
  | .answered false _ => l.cancelled = true
  | .owed send _ => send = !l.cancelled
  | .delivering _ => l.cancelled = false
  | _ => True

/-- What the phase and the events of a life say about each other. -/
structure Account (h : Handle) (l : Life) : Prop where
  fresh : l.phase = .absent → l.events = []
  counted : finishes h l.events = count l.phase
  decided : l.Decided
  answered : completionIds h l.events = l.answers
  marked : l.cancelled = true ↔ Marked h l.events
  before : l.phase.Finished → (MarkedBeforeFinish h l.events ↔ l.cancelled = true)
  accepted : .submitReturned h .accepted ∈ l.events → l.phase.Enqueued
  refused : ∀ status, status ≠ .accepted → .submitReturned h status ∈ l.events → l.phase = .refused
  unstarted : ¬ l.phase.Enqueued → .executorStarted h ∉ l.events
  returned : l.phase = .settled → l.cancelled = false → .completionReturned h ∈ l.events
  admitted : l.phase.InFlight ∨ l.phase.Finished → .admitted h ∈ l.events

variable {h : Handle} {l l' : Life}

private theorem fresh_step (hs : Step h l l') : l'.phase = .absent → l'.events = [] := by
  intro hp
  cases hs with
  | accepted hq => rw [hp] at hq; exact hq.elim
  | mark e hq => rw [hp] at hq; exact hq.elim
  | _ => cases hp

private theorem counted_step (hi : finishes h l.events = count l.phase) (hs : Step h l l') :
    finishes h l'.events = count l'.phase := by
  cases hs with
  | offer id hp => simpa [hp, count] using hi
  | refuse status hp => rcases hp with hp | hp <;> simpa [finishes, hp, count] using hi
  | admission hp => simpa [finishes, hp, count] using hi
  | unwind hp => simpa [finishes, hp, count] using hi
  | enqueue hp => simpa [hp, count] using hi
  | accepted => simpa [finishes] using hi
  | mark e hp he => cases he <;> simpa [finishes] using hi
  | start hp => simpa [finishes, hp, count] using hi
  | skip result hp => simpa [hp, count] using hi
  | answer result hp => simpa [finishes, hp, count] using hi
  | expire result hp => rcases hp with hp | ⟨r, hp⟩ <;> simpa [finishes, hp, count] using hi
  | finish b result hp =>
    have hi : finishes h l.events = 0 := by rw [hi, hp]; rfl
    simpa [finishes, count] using hi
  | suppress result hp => simpa [hp, count] using hi
  | complete result hp => simpa [finishes, hp, count] using hi
  | completed result hp => simpa [finishes, hp, count] using hi

private theorem decided_step (hi : l.Decided) (hs : Step h l l') : l'.Decided := by
  cases hs with
  | accepted => exact hi
  | mark e hp =>
    -- A mark can only make true what a call in flight has decided.
    unfold Decided at hi ⊢
    split <;> simp_all [Phase.InFlight]
  | skip result hp hc => exact hc
  | finish b result hp =>
    unfold Decided at hi
    rw [hp] at hi
    cases b with
    | true => exact Bool.and_true _
    | false => simp [Decided, show l.cancelled = true from hi]
  | complete result hp =>
    unfold Decided at hi
    rw [hp] at hi
    simpa [Decided] using hi
  | _ => trivial

private theorem answers_inFlight (hp : l.phase.InFlight) : l.answers = [] := by
  unfold answers
  split <;> simp_all [Phase.InFlight]

private theorem answered_step (hd : l.Decided) (hi : completionIds h l.events = l.answers) (hs : Step h l l') :
    completionIds h l'.events = l'.answers := by
  unfold Decided at hd
  cases hs with
  | offer id hp => simpa [answers, hp] using hi
  | refuse status hp => rcases hp with hp | hp <;> simpa [completionIds, answers, hp] using hi
  | admission hp => simpa [completionIds, answers, hp] using hi
  | unwind hp => simpa [completionIds, answers, hp] using hi
  | enqueue hp => simpa [answers, hp] using hi
  | accepted => simpa [completionIds, answers] using hi
  | mark e hp he =>
    have hn : Life.answers { l with cancelled := true, events := e :: l.events } = [] := answers_inFlight hp
    have hi : completionIds h l.events = [] := hi.trans (answers_inFlight hp)
    rw [hn]
    cases he <;> simpa [completionIds] using hi
  | start hp => simpa [completionIds, answers, hp] using hi
  | skip result hp => simpa [answers, hp] using hi
  | answer result hp => simpa [completionIds, answers, hp] using hi
  | expire result hp => rcases hp with hp | ⟨r, hp⟩ <;> simpa [completionIds, answers, hp] using hi
  | finish b result hp => simpa [completionIds, answers, hp] using hi
  | suppress result hp =>
    rw [hp] at hd
    have hc : l.cancelled = true := by simpa using hd
    simpa [answers, hp, hc] using hi
  | complete result hp =>
    have hi : completionIds h l.events = [] := by rw [hi, answers, hp]
    simpa [completionIds, answers] using hi
  | completed result hp =>
    rw [hp] at hd
    have hc : l.cancelled = false := hd
    simpa [completionIds, answers, hp, hc] using hi

private theorem marked_step (hf : l.phase = .absent → l.events = []) (hi : l.cancelled = true ↔ Marked h l.events)
    (hs : Step h l l') : l'.cancelled = true ↔ Marked h l'.events := by
  -- An event that is no mark changes nothing.
  have note {e : Event} (he : ¬ e.Marks h) : l.cancelled = true ↔ Marked h (e :: l.events) := by
    rw [marked_cons, or_iff_right he, hi]
  cases hs with
  | offer id hp =>
    rw [hf hp]
    simp [Marked]
  | enqueue => exact hi
  | skip => exact hi
  | suppress => exact hi
  | mark e hp he => exact iff_of_true rfl (marked_cons.2 (.inl he))
  | _ => exact note (fun he => by cases he)

private theorem before_step (hc : finishes h l.events = count l.phase)
    (hm : l.cancelled = true ↔ Marked h l.events)
    (hi : l.phase.Finished → (MarkedBeforeFinish h l.events ↔ l.cancelled = true)) (hs : Step h l l') :
    l'.phase.Finished → (MarkedBeforeFinish h l'.events ↔ l'.cancelled = true) := by
  intro hf
  have note {e : Event} (he : e ≠ .finished h) (hf : l.phase.Finished) :
      MarkedBeforeFinish h (e :: l.events) ↔ l.cancelled = true := by
    rw [markedBeforeFinish_cons, or_iff_right (fun h => he h.1), hi hf]
  cases hs with
  | accepted => exact note Event.noConfusion hf
  | mark e hp =>
    exfalso
    revert hp hf
    cases l.phase <;> simp [Phase.Finished, Phase.InFlight]
  | finish b result hp =>
    have h₀ : ¬ MarkedBeforeFinish h l.events := not_markedBeforeFinish (by rw [hc, hp]; rfl)
    rw [markedBeforeFinish_cons, or_iff_left h₀, hm]
    exact and_iff_right rfl
  | suppress result hp => exact hi (by rw [hp]; trivial)
  | complete result hp => exact note Event.noConfusion (by rw [hp]; trivial)
  | completed result hp => exact note Event.noConfusion (by rw [hp]; trivial)
  | _ => exact hf.elim

theorem Step.enqueued (hs : Step h l l') (hp : l.phase.Enqueued) : l'.phase.Enqueued := by
  cases hs with
  | offer id hq => rw [hq] at hp; exact hp.elim
  | refuse status hq => rcases hq with hq | hq <;> (rw [hq] at hp; exact hp.elim)
  | admission hq => rw [hq] at hp; exact hp.elim
  | unwind hq => rw [hq] at hp; exact hp.elim
  | accepted => exact hp
  | mark => exact hp
  | _ => trivial

theorem Step.refused (hs : Step h l l') (hp : l.phase = .refused) : l'.phase = .refused := by
  cases hs with
  | refuse => rfl
  | accepted => exact hp
  | mark => exact hp
  | offer id hq | admission hq | unwind hq | enqueue hq | start hq | skip r hq | answer r hq | finish b r hq
  | suppress r hq | complete r hq | completed r hq => cases hp.symm.trans hq
  | expire r hq => rcases hq with hq | ⟨_, hq⟩ <;> cases hp.symm.trans hq

theorem Step.settled (hs : Step h l l') (hp : l.phase = .settled) : l'.phase = .settled := by
  cases hs with
  | refuse status hq => rcases hq with hq | hq <;> cases hp.symm.trans hq
  | accepted => exact hp
  | mark => exact hp
  | offer id hq | admission hq | unwind hq | enqueue hq | start hq | skip r hq | answer r hq | finish b r hq
  | suppress r hq | complete r hq | completed r hq => cases hp.symm.trans hq
  | expire r hq => rcases hq with hq | ⟨_, hq⟩ <;> cases hp.symm.trans hq

/-- A step records at most one event, and it records the outcome of a `submit` and the start of an executor only in
the phases where they can happen. -/
theorem Step.recorded (hs : Step h l l') :
    l'.events = l.events ∨ ∃ e, l'.events = e :: l.events ∧
      (e = .submitReturned h .accepted ∨ e = .executorStarted h → l'.phase.Enqueued) ∧
      ∀ status, status ≠ .accepted → e = .submitReturned h status → l'.phase = .refused := by
  cases hs with
  | offer | enqueue | skip | suppress => exact .inl rfl
  | accepted hp =>
    refine .inr ⟨_, rfl, fun _ => hp, fun status hn e => ?_⟩
    cases e
    exact absurd rfl hn
  | refuse status hp hn =>
    refine .inr ⟨_, rfl, fun e => ?_, fun _ _ _ => rfl⟩
    rcases e with e | e <;> cases e
    exact absurd rfl hn
  | mark e hp he =>
    refine .inr ⟨_, rfl, fun e => ?_, fun status _ e => ?_⟩
    · rcases e with rfl | rfl <;> cases he
    · subst e
      cases he
  | start => exact .inr ⟨_, rfl, fun _ => trivial, fun status _ e => by cases e⟩
  | _ =>
    refine .inr ⟨_, rfl, ?_, fun status _ e => by cases e⟩
    rintro (e | e) <;> cases e

private theorem accepted_step (hi : .submitReturned h .accepted ∈ l.events → l.phase.Enqueued)
    (hs : Step h l l') : .submitReturned h .accepted ∈ l'.events → l'.phase.Enqueued := by
  intro hm
  rcases hs.recorded with e | ⟨e, he, hp, -⟩
  · exact hs.enqueued (hi (e ▸ hm))
  · rw [he] at hm
    rcases List.mem_cons.1 hm with hm | hm
    · exact hp (.inl hm.symm)
    · exact hs.enqueued (hi hm)

private theorem refused_step (hi : ∀ status, status ≠ .accepted → .submitReturned h status ∈ l.events →
    l.phase = .refused) (hs : Step h l l') (status : ToolSubmitStatus) (hn : status ≠ .accepted)
    (hm : .submitReturned h status ∈ l'.events) : l'.phase = .refused := by
  rcases hs.recorded with e | ⟨e, he, -, hp⟩
  · exact hs.refused (hi status hn (e ▸ hm))
  · rw [he] at hm
    rcases List.mem_cons.1 hm with hm | hm
    · exact hp status hn hm.symm
    · exact hs.refused (hi status hn hm)

private theorem unstarted_step (hi : ¬ l.phase.Enqueued → .executorStarted h ∉ l.events) (hs : Step h l l')
    (hp : ¬ l'.phase.Enqueued) : .executorStarted h ∉ l'.events := by
  intro hm
  rcases hs.recorded with e | ⟨e, he, hq, -⟩
  · exact hi (fun hp' => hp (hs.enqueued hp')) (e ▸ hm)
  · rw [he] at hm
    rcases List.mem_cons.1 hm with hm | hm
    · exact hp (hq (.inr hm.symm))
    · exact hi (fun hp' => hp (hs.enqueued hp')) hm

private theorem returned_step (hd : l.Decided)
    (hi : l.phase = .settled → l.cancelled = false → .completionReturned h ∈ l.events) (hs : Step h l l')
    (hp : l'.phase = .settled) (hc : l'.cancelled = false) : .completionReturned h ∈ l'.events := by
  cases hs with
  | accepted => exact List.mem_cons_of_mem _ (hi hp hc)
  | mark e hq => cases hc
  | suppress result hq =>
    unfold Decided at hd
    rw [hq] at hd
    have hc : l.cancelled = false := hc
    simp [hc] at hd
  | completed => exact List.mem_cons_self ..
  | _ => cases hp

private theorem admitted_step (hi : l.phase.InFlight ∨ l.phase.Finished → .admitted h ∈ l.events)
    (hs : Step h l l') (hp : l'.phase.InFlight ∨ l'.phase.Finished) : .admitted h ∈ l'.events := by
  have flying {p : Phase} (hq : l.phase = p) (hp : p.InFlight) : .admitted h ∈ l.events := hi (.inl (hq ▸ hp))
  have ended {p : Phase} (hq : l.phase = p) (hp : p.Finished) : .admitted h ∈ l.events := hi (.inr (hq ▸ hp))
  cases hs with
  | offer | refuse | unwind => exact (or_self_iff.1 hp).elim
  | admission => exact List.mem_cons_self ..
  | enqueue hq => exact flying hq trivial
  | accepted => exact List.mem_cons_of_mem _ (hi hp)
  | mark e hq => exact List.mem_cons_of_mem _ (hi hp)
  | start hq => exact List.mem_cons_of_mem _ (flying hq trivial)
  | skip result hq => exact flying hq trivial
  | answer result hq => exact List.mem_cons_of_mem _ (flying hq trivial)
  | expire result hq =>
    rcases hq with hq | ⟨r, hq⟩
    · exact List.mem_cons_of_mem _ (flying hq trivial)
    · exact List.mem_cons_of_mem _ (flying hq trivial)
  | finish b result hq => exact List.mem_cons_of_mem _ (flying hq trivial)
  | suppress result hq => exact ended hq trivial
  | complete result hq => exact List.mem_cons_of_mem _ (ended hq trivial)
  | completed result hq => exact List.mem_cons_of_mem _ (ended hq trivial)

private theorem Account.step (hi : Account h l) (hs : Step h l l') : Account h l' where
  fresh := fresh_step hs
  counted := counted_step hi.counted hs
  decided := decided_step hi.decided hs
  answered := answered_step hi.decided hi.answered hs
  marked := marked_step hi.fresh hi.marked hs
  before := before_step hi.counted hi.marked hi.before hs
  accepted := accepted_step hi.accepted hs
  refused := refused_step hi.refused hs
  unstarted := unstarted_step hi.unstarted hs
  returned := returned_step hi.decided hi.returned hs
  admitted := admitted_step hi.admitted hs

private theorem Account.init (hp : l.phase = .absent) (hc : l.cancelled = false) (he : l.events = []) :
    Account h l where
  fresh := fun _ => he
  counted := by rw [he, hp]; rfl
  decided := by simp [Decided, hp]
  answered := by simp [he, completionIds, answers, hp]
  marked := by simp [he, hc, Marked]
  before := by simp [hp, Phase.Finished]
  accepted := by simp [he]
  refused := by simp [he]
  unstarted := by simp [he]
  returned := by simp [hp]
  admitted := by simp [hp, Phase.InFlight, Phase.Finished]

theorem account_of_reachable (hl : (system h).Reachable l) : Account h l :=
  hl.invariant (fun _ ⟨hp, hc, he⟩ => .init hp hc he) fun _ _ _ hi hs => hi.step hs

end Life

theorem account {b : ResourceBudget} {s : State} (hs : (system b).Reachable s) (h : Handle) :
    Life.Account h (s.life h) :=
  Life.account_of_reachable ((Life.projection b h).reachable hs)

end NativeMcp.Scheduler
