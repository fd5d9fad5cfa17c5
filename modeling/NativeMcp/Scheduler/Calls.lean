import NativeMcp.Lib.Registry
import NativeMcp.Scheduler.Steps

/-!
# The custody of calls

`Calls` is the scheduler as far as calls are concerned: the positions of the calls, the threads and workers that hold
them, the ready queue and the in-flight table.  Its steps say how a call is handed on, and `Custody` says that the
queue, the table and the holders each have exactly the calls that belong there.  `projection` maps the scheduler onto
it: everything else a thread does (cancelling, stopping, shutting down, waking up) is no step of `Calls`.
-/

namespace NativeMcp.Scheduler

open Function (update)
open Registry

/-! ### Where calls belong -/

namespace CallPc

/-- Positions in the `submit` of the thread that made the call. -/
def InSubmit : CallPc → Prop
  | submitted | admitted | suspending | unwinding | unwound => True
  | _ => False

/-- Positions between admission and the locked section of `finish`. -/
def InFlight : CallPc → Prop
  | admitted | suspending | unwinding | queued | resumed | checkingDeadline | executing | executed _
  | recheckingDeadline _ | finishing .. => True
  | _ => False

def IsQueued : CallPc → Prop
  | queued => True
  | _ => False

/-- Positions in which a worker runs the coroutine. -/
def OnWorker : CallPc → Prop
  | resumed | checkingDeadline | executing | executed _ | recheckingDeadline _ | finishing ..
  | notifying .. | completing _ => True
  | _ => False

/-- Positions from the first `enqueue` on. -/
def Enqueued : CallPc → Prop
  | queued | resumed | checkingDeadline | executing | executed _ | recheckingDeadline _ | finishing ..
  | notifying .. | completing _ | done => True
  | _ => False

/-- Positions on a worker before the locked section of `finish`. -/
def Running (p : CallPc) : Prop := p.OnWorker ∧ p.InFlight

theorem OnWorker.enqueued {p : CallPc} (h : p.OnWorker) : p.Enqueued := by
  cases p <;> simp_all [OnWorker, Enqueued]

theorem OnWorker.not_inSubmit {p : CallPc} (h : p.OnWorker) : ¬ p.InSubmit := by
  cases p <;> simp_all [OnWorker, InSubmit]

theorem OnWorker.not_isQueued {p : CallPc} (h : p.OnWorker) : ¬ p.IsQueued := by
  cases p <;> simp_all [OnWorker, IsQueued]

theorem InSubmit.not_enqueued {p : CallPc} (h : p.InSubmit) : ¬ p.Enqueued := by
  cases p <;> simp_all [Enqueued, InSubmit]

theorem InSubmit.ne_absent {p : CallPc} (h : p.InSubmit) : p ≠ .absent := by
  rintro rfl
  exact h

theorem Enqueued.ne_absent {p : CallPc} (h : p.Enqueued) : p ≠ .absent := by
  rintro rfl
  exact h

theorem IsQueued.eq_queued {p : CallPc} (h : p.IsQueued) : p = .queued := by
  cases p <;> simp_all [IsQueued]

theorem InSubmit.not_onWorker {p : CallPc} (h : p.InSubmit) : ¬ p.OnWorker :=
  fun hw => h.not_enqueued hw.enqueued

theorem InSubmit.not_isQueued {p : CallPc} (h : p.InSubmit) : ¬ p.IsQueued := by
  cases p <;> simp_all [IsQueued, InSubmit]

end CallPc

def Op.submits : Op → Option Handle
  | submitting h => some h
  | _ => none

def Op.notifies : Op → Option Handle
  | notifyingReady h => some h
  | _ => none

def WorkerPc.runs : WorkerPc → Option Handle
  | running h => some h
  | _ => none

/-- The part of the state that is about calls. -/
structure Calls where
  capacity : Nat
  fresh : Handle
  requestId : Handle → Json
  key : Handle → Bytes
  pc : Handle → CallPc
  submitter : ThreadId → Option Handle
  notifier : ThreadId → Option Handle
  runner : Nat → Option Handle
  ready : List Handle
  inFlight : List (Bytes × Handle)

def State.calls (s : State) : Calls where
  capacity := s.budget.maxPendingRequests
  fresh := s.fresh
  requestId h := (s.control h).call.requestId
  key h := (s.control h).key
  pc := s.pc
  submitter t := (s.op t).submits
  notifier t := (s.op t).notifies
  runner w := (s.worker w).runs
  ready := s.ready
  inFlight := s.inFlight

namespace Calls

/-- How a call is handed on. -/
inductive Step (c : Calls) : Calls → Prop where
  | create (t : ThreadId) (id : Json) (key : Bytes) (ht : c.submitter t = none) (hk : requestKey id = some key) :
      Step c { c with
        fresh := c.fresh + 1
        requestId := update c.requestId c.fresh id
        key := update c.key c.fresh key
        pc := update c.pc c.fresh .submitted
        submitter := update c.submitter t (some c.fresh) }
  | refuse (t : ThreadId) (h : Handle) (p : CallPc) (ht : c.submitter t = some h)
      (hf : ¬ (c.pc h).InFlight) (hp : p = .refused ∨ p = .failed) :
      Step c { c with pc := update c.pc h p, submitter := update c.submitter t none }
  | admission (t : ThreadId) (h : Handle) (ht : c.submitter t = some h) (hk : c.inFlight.lookup (c.key h) = none)
      (hl : c.inFlight.length < c.capacity) :
      Step c { c with inFlight := (c.key h, h) :: c.inFlight, pc := update c.pc h .admitted }
  | start (t : ThreadId) (h : Handle) (p : CallPc) (ht : c.submitter t = some h) (hf : (c.pc h).InFlight)
      (hp : p = .suspending ∨ p = .unwinding) : Step c { c with pc := update c.pc h p }
  | enqueue (t : ThreadId) (h : Handle) (ht : c.submitter t = some h) (hf : (c.pc h).InFlight) :
      Step c { c with
        ready := c.ready ++ [h]
        pc := update c.pc h .queued
        submitter := update c.submitter t none
        notifier := update c.notifier t (some h) }
  | unwind (t : ThreadId) (h : Handle) (ht : c.submitter t = some h) (hf : (c.pc h).InFlight) :
      Step c { c with
        inFlight := c.inFlight.filter fun e => e.1 ≠ c.key h
        pc := update c.pc h .unwound }
  | notified (t : ThreadId) : Step c { c with notifier := update c.notifier t none }
  | dequeue (w : Nat) (h : Handle) (rest : List Handle) (hw : c.runner w = none) (hr : c.ready = h :: rest) :
      Step c { c with
        ready := rest
        pc := update c.pc h .resumed
        runner := update c.runner w (some h) }
  | move (w : Nat) (h : Handle) (p : CallPc) (hw : c.runner w = some h) (hf : (c.pc h).InFlight)
      (hp : p.Running) : Step c { c with pc := update c.pc h p }
  | finish (w : Nat) (h : Handle) (send : Bool) (result : ToolExecutionResult) (hw : c.runner w = some h)
      (hf : (c.pc h).InFlight) :
      Step c { c with
        inFlight := c.inFlight.filter fun e => e.1 ≠ c.key h
        pc := update c.pc h (.notifying send result) }
  | complete (w : Nat) (h : Handle) (result : ToolExecutionResult) (hw : c.runner w = some h)
      (hf : ¬ (c.pc h).InFlight) : Step c { c with pc := update c.pc h (.completing result) }
  | leave (w : Nat) (h : Handle) (hw : c.runner w = some h) (hf : ¬ (c.pc h).InFlight) :
      Step c { c with pc := update c.pc h .done, runner := update c.runner w none }

/-- No call yet, and nothing that could hold one. -/
def Empty (c : Calls) : Prop :=
  (∀ h, c.pc h = .absent) ∧ (∀ t, c.submitter t = none) ∧ (∀ t, c.notifier t = none) ∧
    (∀ w, c.runner w = none) ∧ c.ready = [] ∧ c.inFlight = []

def system : TransitionSystem Calls where
  init := Empty
  next := Step

/-- Every registry of the scheduler holds exactly the calls that belong there. -/
structure Custody (c : Calls) : Prop where
  unused : ∀ h, c.fresh ≤ h → c.pc h = .absent
  keyed : ∀ h, c.pc h ≠ .absent → requestKey (c.requestId h) = some (c.key h)
  submitters : Owned c.submitter c.pc CallPc.InSubmit
  runners : Owned c.runner c.pc CallPc.OnWorker
  queue : Queued c.ready c.pc CallPc.IsQueued
  table : Indexed c.inFlight c.key c.pc CallPc.InFlight
  notified : ∀ t h, c.notifier t = some h → (c.pc h).Enqueued
  bounded : c.inFlight.length ≤ c.capacity

/-! ### Each step keeps custody -/

namespace Custody

variable {c : Calls} {h : Handle} {p : CallPc}

theorem of_submitter (hc : Custody c) {t : ThreadId} (ht : c.submitter t = some h) : (c.pc h).InSubmit :=
  hc.submitters.status_of ht

theorem of_runner (hc : Custody c) {w : Nat} (hw : c.runner w = some h) : (c.pc h).OnWorker :=
  hc.runners.status_of hw

/-- A call in some position has been created. -/
theorem fresh_ne (hc : Custody c) (hp : c.pc h ≠ .absent) : h ≠ c.fresh :=
  fun e => hp (hc.unused h (Nat.le_of_eq e.symm))

private theorem unused_update (hc : Custody c) (hp : c.pc h ≠ .absent) (k : Handle) (hk : c.fresh ≤ k) :
    update c.pc h p k = .absent := by
  rw [Function.update_of_ne (fun e => hp (by rw [← e]; exact hc.unused k hk))]
  exact hc.unused k hk

private theorem keyed_update (hc : Custody c) (hp : c.pc h ≠ .absent) (k : Handle)
    (hk : update c.pc h p k ≠ .absent) : requestKey (c.requestId k) = some (c.key k) := by
  by_cases e : k = h
  · exact hc.keyed k (by rw [e]; exact hp)
  · rw [Function.update_of_ne e] at hk
    exact hc.keyed k hk

private theorem notified_update (hc : Custody c) (hp : (c.pc h).Enqueued → p.Enqueued) (t : ThreadId)
    (k : Handle) (hk : c.notifier t = some k) : (update c.pc h p k).Enqueued := by
  by_cases e : k = h
  · rw [e, Function.update_self]
    exact hp (e ▸ hc.notified t k hk)
  · rw [Function.update_of_ne e]
    exact hc.notified t k hk

/-- A call may move to any position that belongs to the same registries. -/
private theorem reposition (hc : Custody c) (ha : c.pc h ≠ .absent) (hs : p.InSubmit ↔ (c.pc h).InSubmit)
    (hw : p.OnWorker ↔ (c.pc h).OnWorker) (hq : p.IsQueued ↔ (c.pc h).IsQueued)
    (hf : p.InFlight ↔ (c.pc h).InFlight) (he : (c.pc h).Enqueued → p.Enqueued) :
    Custody { c with pc := update c.pc h p } where
  unused := hc.unused_update ha
  keyed := hc.keyed_update ha
  submitters := hc.submitters.keep hs
  runners := hc.runners.keep hw
  queue := hc.queue.keep hq
  table := hc.table.keep hf
  notified := hc.notified_update he
  bounded := hc.bounded

private theorem create (hc : Custody c) {t : ThreadId} {id : Json} {key : Bytes} (ht : c.submitter t = none)
    (hk : requestKey id = some key) :
    Custody { c with
      fresh := c.fresh + 1
      requestId := update c.requestId c.fresh id
      key := update c.key c.fresh key
      pc := update c.pc c.fresh .submitted
      submitter := update c.submitter t (some c.fresh) } := by
  have ha : c.pc c.fresh = .absent := hc.unused _ (Nat.le_refl _)
  exact {
    unused := fun k hk => by
      have hk : c.fresh < k := hk
      exact (Function.update_of_ne (Nat.ne_of_gt hk) ..).trans (hc.unused k (Nat.le_of_lt hk))
    keyed := fun k hk' => by
      by_cases e : k = c.fresh
      · simpa [e] using hk
      · simp only [Function.update_of_ne e] at hk' ⊢
        exact hc.keyed k hk'
    submitters := hc.submitters.acquire ht (by simp [ha, CallPc.InSubmit]) trivial
    runners := hc.runners.keep (by simp [ha, CallPc.OnWorker])
    queue := hc.queue.keep (by simp [ha, CallPc.IsQueued])
    table := (hc.table.rekey (by simp [ha, CallPc.InFlight])).keep (by simp [ha, CallPc.InFlight])
    notified := hc.notified_update (by simp [ha, CallPc.Enqueued])
    bounded := hc.bounded }

private theorem refuse (hc : Custody c) {t : ThreadId} (ht : c.submitter t = some h)
    (hf : ¬ (c.pc h).InFlight) (hp : p = .refused ∨ p = .failed) :
    Custody { c with pc := update c.pc h p, submitter := update c.submitter t none } := by
  have hs := hc.of_submitter ht
  have ha := hs.ne_absent
  rcases hp with rfl | rfl <;>
  exact {
    unused := hc.unused_update ha
    keyed := hc.keyed_update ha
    submitters := hc.submitters.release ht id
    runners := hc.runners.keep (iff_of_false id hs.not_onWorker)
    queue := hc.queue.keep (iff_of_false id hs.not_isQueued)
    table := hc.table.keep (iff_of_false id hf)
    notified := hc.notified_update fun he => absurd he hs.not_enqueued
    bounded := hc.bounded }

private theorem admission (hc : Custody c) {t : ThreadId} (ht : c.submitter t = some h)
    (hk : c.inFlight.lookup (c.key h) = none) (hl : c.inFlight.length < c.capacity) :
    Custody { c with inFlight := (c.key h, h) :: c.inFlight, pc := update c.pc h .admitted } := by
  have hs := hc.of_submitter ht
  exact {
    unused := hc.unused_update hs.ne_absent
    keyed := hc.keyed_update hs.ne_absent
    submitters := hc.submitters.keep (iff_of_true trivial hs)
    runners := hc.runners.keep (iff_of_false id hs.not_onWorker)
    queue := hc.queue.keep (iff_of_false id hs.not_isQueued)
    table := hc.table.insert hk trivial
    notified := hc.notified_update fun he => absurd he hs.not_enqueued
    bounded := hl }

private theorem enqueue (hc : Custody c) {t : ThreadId} (ht : c.submitter t = some h) (hf : (c.pc h).InFlight) :
    Custody { c with
      ready := c.ready ++ [h]
      pc := update c.pc h .queued
      submitter := update c.submitter t none
      notifier := update c.notifier t (some h) } := by
  have hs := hc.of_submitter ht
  exact {
    unused := hc.unused_update hs.ne_absent
    keyed := hc.keyed_update hs.ne_absent
    submitters := hc.submitters.release ht id
    runners := hc.runners.keep (iff_of_false id hs.not_onWorker)
    queue := hc.queue.push hs.not_isQueued trivial
    table := hc.table.keep (iff_of_true trivial hf)
    notified := fun u k (hk : update c.notifier t (some h) u = some k) => by
      by_cases e : u = t
      · rw [e, Function.update_self] at hk
        simp [← Option.some.inj hk, CallPc.Enqueued]
      · rw [Function.update_of_ne e] at hk
        exact hc.notified_update (p := .queued) (fun _ => trivial) u k hk
    bounded := hc.bounded }

/-- The table entry under the key of a call in flight can be taken out. -/
private theorem bounded_filter (hc : Custody c) (k : Bytes) :
    (c.inFlight.filter fun e => e.1 ≠ k).length ≤ c.capacity :=
  (List.length_filter_le _ _).trans hc.bounded

private theorem unwind (hc : Custody c) {t : ThreadId} (ht : c.submitter t = some h) (hf : (c.pc h).InFlight) :
    Custody { c with
      inFlight := c.inFlight.filter fun e => e.1 ≠ c.key h
      pc := update c.pc h .unwound } := by
  have hs := hc.of_submitter ht
  exact {
    unused := hc.unused_update hs.ne_absent
    keyed := hc.keyed_update hs.ne_absent
    submitters := hc.submitters.keep (iff_of_true trivial hs)
    runners := hc.runners.keep (iff_of_false id hs.not_onWorker)
    queue := hc.queue.keep (iff_of_false id hs.not_isQueued)
    table := hc.table.erase hf id
    notified := hc.notified_update fun he => absurd he hs.not_enqueued
    bounded := hc.bounded_filter _ }

private theorem dequeue (hc : Custody c) {w : Nat} {rest : List Handle} (hw : c.runner w = none)
    (hr : c.ready = h :: rest) :
    Custody { c with
      ready := rest
      pc := update c.pc h .resumed
      runner := update c.runner w (some h) } := by
  have hq : (c.pc h).IsQueued := (hc.queue.mem h).1 (by rw [hr]; exact List.mem_cons_self ..)
  have hp := hq.eq_queued
  have ha : c.pc h ≠ .absent := by simp [hp]
  exact {
    unused := hc.unused_update ha
    keyed := hc.keyed_update ha
    submitters := hc.submitters.keep (by simp [hp, CallPc.InSubmit])
    runners := hc.runners.acquire hw (by simp [hp, CallPc.OnWorker]) trivial
    queue := (hr ▸ hc.queue : Queued (h :: rest) c.pc CallPc.IsQueued).pop id
    table := hc.table.keep (by simp [hp, CallPc.InFlight])
    notified := hc.notified_update fun _ => trivial
    bounded := hc.bounded }

private theorem finish (hc : Custody c) {w : Nat} {send : Bool} {result : ToolExecutionResult}
    (hw : c.runner w = some h) (hf : (c.pc h).InFlight) :
    Custody { c with
      inFlight := c.inFlight.filter fun e => e.1 ≠ c.key h
      pc := update c.pc h (.notifying send result) } := by
  have hr := hc.of_runner hw
  exact {
    unused := hc.unused_update hr.enqueued.ne_absent
    keyed := hc.keyed_update hr.enqueued.ne_absent
    submitters := hc.submitters.keep (iff_of_false id hr.not_inSubmit)
    runners := hc.runners.keep (iff_of_true trivial hr)
    queue := hc.queue.keep (iff_of_false id hr.not_isQueued)
    table := hc.table.erase hf id
    notified := hc.notified_update fun _ => trivial
    bounded := hc.bounded_filter _ }

private theorem leave (hc : Custody c) {w : Nat} (hw : c.runner w = some h) (hf : ¬ (c.pc h).InFlight) :
    Custody { c with pc := update c.pc h .done, runner := update c.runner w none } := by
  have hr := hc.of_runner hw
  exact {
    unused := hc.unused_update hr.enqueued.ne_absent
    keyed := hc.keyed_update hr.enqueued.ne_absent
    submitters := hc.submitters.keep (iff_of_false id hr.not_inSubmit)
    runners := hc.runners.release hw id
    queue := hc.queue.keep (iff_of_false id hr.not_isQueued)
    table := hc.table.keep (iff_of_false id hf)
    notified := hc.notified_update fun _ => trivial
    bounded := hc.bounded }

theorem step {c' : Calls} (hc : Custody c) (hs : Step c c') : Custody c' := by
  cases hs with
  | create t id key ht hk => exact hc.create ht hk
  | refuse t h p ht hf hp => exact hc.refuse ht hf hp
  | admission t h ht hk hl => exact hc.admission ht hk hl
  | start t h p ht hf hp =>
    have hs := hc.of_submitter ht
    have hp : p.InSubmit ∧ p.InFlight := by rcases hp with rfl | rfl <;> exact ⟨trivial, trivial⟩
    exact hc.reposition hs.ne_absent (iff_of_true hp.1 hs) (iff_of_false hp.1.not_onWorker hs.not_onWorker)
      (iff_of_false hp.1.not_isQueued hs.not_isQueued) (iff_of_true hp.2 hf) fun he => absurd he hs.not_enqueued
  | enqueue t h ht hf => exact hc.enqueue ht hf
  | unwind t h ht hf => exact hc.unwind ht hf
  | notified t =>
    refine { hc with notified := fun u k (hk : update c.notifier t none u = some k) => ?_ }
    by_cases e : u = t
    · rw [e, Function.update_self] at hk; cases hk
    · rw [Function.update_of_ne e] at hk
      exact hc.notified u k hk
  | dequeue w h rest hw hr => exact hc.dequeue hw hr
  | move w h p hw hf hp =>
    have hr := hc.of_runner hw
    exact hc.reposition hr.enqueued.ne_absent (iff_of_false hp.1.not_inSubmit hr.not_inSubmit)
      (iff_of_true hp.1 hr) (iff_of_false hp.1.not_isQueued hr.not_isQueued) (iff_of_true hp.2 hf)
      fun _ => hp.1.enqueued
  | finish w h send result hw hf => exact hc.finish hw hf
  | complete w h result hw hf =>
    have hr := hc.of_runner hw
    exact hc.reposition hr.enqueued.ne_absent (iff_of_false id hr.not_inSubmit) (iff_of_true trivial hr)
      (iff_of_false id hr.not_isQueued) (iff_of_false id hf) fun _ => trivial
  | leave w h hw hf => exact hc.leave hw hf

theorem empty (he : Empty c) : Custody c := by
  obtain ⟨hp, hs, hn, hw, hr, hf⟩ := he
  exact {
    unused := fun h _ => hp h
    keyed := fun h hk => absurd (hp h) hk
    submitters := ⟨by simp [hp, hs, CallPc.InSubmit], by simp [hs]⟩
    runners := ⟨by simp [hp, hw, CallPc.OnWorker], by simp [hw]⟩
    queue := ⟨by simp [hp, hr, CallPc.IsQueued], by simp [hr]⟩
    table := ⟨by simp [hp, hf, CallPc.InFlight], by simp [hf]⟩
    notified := by simp [hn]
    bounded := by simp [hf] }

end Custody

theorem custody_of_reachable {c : Calls} (hc : system.Reachable c) : Custody c :=
  hc.invariant (fun _ => Custody.empty) fun _ _ _ h hs => h.step hs

end Calls

/-! ### The scheduler projects onto `Calls` -/

section Projection

variable (s : State)

@[simp] theorem calls_setPc (h : Handle) (p : CallPc) :
    (s.setPc h p).calls = { s.calls with pc := update s.calls.pc h p } := rfl

@[simp] theorem calls_log (e : Event) : (s.log e).calls = s.calls := rfl

@[simp] theorem calls_logAny (e : Option Event) : (s.logAny e).calls = s.calls := rfl

@[simp] theorem calls_setOp (t : ThreadId) (o : Op) :
    (s.setOp t o).calls =
      { s.calls with
        submitter := update s.calls.submitter t o.submits
        notifier := update s.calls.notifier t o.notifies } := by
  simp only [State.calls, State.setOp, Calls.mk.injEq, true_and, and_true]
  exact ⟨Function.comp_update Op.submits s.op t o, Function.comp_update Op.notifies s.op t o⟩

@[simp] theorem calls_setWorker (w : Nat) (p : WorkerPc) :
    (s.setWorker w p).calls = { s.calls with runner := update s.calls.runner w p.runs } := by
  simp only [State.calls, State.setWorker, Calls.mk.injEq, true_and, and_true]
  exact Function.comp_update WorkerPc.runs s.worker w p

@[simp] theorem calls_mark (hs : List Handle) : (s.mark hs).calls = s.calls := by
  simp only [State.calls, State.mark, Calls.mk.injEq, true_and, and_true]
  constructor <;> funext h <;> split <;> rfl

@[simp] theorem submits_wake (o : Op) : o.wake.submits = o.submits := by cases o <;> rfl

@[simp] theorem notifies_wake (o : Op) : o.wake.notifies = o.notifies := by cases o <;> rfl

@[simp] theorem runs_wake (p : WorkerPc) : p.wake.runs = p.runs := by cases p <;> rfl

@[simp] theorem calls_notifyAllReady : s.notifyAllReady.calls = s.calls := by
  simp [State.calls, State.notifyAllReady]

@[simp] theorem calls_notifyAllDone : s.notifyAllDone.calls = s.calls := by
  simp [State.calls, State.notifyAllDone]

/-- A thread that neither starts nor ends a `submit` does not touch the calls. -/
theorem calls_setOp_of_eq {t : ThreadId} {o : Op} (hs : o.submits = (s.op t).submits)
    (hn : o.notifies = (s.op t).notifies) : (s.setOp t o).calls = s.calls := by
  rw [calls_setOp, hs, hn]
  show { s.calls with
    submitter := update s.calls.submitter t (s.calls.submitter t)
    notifier := update s.calls.notifier t (s.calls.notifier t) } = s.calls
  rw [Function.update_eq_self, Function.update_eq_self]

end Projection

theorem Calls.Custody.eq_queued {s : State} (hc : Calls.Custody s.calls) {h : Handle} {rest : List Handle}
    (hr : s.ready = h :: rest) : s.pc h = .queued :=
  ((hc.queue.mem h).1 (by rw [show s.calls.ready = h :: rest from hr]; exact List.mem_cons_self ..)).eq_queued

/-- With no call in flight the ready queue is empty. -/
theorem Calls.Custody.ready_eq_nil {s : State} (hc : Calls.Custody s.calls) (hf : s.inFlight = []) :
    s.ready = [] := by
  cases hr : s.ready with
  | nil => rfl
  | cons h rest =>
    have hm := (hc.table.mem (s.control h).key h).2 ⟨by rw [show s.calls.pc h = _ from hc.eq_queued hr]; trivial, rfl⟩
    rw [show s.calls.inFlight = [] from hf] at hm
    cases hm

/-- At `finish` the entry under the call's key is the call itself. -/
theorem lookup_of_inFlight {s : State} (hc : Calls.Custody s.calls) {h : Handle} (hp : (s.pc h).InFlight) :
    s.inFlight.lookup (s.control h).key = some h := hc.table.lookup_eq_some.2 ⟨hp, rfl⟩

theorem finish_eq {s : State} (hc : Calls.Custody s.calls) {h : Handle} {haveResult timedOut : Bool}
    {result : ToolExecutionResult} (hp : s.pc h = .finishing haveResult timedOut result) :
    finish s h haveResult timedOut result = (finishFound s h haveResult timedOut result).log (.finished h) := by
  unfold finish
  rw [if_pos (lookup_of_inFlight hc (by rw [hp]; trivial))]

theorem Move.running {s : State} {h : Handle} {q p : CallPc} {e : Option Event} (hm : Move s h q p e) :
    q.Running ∧ p.Running := by
  cases hm <;> exact ⟨⟨trivial, trivial⟩, trivial, trivial⟩

private theorem calls_stopRequested (s : State) (h : Handle) :
    { s with control := update s.control h { s.control h with stopRequested := true } }.calls = s.calls := by
  simp only [State.calls, Calls.mk.injEq, true_and, and_true]
  constructor <;> funext k <;> by_cases e : k = h <;> simp [e]

private theorem calls_drainWait {s : State} {t : ThreadId} (h₁ : (s.op t).submits = none)
    (h₂ : (s.op t).notifies = none) : (drainWait s t).calls = s.calls := by
  unfold drainWait
  split
  · exact calls_setOp_of_eq { s with stopping := true } h₁.symm h₂.symm
  · exact calls_setOp_of_eq s h₁.symm h₂.symm

private theorem refusal_calls {s : State} {t : ThreadId} {h : Handle} {status : ToolSubmitStatus} {p : CallPc}
    (ho : s.op t = .submitting h) :
    (returnSubmit (s.setPc h p) t h status).calls =
      { s.calls with pc := update s.calls.pc h p, submitter := update s.calls.submitter t none } := by
  have hn : update s.calls.notifier t none = s.calls.notifier :=
    Function.update_eq_self_iff.2 (by simp [State.calls, ho, Op.notifies])
  simp only [returnSubmit, calls_log, calls_setOp, calls_setPc, Op.submits, Op.notifies, hn]

private theorem accepted_calls {s : State} {t : ThreadId} {h : Handle} (ho : s.op t = .notifyingReady h) :
    (returnSubmit s t h .accepted).calls = { s.calls with notifier := update s.calls.notifier t none } := by
  have hs : update s.calls.submitter t none = s.calls.submitter :=
    Function.update_eq_self_iff.2 (by simp [State.calls, ho, Op.submits])
  simp only [returnSubmit, calls_log, calls_setOp, Op.submits, Op.notifies, hs]

private theorem create_calls {s : State} {t : ThreadId} {call : ScheduledToolCall} {key : Bytes}
    (ho : s.op t = .idle) :
    (makeControl s t call key).calls =
      { s.calls with
        fresh := s.calls.fresh + 1
        requestId := update s.calls.requestId s.calls.fresh call.requestId
        key := update s.calls.key s.calls.fresh key
        pc := update s.calls.pc s.calls.fresh .submitted
        submitter := update s.calls.submitter t (some s.calls.fresh) } := by
  have hn : s.calls.notifier = update s.calls.notifier t none :=
    (Function.update_eq_self_iff.2 (by simp [State.calls, ho, Op.notifies])).symm
  have h := calls_setOp s t (.submitting s.fresh)
  simp only [State.calls, State.setOp, Calls.mk.injEq] at h hn
  simp only [State.calls, makeControl, Calls.mk.injEq, true_and, and_true]
  refine ⟨?_, ?_, h.2.2.2.2.2.1, ?_⟩
  · exact Function.comp_update (fun c : Control => c.call.requestId) s.control s.fresh _
  · exact Function.comp_update (fun c : Control => c.key) s.control s.fresh _
  · exact h.2.2.2.2.2.2.1.trans hn.symm

private theorem calls_step {s s' : State} (hc : Calls.Custody s.calls) (hs : Step s s') :
    s'.calls = s.calls ∨ Calls.Step s.calls s'.calls := by
  have sub {t : ThreadId} {h : Handle} (ho : s.op t = .submitting h) : s.calls.submitter t = some h := by
    simp [State.calls, ho, Op.submits]
  have run {w : Nat} {h : Handle} (hw : s.worker w = .running h) : s.calls.runner w = some h := by
    simp [State.calls, hw, WorkerPc.runs]
  have at_ {h : Handle} {p : CallPc} (hp : s.pc h = p) : s.calls.pc h = p := hp
  -- What a thread does outside `submit` is not seen.
  have quiet {t : ThreadId} {o o' : Op} (r : State) (hr : r.calls = s.calls) (ho : r.op t = o)
      (h₁ : o'.submits = o.submits) (h₂ : o'.notifies = o.notifies) : (r.setOp t o').calls = s.calls :=
    (calls_setOp_of_eq r (by rw [ho, h₁]) (by rw [ho, h₂])).trans hr
  cases hs with
  | submitCall t call key ho hm hk =>
    rw [create_calls ho]
    exact .inr (.create t _ _ (by simp [State.calls, ho, Op.submits]) hk)
  | cancelCall t id ho => exact .inl (quiet s rfl ho rfl rfl)
  | requestStopCall t ho => exact .inl (quiet s rfl ho rfl rfl)
  | shutdownCall t ho => exact .inl (quiet s rfl ho rfl rfl)
  | refuse t h status statistics ho hp =>
    right
    rw [refusal_calls (s := { s with statistics }) ho]
    exact .refuse t h _ (sub ho) (by simp [at_ hp, CallPc.InFlight]) (.inl rfl)
  | admission t h ho hp ha hk hl => exact .inr (.admission t h (sub ho) hk hl)
  | startCoroutine t h ho hp =>
    exact .inr (.start t h _ (sub ho) (by simp [at_ hp, CallPc.InFlight]) (.inl rfl))
  | frameFailure t h ho hp =>
    exact .inr (.start t h _ (sub ho) (by simp [at_ hp, CallPc.InFlight]) (.inr rfl))
  | enqueue t h ho hp =>
    right
    simp only [enqueue, calls_setOp]
    exact .enqueue t h (sub ho) (by simp [at_ hp, CallPc.InFlight])
  | unwind t h ho hp => exact .inr (.unwind t h (sub ho) (by simp [at_ hp, CallPc.InFlight]))
  | unwound t h ho hp =>
    right
    have ho' : s.notifyAllDone.op t = .submitting h := by simp [State.notifyAllDone, ho, Op.wake]
    rw [refusal_calls ho', calls_notifyAllDone]
    exact .refuse t h _ (sub ho) (by simp [at_ hp, CallPc.InFlight]) (.inr rfl)
  | wakeOne t h w ho hw =>
    right
    rw [accepted_calls (s := s.setWorker w .looping) ho, calls_setWorker,
      Function.update_eq_self_iff.2 (by simp [State.calls, hw, WorkerPc.runs])]
    exact .notified t
  | wakeNone t h ho hw =>
    rw [accepted_calls ho]
    exact .inr (.notified t)
  | cancelHit t id key h ho hk hl =>
    exact .inl (quiet (s.mark [h]) (calls_mark ..) ho rfl rfl)
  | cancelMiss t id ho => exact .inl (quiet s rfl ho rfl rfl)
  | requestStop t ho =>
    left
    show (({ s with accepting := false }.mark (s.inFlight.map Prod.snd)).setOp t (.stopping _)).calls = _
    exact quiet _ (calls_mark ..) ho rfl rfl
  | stopFirst t pending ho =>
    cases pending with
    | nil => exact .inl (quiet s rfl ho rfl rfl)
    | cons h rest => exact .inl (quiet _ (calls_stopRequested s h) ho rfl rfl)
  | workerShutdown w ho => exact .inl (quiet { s with accepting := false } rfl ho rfl rfl)
  | lockShutdown c ho => exact .inl (quiet { s with shutdownMutex := some (.client c) } rfl ho rfl rfl)
  | alreadyJoined t ho => exact .inl (quiet { s.log .closed with shutdownMutex := none } rfl ho rfl rfl)
  | drain t ho =>
    refine .inl (calls_drainWait (s := { s with accepting := false }.log .closed) ?_ ?_)
    all_goals simp [State.log, ho, Op.submits, Op.notifies]
  | recheck t ho => exact .inl (calls_drainWait (by simp [ho, Op.submits]) (by simp [ho, Op.notifies]))
  | notifyStop t ho => exact .inl (quiet s.notifyAllReady (calls_notifyAllReady s) ho rfl rfl)
  | joinNext t k ho => exact .inl (quiet s rfl ho rfl rfl)
  | joinedAll t k ho => exact .inl (quiet { s with joined := true, shutdownMutex := none } rfl ho rfl rfl)
  | workerExit w hw =>
    left
    rw [calls_setWorker, Function.update_eq_self_iff.2 (by simp [State.calls, hw, WorkerPc.runs])]
  | workerWait w hw =>
    left
    rw [calls_setWorker, Function.update_eq_self_iff.2 (by simp [State.calls, hw, WorkerPc.runs])]
  | dequeue w h rest hw hr =>
    right
    simp only [calls_setWorker]
    exact .dequeue w h rest (by simp [State.calls, hw, WorkerPc.runs]) hr
  | move w h p e hw hm =>
    exact .inr (.move w h p (run hw) hm.running.1.2 hm.running.2)
  | finish w h haveResult timedOut result hw hp =>
    rw [finish_eq hc hp]
    exact .inr (.finish w h _ result (run hw) (by simp [at_ hp, CallPc.InFlight]))
  | suppress w h result hw hp =>
    right
    simp only [calls_setWorker, calls_setPc, calls_notifyAllDone]
    exact .leave w h (run hw) (by simp [at_ hp, CallPc.InFlight])
  | complete w h result hw hp =>
    right
    simp only [calls_log, calls_setPc, calls_notifyAllDone]
    exact .complete w h result (run hw) (by simp [at_ hp, CallPc.InFlight])
  | completed w h result hw hp ho =>
    right
    simp only [calls_log, calls_setWorker, calls_setPc]
    exact .leave w h (run hw) (by simp [at_ hp, CallPc.InFlight])
  | wakeWorker w =>
    left
    rw [calls_setWorker, Function.update_eq_self_iff.2 (by simp [State.calls])]
  | wakeThread t => exact .inl (quiet s rfl rfl (submits_wake _) (notifies_wake _))
  | tick => exact .inl rfl

/-- The scheduler hands its calls on as `Calls` does. -/
theorem projection (b : ResourceBudget) : (system b).Projection Calls.system State.calls where
  init s hs := by
    obtain rfl : s = initial b := hs
    refine ⟨fun _ => rfl, fun _ => rfl, fun _ => rfl, fun w => ?_, rfl, rfl⟩
    simp only [State.calls, initial]
    split <;> rfl
  step s s' _ hc := fun ⟨_, h⟩ => calls_step (Calls.custody_of_reachable hc) (step_sound h)

theorem custody {b : ResourceBudget} {s : State} (hs : (system b).Reachable s) : Calls.Custody s.calls :=
  Calls.custody_of_reachable ((projection b).reachable hs)

end NativeMcp.Scheduler
