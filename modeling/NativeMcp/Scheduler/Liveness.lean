import NativeMcp.Lib.Fairness
import NativeMcp.Scheduler.Progress

/-!
# Every accepted call is finished

Along a fair run in which executors and completion callbacks return, a call that a worker runs reaches its end
(`running_leadsTo_done`), the head of the ready queue is taken (by an awake worker, or by the one that a thread in
`enqueue` is about to wake), so that a queued call moves up until a worker runs it (`queued_leadsTo_running`), and so
every call that has been handed to the workers is finished (`enqueued_leadsTo_done`).
-/

namespace NativeMcp.Scheduler

open Function (update)

/-- How far a call on a worker is from its end. -/
def CallPc.remaining : CallPc → Nat
  | resumed => 7
  | checkingDeadline => 6
  | executing => 5
  | executed _ => 4
  | recheckingDeadline _ => 3
  | finishing .. => 2
  | notifying .. => 1
  | _ => 0

/-- The call is inside code that the scheduler does not control. -/
def CallPc.Outside : CallPc → Prop
  | executing | completing _ => True
  | _ => False

/-- Every worker and every thread inside the scheduler that can go on does so, and executors and completion callbacks
return. -/
structure FairRun (b : ResourceBudget) extends Machine.Run (machine b) where
  worker : ∀ w, toRun.Fair fun a => ∃ outcome, a = .worker w outcome
  thread : ∀ t, toRun.Fair fun a => ∃ frame wake, a = .thread t frame wake
  returns : ∀ n h, ((state n).pc h).Outside → ∃ m, n ≤ m ∧ (state m).pc h ≠ (state n).pc h

/-! ### The coroutine on a worker -/

/-- The worker has brought its call closer to the end, or has finished it. -/
def Advanced (s s' : State) (w : Nat) (h : Handle) : Prop :=
  s'.worker w = .running h ∧ (s'.pc h).remaining < (s.pc h).remaining ∨ s'.worker w = .looping ∧ s'.pc h = .done

section Coroutine

variable {s s' : State} {w : Nat} {h : Handle}

private theorem advanced_setPc {p : CallPc} (hw : s.worker w = .running h) {r : State} (hr : r.worker = s.worker)
    (hp : p.remaining < (s.pc h).remaining) : Advanced s (r.setPc h p) w h := by
  refine .inl ⟨by rw [← hw, ← hr]; rfl, ?_⟩
  simpa [State.setPc] using hp

private theorem advanced_done (r : State) : Advanced s ((r.setPc h .done).setWorker w .looping) w h :=
  .inr ⟨Function.update_self .., Function.update_self ..⟩

private theorem Move.remaining {q p : CallPc} {e : Option Event} (hm : Move s h q p e) :
    p.remaining < q.remaining := by
  cases hm <;> simp [CallPc.remaining]

/-- A step of the worker advances its call. -/
private theorem coroutineStep_advances (hc : Calls.Custody s.calls) {outcome : ExecutorOutcome}
    (hw : s.worker w = .running h) (hs : coroutineStep s w h outcome = some s') : Advanced s s' w h := by
  unfold coroutineStep at hs
  split at hs
  · rename_i hp
    cases hs
    refine advanced_setPc hw rfl ?_
    split <;> simp [hp, CallPc.remaining]
  · rename_i hp
    cases hs
    split
    · exact advanced_setPc hw rfl (by simp [hp, CallPc.remaining])
    · exact advanced_setPc hw rfl (by simp [hp, CallPc.remaining])
  · rename_i hp
    split at hs
    · cases hs; exact advanced_setPc hw rfl (by simp [hp, CallPc.remaining])
    · cases hs
  · rename_i hp
    cases hs
    refine advanced_setPc hw rfl ?_
    split <;> simp [hp, CallPc.remaining]
  · rename_i hp
    cases hs
    split
    · exact advanced_setPc hw rfl (by simp [hp, CallPc.remaining])
    · exact advanced_setPc hw rfl (by simp [hp, CallPc.remaining])
  · rename_i hp
    cases hs
    rw [finish_eq hc hp]
    exact advanced_setPc hw rfl (by simp [hp, CallPc.remaining])
  · rename_i send result hp
    cases hs
    cases send with
    | true => exact advanced_setPc (r := s.notifyAllDone) hw rfl (by simp [hp, CallPc.remaining])
    | false => exact advanced_done s.notifyAllDone
  · split at hs
    · cases hs; exact advanced_done s
    · cases hs
  · cases hs

private theorem pc_setPc_ne {k : Handle} {p : CallPc} (hk : k ≠ h) : (s.setPc k p).pc h = s.pc h :=
  Function.update_of_ne hk.symm ..

private theorem worker_setWorker_ne {v : Nat} {p : WorkerPc} (hv : v ≠ w) : (s.setWorker v p).worker w = s.worker w :=
  Function.update_of_ne hv.symm ..

/-- No other step touches the worker or its call. -/
private theorem step_running (hc : Calls.Custody s.calls) (hw : s.worker w = .running h) (hs : Step s s') :
    s'.worker w = .running h ∧ s'.pc h = s.pc h ∨ Advanced s s' w h := by
  have hp : (s.pc h).OnWorker := hc.of_runner (w := w) (by simp [State.calls, hw, WorkerPc.runs])
  have apart {t : ThreadId} {k : Handle} (ho : s.op t = .submitting k) : k ≠ h := by
    rintro rfl
    exact hp.not_inSubmit (hc.of_submitter (t := t) (by simp [State.calls, ho, Op.submits]))
  have other {v : Nat} (hv : s.worker v ≠ .running h) : v ≠ w := by
    rintro rfl
    exact hv hw
  -- The worker of a call is unique, so a step of another worker is about another call.
  have same {v : Nat} {k : Handle} (hv : s.worker v = .running k) : v = w ∧ k = h ∨ v ≠ w ∧ k ≠ h := by
    by_cases e : v = w
    · subst e
      rw [hw] at hv
      exact .inl ⟨rfl, (WorkerPc.running.inj hv).symm⟩
    · refine .inr ⟨e, ?_⟩
      rintro rfl
      exact e (hc.runners.unique (a := k) (by simp [State.calls, hv, WorkerPc.runs])
        (by simp [State.calls, hw, WorkerPc.runs]))
  cases hs with
  | submitCall t call key =>
    have hne : h ≠ s.fresh := hc.fresh_ne hp.enqueued.ne_absent
    exact .inl ⟨hw, Function.update_of_ne hne ..⟩
  | refuse t k status statistics ho => exact .inl ⟨hw, pc_setPc_ne (apart ho)⟩
  | admission t k ho => exact .inl ⟨hw, pc_setPc_ne (apart ho)⟩
  | startCoroutine t k ho => exact .inl ⟨hw, pc_setPc_ne (apart ho)⟩
  | frameFailure t k ho => exact .inl ⟨hw, pc_setPc_ne (apart ho)⟩
  | enqueue t k ho => exact .inl ⟨hw, pc_setPc_ne (apart ho)⟩
  | unwind t k ho => exact .inl ⟨hw, pc_setPc_ne (apart ho)⟩
  | unwound t k ho => exact .inl ⟨hw, pc_setPc_ne (apart ho)⟩
  | wakeOne t k v ho hv => exact .inl ⟨(worker_setWorker_ne (other (by rw [hv]; exact WorkerPc.noConfusion))).trans hw, rfl⟩
  | stopFirst t pending => cases pending <;> exact .inl ⟨hw, rfl⟩
  | drain t => unfold drainWait; split <;> exact .inl ⟨hw, rfl⟩
  | recheck t => unfold drainWait; split <;> exact .inl ⟨hw, rfl⟩
  | notifyStop t => exact .inl ⟨show (s.worker w).wake = _ by rw [hw]; rfl, rfl⟩
  | workerExit v hv =>
    exact .inl ⟨(worker_setWorker_ne (other (by rw [hv]; exact WorkerPc.noConfusion))).trans hw, rfl⟩
  | workerWait v hv =>
    exact .inl ⟨(worker_setWorker_ne (other (by rw [hv]; exact WorkerPc.noConfusion))).trans hw, rfl⟩
  | dequeue v k rest hv hr =>
    have hk : k ≠ h := by
      rintro rfl
      exact hp.not_isQueued (by rw [hc.eq_queued hr]; trivial)
    exact .inl ⟨(worker_setWorker_ne (other (by rw [hv]; exact WorkerPc.noConfusion))).trans hw, pc_setPc_ne hk⟩
  | move v k p e hv hm =>
    rcases same hv with ⟨rfl, rfl⟩ | ⟨-, hk⟩
    · exact .inr (advanced_setPc (s := s) hw rfl hm.remaining)
    · exact .inl ⟨hw, pc_setPc_ne hk⟩
  | finish v k haveResult timedOut result hv hq =>
    rw [finish_eq hc hq]
    rcases same hv with ⟨rfl, rfl⟩ | ⟨-, hk⟩
    · exact .inr (advanced_setPc (s := s) hw rfl (by simp [hq, CallPc.remaining]))
    · exact .inl ⟨hw, pc_setPc_ne hk⟩
  | suppress v k result hv hq =>
    rcases same hv with ⟨rfl, rfl⟩ | ⟨hv', hk⟩
    · exact .inr (advanced_done s.notifyAllDone)
    · exact .inl ⟨(worker_setWorker_ne hv').trans hw, pc_setPc_ne hk⟩
  | complete v k result hv hq =>
    rcases same hv with ⟨rfl, rfl⟩ | ⟨-, hk⟩
    · exact .inr (advanced_setPc (r := s.notifyAllDone) hw rfl (by simp [hq, CallPc.remaining]))
    · exact .inl ⟨hw, pc_setPc_ne hk⟩
  | completed v k result hv hq ho =>
    rcases same hv with ⟨rfl, rfl⟩ | ⟨hv', hk⟩
    · exact .inr (advanced_done s)
    · exact .inl ⟨(worker_setWorker_ne hv').trans hw, pc_setPc_ne hk⟩
  | wakeWorker v =>
    left
    by_cases e : v = w
    · subst e
      exact ⟨by simp [State.setWorker, hw, WorkerPc.wake], rfl⟩
    · exact ⟨(worker_setWorker_ne e).trans hw, rfl⟩
  | _ => exact .inl ⟨hw, rfl⟩

end Coroutine

section Queue

variable {s s' : State} {w : Nat} {h : Handle}

/-- The call has been taken from the queue, or has moved up. -/
def Served (s s' : State) (h : Handle) : Prop :=
  (∃ w, s'.worker w = .running h) ∨ h ∈ s'.ready ∧ s'.ready.idxOf h < s.ready.idxOf h

private theorem served_of_take {x : Handle} {rest : List Handle} (hr : s.ready = x :: rest) (hm : h ∈ s.ready)
    (hw : s'.worker w = .running x) (hr' : s'.ready = rest) : Served s s' h := by
  by_cases e : x = h
  · exact .inl ⟨w, e ▸ hw⟩
  · have hm : h ∈ rest := by
      rw [hr] at hm
      exact (List.mem_cons.1 hm).resolve_left (Ne.symm e)
    refine .inr ⟨hr' ▸ hm, ?_⟩
    rw [hr, hr', List.idxOf_cons_ne _ e]
    exact Nat.lt_succ_self _

/-- A queued call keeps its place until it is served. -/
private theorem step_queued (hs : Step s s') (hm : h ∈ s.ready) :
    h ∈ s'.ready ∧ s'.ready.idxOf h = s.ready.idxOf h ∨ Served s s' h := by
  cases hs with
  | enqueue t k => exact .inl ⟨List.mem_append_left _ hm, List.idxOf_append_of_mem hm⟩
  | dequeue w x rest hw hr => exact .inr (served_of_take hr hm (Function.update_self ..) rfl)
  | stopFirst t pending => cases pending <;> exact .inl ⟨hm, rfl⟩
  | drain t => unfold drainWait; split <;> exact .inl ⟨hm, rfl⟩
  | recheck t => unfold drainWait; split <;> exact .inl ⟨hm, rfl⟩
  | finish w k haveResult timedOut result =>
    unfold finish
    split <;> exact .inl ⟨hm, rfl⟩
  | _ => exact .inl ⟨hm, rfl⟩

/-- A worker in its loop takes the head of a queue that is not empty. -/
private theorem dequeue_serves (hm : h ∈ s.ready) : Served s (dequeue s w) h := by
  unfold dequeue
  cases hr : s.ready with
  | nil => rw [hr] at hm; cases hm
  | cons x rest => exact served_of_take hr hm (w := w) (Function.update_self ..) rfl

/-- A worker in its loop stays there until it serves the queue. -/
private theorem step_looping (hs : Step s s') (hm : h ∈ s.ready) (hw : s.worker w = .looping) :
    s'.worker w = .looping ∨ Served s s' h := by
  have other {v : Nat} {p : WorkerPc} (r : State) (hr : r.worker = s.worker) (hv : v ≠ w) :
      (r.setWorker v p).worker w = .looping := by rw [worker_setWorker_ne hv, hr, hw]
  have loop {v : Nat} (r : State) (hr : r.worker = s.worker) : (r.setWorker v .looping).worker w = .looping := by
    by_cases e : v = w
    · exact e ▸ Function.update_self ..
    · exact other r hr e
  cases hs with
  | wakeOne t k v => exact .inl (loop s rfl)
  | stopFirst t pending => cases pending <;> exact .inl hw
  | drain t => unfold drainWait; split <;> exact .inl hw
  | recheck t => unfold drainWait; split <;> exact .inl hw
  | notifyStop t => exact .inl (show (s.worker w).wake = _ by rw [hw]; rfl)
  | workerExit v hv hr => rw [hr] at hm; cases hm
  | workerWait v hv hr => rw [hr] at hm; cases hm
  | dequeue v x rest hv hr =>
    by_cases e : v = w
    · exact .inr (served_of_take hr hm (Function.update_self ..) rfl)
    · exact .inl (other _ rfl e)
  | finish v k haveResult timedOut result =>
    unfold finish
    split <;> exact .inl hw
  | suppress v k => exact .inl (loop _ rfl)
  | completed v k => exact .inl (loop _ rfl)
  | wakeWorker v =>
    by_cases e : v = w
    · subst e
      exact .inl (by simp [State.setWorker, hw, WorkerPc.wake])
    · exact .inl (other s rfl e)
  | _ => exact .inl hw

namespace Closing

variable {c c' : Closing} {t : ThreadId}

def Awake (c : Closing) : Prop := ∃ w < c.pool, c.worker w ≠ .waiting ∧ c.worker w ≠ .exited

/-- A thread that is about to wake a worker stays there until a worker is awake. -/
private theorem Step.notifying (ho : Orderly c) (hs : Step c c') (hq : c'.queued)
    (ht : c.stage t = .notifyingReady) : c'.stage t = .notifyingReady ∨ c'.Awake := by
  have inPool {w : Nat} (hw : c.worker w ≠ .exited) : w < c.pool :=
    Nat.lt_of_not_le fun hle => hw (ho.beyond w hle)
  cases hs with
  | wakeOne u w hu hw => exact .inr ⟨w, inPool (by simp [hw]), by simp⟩
  | wakeNone u hu hw hb =>
    refine .inr ⟨0, ho.pool, hw 0 ho.pool, fun he => ?_⟩
    exact (ho.stopped (ho.exited 0 ho.pool he)).1 (hb hq)
  | _ => grind [Function.update_apply, MayDrain]

end Closing

private theorem op_of_notifyingReady {t : ThreadId} (ht : s.closing.stage t = .notifyingReady) :
    ∃ c, s.op t = .notifyingReady c := by
  have ht : (s.op t).stage = .notifyingReady := ht
  cases ho : s.op t <;> simp_all [Op.stage]

private theorem op_of_notifyOneReady {t : ThreadId} {c : Handle} {wake : Option Nat}
    (hs : notifyOneReady s t c wake = some s') : s'.op t = .idle := by
  unfold notifyOneReady at hs
  split at hs <;> split at hs <;> cases hs
  all_goals exact Function.update_self ..

end Queue

/-! ### Fair runs -/

section FairRun

open Machine.Run

variable {b : ResourceBudget} (r : FairRun b)

private theorem FairRun.reachable (n : Nat) : (system b).Reachable (r.state n) := r.toRun.reachable n

private theorem FairRun.step' (n : Nat) : Step (r.state n) (r.state (n + 1)) := step_sound (r.step n)

private theorem running_leadsTo (w : Nat) (h : Handle) (p : CallPc) :
    r.LeadsTo (fun s => s.worker w = .running h ∧ s.pc h = p)
      (fun s => s.worker w = .looping ∧ s.pc h = .done ∨ s.worker w = .running h ∧ (s.pc h).remaining < p.remaining) := by
  have hu : r.Unless (fun s => s.worker w = .running h ∧ s.pc h = p)
      (fun s => s.worker w = .looping ∧ s.pc h = .done ∨ s.worker w = .running h ∧ (s.pc h).remaining < p.remaining) := by
    rintro n ⟨hw, rfl⟩
    rcases step_running (custody (r.reachable n)) hw (r.step' n) with h | h | h
    · exact .inl h
    · exact .inr (.inr h)
    · exact .inr (.inl h)
  by_cases hp : p.Outside
  · refine .of_escape hu ?_
    rintro n ⟨-, rfl⟩
    obtain ⟨m, hm, hne⟩ := r.returns n h hp
    exact ⟨m, hm, fun hs => hne hs.2⟩
  · refine .of_fair (r.worker w) hu ?_ ?_
    · rintro n ⟨hw, rfl⟩
      have hon : ((r.state n).pc h).OnWorker :=
        (custody (r.reachable n)).of_runner (w := w) (by simp [State.calls, hw, WorkerPc.runs])
      refine ⟨_, ⟨.exception, rfl⟩, ?_⟩
      simp only [machine, step, workerStep, hw, coroutineStep]
      cases hq : (r.state n).pc h <;> simp_all [CallPc.OnWorker, CallPc.Outside]
    · rintro n ⟨hw, rfl⟩ ⟨outcome, ha⟩
      have hs := r.step n
      rw [ha] at hs
      simp only [machine, step, workerStep, hw] at hs
      rcases coroutineStep_advances (custody (r.reachable n)) hw hs with h | h
      · exact .inr h
      · exact .inl h

/-- A call on a worker is finished, and its worker goes on. -/
theorem running_leadsTo_done (w : Nat) (h : Handle) :
    r.LeadsTo (fun s => s.worker w = .running h) (fun s => s.worker w = .looping ∧ s.pc h = .done) := by
  refine .of_rank (fun s => (s.pc h).remaining) fun k n hn => ?_
  obtain ⟨hw, rfl⟩ := hn
  exact running_leadsTo r w h _ n ⟨hw, rfl⟩

/-- The call is in the queue behind `k` others. -/
private def Behind (h : Handle) (k : Nat) (s : State) : Prop := h ∈ s.ready ∧ s.ready.idxOf h = k

/-- A worker runs the call, or it has moved up. -/
private def MovedUp (h : Handle) (k : Nat) (s : State) : Prop :=
  (∃ w, s.worker w = .running h) ∨ h ∈ s.ready ∧ s.ready.idxOf h < k

private theorem behind_unless (h : Handle) (k : Nat) : r.Unless (Behind h k) (MovedUp h k) := by
  rintro n ⟨hm, rfl⟩
  exact step_queued (r.step' n) hm

private theorem behind_looping (h : Handle) (k w : Nat) :
    r.LeadsTo (fun s => Behind h k s ∧ s.worker w = .looping) (MovedUp h k) := by
  refine .of_fair (r.worker w) ?_ ?_ ?_
  · rintro n ⟨⟨hm, rfl⟩, hw⟩
    rcases step_queued (r.step' n) hm with hb | hb
    · rcases step_looping (r.step' n) hm hw with hw | hb'
      · exact .inl ⟨hb, hw⟩
      · exact .inr hb'
    · exact .inr hb
  · rintro n ⟨-, hw⟩
    exact ⟨_, ⟨.exception, rfl⟩, by simp [machine, step, workerStep, hw]⟩
  · rintro n ⟨⟨hm, rfl⟩, hw⟩ ⟨outcome, ha⟩
    have hs := r.step n
    rw [ha] at hs
    simp only [machine, step, workerStep, hw, Option.some.injEq] at hs
    rw [← hs]
    exact dequeue_serves hm

private theorem behind_awake (h : Handle) (k : Nat) :
    r.LeadsTo (fun s => Behind h k s ∧ s.closing.Awake) (MovedUp h k) := by
  rintro n ⟨hb, w, -, hn, he⟩
  cases hw : (r.state n).worker w with
  | waiting => exact absurd hw hn
  | exited => exact absurd hw he
  | looping => exact behind_looping r h k w n ⟨hb, hw⟩
  | running c =>
    have hl := (running_leadsTo_done r w c).within (behind_unless r h k)
    refine (hl.trans (.or (.of_imp fun _ h => h) ?_)) n ⟨hb, hw⟩
    exact fun m ⟨hb, hw, _⟩ => behind_looping r h k w m ⟨hb, hw⟩

private theorem behind_notifying (h : Handle) (k : Nat) (t : ThreadId) :
    r.LeadsTo (fun s => Behind h k s ∧ s.closing.stage t = .notifyingReady)
      (fun s => MovedUp h k s ∨ Behind h k s ∧ s.closing.Awake) := by
  have next (n : Nat) (hb : Behind h k (r.state n)) (ht : (r.state n).closing.stage t = .notifyingReady) :
      (Behind h k (r.state (n + 1)) ∧ (r.state (n + 1)).closing.stage t = .notifyingReady) ∨
        MovedUp h k (r.state (n + 1)) ∨ Behind h k (r.state (n + 1)) ∧ (r.state (n + 1)).closing.Awake := by
    have ho := orderly (r.reachable n)
    rcases behind_unless r h k n hb with hb | hb
    · rcases closing_step (custody (r.reachable n)) ho (r.step' n) with e | hs
      · exact .inl ⟨hb, e ▸ ht⟩
      · rcases hs.notifying ho (List.ne_nil_of_mem hb.1) ht with ht | ha
        · exact .inl ⟨hb, ht⟩
        · exact .inr (.inr ⟨hb, ha⟩)
    · exact .inr (.inl hb)
  refine .of_fair (r.thread t) (fun n ⟨hb, ht⟩ => next n hb ht) ?_ ?_
  · rintro n ⟨-, ht⟩
    obtain ⟨c, ho⟩ := op_of_notifyingReady ht
    obtain ⟨wake, hw⟩ := notifyOneReady_isSome (r.state n) t c
    exact ⟨_, ⟨true, wake, rfl⟩, by simpa [machine, step, threadStep, ho] using hw⟩
  · rintro n ⟨hb, ht⟩ ⟨frame, wake, ha⟩
    refine (next n hb ht).resolve_left fun h => ?_
    obtain ⟨c, ho⟩ := op_of_notifyingReady ht
    have hs := r.step n
    rw [ha] at hs
    simp only [machine, step, threadStep, ho] at hs
    have hi := op_of_notifyOneReady hs
    have ht : ((r.state (n + 1)).op t).stage = .notifyingReady := h.2
    rw [hi] at ht
    cases ht

/-- A queued call moves up until a worker runs it. -/
theorem queued_leadsTo_running (h : Handle) :
    r.LeadsTo (fun s => h ∈ s.ready) (fun s => ∃ w, s.worker w = .running h) := by
  refine .of_rank (fun s => s.ready.idxOf h) fun k n hn => ?_
  rcases (orderly (r.reachable n)).readyWoken (List.ne_nil_of_mem hn.1) with ha | ⟨t, ht⟩
  · exact behind_awake r h k n ⟨hn, ha⟩
  · exact (behind_notifying r h k t).trans (.or (.of_imp fun _ h => h) (behind_awake r h k)) n ⟨hn, ht⟩

/-- Every call that has been handed to the workers is finished. -/
theorem enqueued_leadsTo_done (h : Handle) :
    r.LeadsTo (fun s => (s.pc h).Enqueued) (fun s => s.pc h = .done) := by
  have finished : r.LeadsTo (fun s => ∃ w, s.worker w = .running h) (fun s => s.pc h = .done) := by
    rintro n ⟨w, hw⟩
    obtain ⟨m, hm, -, hd⟩ := running_leadsTo_done r w h n hw
    exact ⟨m, hm, hd⟩
  intro n hn
  have hc := custody (r.reachable n)
  by_cases hq : ((r.state n).pc h).IsQueued
  · exact (queued_leadsTo_running r h).trans finished n ((hc.queue.mem h).2 hq)
  · by_cases hw : ((r.state n).pc h).OnWorker
    · obtain ⟨w, hw⟩ := (hc.runners.mem h).1 hw
      refine finished n ⟨w, ?_⟩
      cases e : (r.state n).worker w <;> simp_all [State.calls, WorkerPc.runs]
    · refine ⟨n, Nat.le_refl n, ?_⟩
      cases e : (r.state n).pc h <;> simp_all [CallPc.Enqueued, CallPc.IsQueued, CallPc.OnWorker]

end FairRun

end NativeMcp.Scheduler
