import NativeMcp.Scheduler.Liveness

/-!
# What the scheduler guarantees

Every accepted call is finished once and answered once unless it was marked first (`completes_exactly_once`), and
`shutdown` closes the gate, returns only when everything has ended, and never deadlocks (`shutdown_sound`).
-/

namespace NativeMcp.Scheduler

section

variable {b : ResourceBudget} {s : State}

theorem finishes_eq (hs : (system b).Reachable s) (h : Handle) :
    finishes h s.history = Life.count (s.pc h).phase :=
  finishes_filter.symm.trans (account hs h).counted

theorem completionIds_eq (hs : (system b).Reachable s) (h : Handle) :
    completionIds h s.history = (s.life h).answers := completionIds_filter.symm.trans (account hs h).answered

theorem markedBeforeFinish_iff (hs : (system b).Reachable s) {h : Handle} (hp : (s.pc h).phase.Finished) :
    MarkedBeforeFinish h s.history ↔ (s.control h).cancelledByClient = true :=
  markedBeforeFinish_filter.symm.trans ((account hs h).before hp)

theorem enqueued_of_accepted (hs : (system b).Reachable s) {h : Handle}
    (ha : .submitReturned h .accepted ∈ s.history) : (s.pc h).Enqueued :=
  enqueued_phase.1 ((account hs h).accepted ((mem_life rfl).2 ha))

end

/-! ### Exactly once -/

/-- The call passed through `finish` once, and it was answered with its own id unless it was marked before that. -/
structure ExactlyOnce (s : State) (h : Handle) : Prop where
  finished : finishes h s.history = 1
  answered : ¬ MarkedBeforeFinish h s.history → completionIds h s.history = [(s.control h).call.requestId]
  suppressed : MarkedBeforeFinish h s.history → completionIds h s.history = []

section

variable {b : ResourceBudget} {s : State}

theorem exactlyOnce_of_done (hs : (system b).Reachable s) {h : Handle} (hp : s.pc h = .done) :
    ExactlyOnce s h := by
  have hf : (s.pc h).phase.Finished := by rw [hp]; trivial
  have hc : completionIds h s.history =
      if (s.control h).cancelledByClient then [] else [(s.control h).call.requestId] := by
    rw [completionIds_eq hs, Life.answers, show (s.life h).phase = .settled from congrArg CallPc.phase hp]
    rfl
  refine ⟨by rw [finishes_eq hs, hp]; rfl, fun hm => ?_, fun hm => ?_⟩
  · rw [hc, if_neg (fun h => hm ((markedBeforeFinish_iff hs hf).2 h))]
  · rw [hc, if_pos ((markedBeforeFinish_iff hs hf).1 hm)]

/-- Before its end a call has been answered at most once, with its own id, after `finish`, and only if unmarked. -/
theorem atMostOnce (hs : (system b).Reachable s) (h : Handle) :
    finishes h s.history ≤ 1 ∧
      (completionIds h s.history = [] ∨
        completionIds h s.history = [(s.control h).call.requestId] ∧ finishes h s.history = 1 ∧
          ¬ MarkedBeforeFinish h s.history) := by
  have hf := finishes_eq hs h
  have ha := completionIds_eq hs h
  have hd := (account hs h).decided
  refine ⟨by rw [hf]; cases (s.pc h).phase <;> simp [Life.count], ?_⟩
  cases hp : s.pc h with
  | completing result =>
    refine .inr ⟨by rw [ha, Life.answers, show (s.life h).phase = _ from congrArg CallPc.phase hp]; rfl,
      by rw [hf, hp]; rfl, fun hm => ?_⟩
    have hm := (markedBeforeFinish_iff hs (h := h) (by rw [hp]; trivial)).1 hm
    unfold Life.Decided at hd
    rw [show (s.life h).phase = _ from congrArg CallPc.phase hp] at hd
    exact Bool.noConfusion (hm.symm.trans hd)
  | done =>
    have hx := exactlyOnce_of_done hs hp
    by_cases hm : MarkedBeforeFinish h s.history
    · exact .inl (hx.suppressed hm)
    · exact .inr ⟨hx.answered hm, hx.finished, hm⟩
  | _ =>
    left
    rw [ha, Life.answers, show (s.life h).phase = _ from congrArg CallPc.phase hp]
    rfl

theorem done_of_atRest (hs : (system b).Reachable s) (hr : ¬ s.Enabled) {h : Handle}
    (hp : (s.pc h).Enqueued) : s.pc h = .done := by
  obtain ⟨-, h₂, h₃⟩ := atRest_calls (custody hs) (orderly hs) hr h
  cases e : s.pc h <;> simp_all [CallPc.Enqueued, CallPc.IsQueued, CallPc.OnWorker]

private theorem done_forever (r : FairRun b) {h : Handle} {n k : Nat} (hd : (r.state n).pc h = .done)
    (hk : n ≤ k) : (r.state k).pc h = .done := by
  have settled {p : CallPc} : p.phase = .settled ↔ p = .done := by cases p <;> simp [CallPc.phase]
  induction hk with
  | refl => exact hd
  | @step k _ ih =>
    have hl := (Life.projection b h).step _ _ (r.toRun.reachable k)
      ((Life.projection b h).reachable (r.toRun.reachable k)) ⟨_, r.step k⟩
    refine settled.1 ?_
    rcases hl with e | hl
    · exact (congrArg Life.phase e).trans (settled.2 ih)
    · exact hl.settled (settled.2 ih)

/-- In a fair run an accepted call ends. -/
theorem eventually_done (r : FairRun b) {h : Handle} {n : Nat}
    (ha : .submitReturned h .accepted ∈ (r.state n).history) : ∃ m, n ≤ m ∧ ∀ k, m ≤ k → (r.state k).pc h = .done := by
  have hp : ((r.state n).pc h).Enqueued := enqueued_of_accepted (r.toRun.reachable n) ha
  obtain ⟨m, hm, hd⟩ := enqueued_leadsTo_done r h n hp
  exact ⟨m, hm, fun k hk => done_forever r hd hk⟩

/-- An accepted call is finished at most once and answered at most once, and it has been finished exactly once, and
answered exactly once unless it was marked, when the scheduler comes to rest and in every fair run.  A call that was
not accepted is never run, finished or answered. -/
theorem completes_exactly_once (hs : (system b).Reachable s) (h : Handle) :
    (.submitReturned h .accepted ∈ s.history →
      finishes h s.history ≤ 1 ∧
      (completionIds h s.history = [] ∨
        completionIds h s.history = [(s.control h).call.requestId] ∧ finishes h s.history = 1 ∧
          ¬ MarkedBeforeFinish h s.history) ∧
      (¬ s.Enabled → ExactlyOnce s h)) ∧
    (∀ r : FairRun b, ∀ n, .submitReturned h .accepted ∈ (r.state n).history →
      ∃ m, n ≤ m ∧ ∀ k, m ≤ k → ExactlyOnce (r.state k) h) ∧
    (∀ status, status ≠ .accepted → .submitReturned h status ∈ s.history →
      .executorStarted h ∉ s.history ∧ finishes h s.history = 0 ∧ completionIds h s.history = []) := by
  refine ⟨fun ha => ⟨(atMostOnce hs h).1, (atMostOnce hs h).2, fun hr => ?_⟩, fun r n ha => ?_,
    fun status hn hm => ?_⟩
  · exact exactlyOnce_of_done hs (done_of_atRest hs hr (enqueued_of_accepted hs ha))
  · obtain ⟨m, hm, hd⟩ := eventually_done r ha
    exact ⟨m, hm, fun k hk => exactlyOnce_of_done (r.toRun.reachable k) (hd k hk)⟩
  · have hp : (s.life h).phase = .refused := (account hs h).refused status hn ((mem_life rfl).2 hm)
    refine ⟨fun he => ?_, ?_, ?_⟩
    · exact (account hs h).unstarted (by rw [hp]; exact id) ((mem_life rfl).2 he)
    · rw [finishes_eq hs, show (s.pc h).phase = _ from hp]
      rfl
    · rw [completionIds_eq hs, Life.answers, hp]

/-- One client submits one call, a worker runs it and answers it, and both workers go to sleep. -/
private def answeredRun : List Action :=
  .invoke (.client 0) (.submit { requestId := .numberInteger 1, name := [], arguments := .object [] }) ::
    List.replicate 4 (.thread (.client 0) true none) ++ List.replicate 10 (.worker 0 (.returned deadlineError)) ++
    [.worker 1 .exception]

private def acceptedFirst : Event → Bool
  | .submitReturned 0 .accepted => true
  | _ => false

theorem answeredRun_completes_once :
    ∃ s, (system conservativeBudget).Reachable s ∧ .submitReturned 0 .accepted ∈ s.history ∧
      finishes 0 s.history ≤ 1 ∧ completionIds 0 s.history ≠ [] := by
  have hr : ((machine conservativeBudget).run (initial conservativeBudget) answeredRun).map
      (fun s => (s.history.any acceptedFirst, (completionIds 0 s.history).length)) = some (true, 1) := by
    decide +kernel
  obtain ⟨s, hs, he⟩ := Option.map_eq_some_iff.1 hr
  obtain ⟨ha, hl⟩ := Prod.mk.inj he
  obtain ⟨e, hm, he⟩ := List.any_eq_true.1 ha
  have ha : .submitReturned 0 .accepted ∈ s.history := by
    unfold acceptedFirst at he
    split at he
    · exact hm
    · cases he
  refine ⟨s, reachable_of_run hs, ha, ((completes_exactly_once (reachable_of_run hs) 0).1 ha).1, fun h => ?_⟩
  rw [h] at hl
  cases hl

end

/-! ### Shutdown -/

section

variable {b : ResourceBudget} {s s' : State}

/-- What holds when an event is recorded. -/
private structure Recorded (s s' : State) (e : Event) : Prop where
  admitted : ∀ h, e = .admitted h → s.accepting = true
  closed : e = .closed → s'.accepting = false
  returned : ∀ t, e = .shutdownReturned t → s'.joined = true
  invoked : ∀ h id result, e = .completionInvoked h id result → ∃ w, s.worker w = .running h

private theorem Move.recorded {h : Handle} {q p : CallPc} {e : Option Event} (hm : Move s h q p e) {ev : Event}
    (he : ev ∈ e.toList) : Recorded s s' ev := by
  cases hm <;> simp at he
  all_goals subst he; exact ⟨nofun, nofun, nofun, nofun⟩

private theorem step_recorded (ho : Closing.Orderly s.closing) (hs : Step s s') :
    ∃ es, s'.history = es ++ s.history ∧ ∀ e ∈ es, Recorded s s' e := by
  have one {e : Event} (h : Recorded s s' e) : ∀ e' ∈ [e], Recorded s s' e' := by
    intro e' he
    rw [List.mem_singleton.1 he]
    exact h
  cases hs with
  | refuse | unwind | unwound | wakeOne | wakeNone | cancelHit | completed =>
    exact ⟨[_], rfl, one ⟨nofun, nofun, nofun, nofun⟩⟩
  | admission t h _ _ ha => exact ⟨[_], rfl, one ⟨fun _ _ => ha, nofun, nofun, nofun⟩⟩
  | requestStop t =>
    refine ⟨.closed :: (s.inFlight.map Prod.snd).map .stopHit, rfl, fun e he => ?_⟩
    rcases List.mem_cons.1 he with rfl | he
    · exact ⟨nofun, fun _ => rfl, nofun, nofun⟩
    · obtain ⟨h, -, rfl⟩ := List.mem_map.1 he
      exact ⟨nofun, nofun, nofun, nofun⟩
  | stopFirst t pending => cases pending <;> exact ⟨[], rfl, nofun⟩
  | workerShutdown => exact ⟨[_], rfl, one ⟨nofun, fun _ => rfl, nofun, nofun⟩⟩
  | alreadyJoined t _ hj =>
    refine ⟨[.shutdownReturned t, .closed], rfl, fun e he => ?_⟩
    rcases List.mem_pair.1 he with rfl | rfl
    · exact ⟨nofun, nofun, fun _ _ => hj, nofun⟩
    · exact ⟨nofun, fun _ => (ho.stopped (ho.joined hj).1).2, nofun, nofun⟩
  | drain t =>
    unfold drainWait at one ⊢
    split <;> exact ⟨[.closed], rfl, fun e he => by
      rw [List.mem_singleton.1 he]
      exact ⟨nofun, fun _ => rfl, nofun, nofun⟩⟩
  | recheck t => unfold drainWait; split <;> exact ⟨[], rfl, nofun⟩
  | joinedAll t k => exact ⟨[_], rfl, one ⟨nofun, nofun, fun _ _ => rfl, nofun⟩⟩
  | move w h p e hw hm => exact ⟨e.toList, rfl, fun ev he => hm.recorded he⟩
  | finish w h haveResult timedOut result => 
    refine ⟨[.finished h], ?_, one ⟨nofun, nofun, nofun, nofun⟩⟩
    unfold finish
    split <;> rfl
  | complete w h result hw => exact ⟨[_], rfl, one ⟨nofun, nofun, nofun, fun _ _ _ e => by cases e; exact ⟨w, hw⟩⟩⟩
  | _ => exact ⟨[], rfl, nofun⟩

/-- The gate stays closed, and a stopped pool stays stopped. -/
private theorem step_latched (hs : Step s s') :
    (s.accepting = false → s'.accepting = false) ∧ (s.joined = true → s'.joined = true) := by
  cases hs with
  | requestStop | workerShutdown => exact ⟨fun _ => rfl, id⟩
  | stopFirst t pending => cases pending <;> exact ⟨id, id⟩
  | drain t => unfold drainWait; split <;> exact ⟨fun _ => rfl, id⟩
  | recheck t => unfold drainWait; split <;> exact ⟨id, id⟩
  | finish w h haveResult timedOut result => unfold finish; split <;> exact ⟨id, id⟩
  | joinedAll t k => exact ⟨id, fun _ => rfl⟩
  | _ => exact ⟨id, id⟩

private theorem closed_of_reachable (hs : (system b).Reachable s) :
    (.closed ∈ s.history → s.accepting = false) ∧ ∀ t, .shutdownReturned t ∈ s.history → s.joined = true := by
  refine invariant (I := fun s => (.closed ∈ s.history → s.accepting = false) ∧
    ∀ t, .shutdownReturned t ∈ s.history → s.joined = true) ⟨nofun, nofun⟩ (fun s s' hr hi hs => ?_) hs
  obtain ⟨es, he, hrec⟩ := step_recorded (orderly hr) hs
  obtain ⟨ha, hj⟩ := step_latched hs
  rw [he]
  refine ⟨fun hm => ?_, fun t hm => ?_⟩
  · rcases List.mem_append.1 hm with hm | hm
    · exact (hrec _ hm).closed rfl
    · exact ha (hi.1 hm)
  · rcases List.mem_append.1 hm with hm | hm
    · exact (hrec _ hm).returned t rfl
    · exact hj (hi.2 t hm)

/-- No call is admitted once the gate is closed. -/
private theorem admitted_before (hs : (system b).Reachable s) (ha : s.accepting = false)
    (hl : (system b).Later s s') (h : Handle) (hm : .admitted h ∈ s'.history) : .admitted h ∈ s.history := by
  have hp : s'.accepting = false ∧ (.admitted h ∈ s'.history → .admitted h ∈ s.history) := by
    refine TransitionSystem.Later.preserves (P := fun t => t.accepting = false ∧
      (.admitted h ∈ t.history → .admitted h ∈ s.history)) hl hs ⟨ha, id⟩ fun t t' ht hp ⟨_, hstep⟩ => ?_
    have hstep := step_sound hstep
    obtain ⟨es, he, hrec⟩ := step_recorded (orderly ht) hstep
    refine ⟨(step_latched hstep).1 hp.1, fun hm => ?_⟩
    rw [he] at hm
    rcases List.mem_append.1 hm with hm | hm
    · exact absurd ((hrec _ hm).admitted h rfl) (by rw [hp.1]; exact Bool.noConfusion)
    · exact hp.2 hm
  exact hp.2 hm

/-- No completion callback is invoked once the workers are gone. -/
private theorem invoked_before (hs : (system b).Reachable s) (hj : s.joined = true) (hl : (system b).Later s s')
    {h : Handle} {id : Json} {result : ToolExecutionResult} (hm : .completionInvoked h id result ∈ s'.history) :
    .completionInvoked h id result ∈ s.history := by
  have hp : s'.joined = true ∧ (.completionInvoked h id result ∈ s'.history →
      .completionInvoked h id result ∈ s.history) := by
    refine TransitionSystem.Later.preserves (P := fun t => t.joined = true ∧
      (.completionInvoked h id result ∈ t.history → .completionInvoked h id result ∈ s.history)) hl hs ⟨hj, fun h => h⟩
      fun t t' ht hp ⟨_, hstep⟩ => ?_
    have hstep := step_sound hstep
    obtain ⟨es, he, hrec⟩ := step_recorded (orderly ht) hstep
    refine ⟨(step_latched hstep).2 hp.1, fun hm => ?_⟩
    rw [he] at hm
    rcases List.mem_append.1 hm with hm | hm
    · obtain ⟨w, hw⟩ := (hrec _ hm).invoked h id result rfl
      have hx : t.worker w = .exited := ((orderly ht).joined hp.1).2 w
      rw [hw] at hx
      cases hx
    · exact hp.2 hm
  exact hp.2 hm

/-- A call that was queued has ended when the workers are gone. -/
theorem done_of_joined (hs : (system b).Reachable s) (hj : s.joined = true) {h : Handle} (hp : (s.pc h).Enqueued) :
    s.pc h = .done := by
  have ho := orderly hs
  have hf : s.inFlight = [] := not_not.1 (ho.stopped (ho.joined hj).1).1
  have hr : s.ready = [] := (custody hs).ready_eq_nil hf
  have hq : ¬ (s.pc h).IsQueued := by
    intro hq
    have hm := ((custody hs).queue.mem h).2 hq
    rw [show s.calls.ready = [] from hr] at hm
    cases hm
  have hw : ¬ (s.pc h).OnWorker := by
    intro hw
    obtain ⟨w, hw⟩ := ((custody hs).runners.mem h).1 hw
    have hx : s.worker w = .exited := ((orderly hs).joined hj).2 w
    simp [State.calls, hx, WorkerPc.runs] at hw
  cases e : s.pc h <;> simp_all [CallPc.Enqueued, CallPc.IsQueued, CallPc.OnWorker]

theorem joined_of_shutdownReturned (hs : (system b).Reachable s) {t : ThreadId}
    (hm : .shutdownReturned t ∈ s.history) : s.joined = true := (closed_of_reachable hs).2 t hm

/-- A callback that was invoked has returned when the workers are gone. -/
theorem callback_returned (hs : (system b).Reachable s) (hj : s.joined = true) {h : Handle} {id : Json}
    {result : ToolExecutionResult} (hm : .completionInvoked h id result ∈ s.history) :
    .completionReturned h ∈ s.history := by
  have ha := completionIds_eq hs h
  have hn : completionIds h s.history ≠ [] := by
    refine List.ne_nil_of_mem (a := id) (List.mem_filterMap.2 ⟨_, hm, ?_⟩)
    simp
  have hw : ¬ (s.pc h).OnWorker := by
    intro hp
    obtain ⟨w, hw⟩ := ((custody hs).runners.mem h).1 hp
    have hx : s.worker w = .exited := ((orderly hs).joined hj).2 w
    simp [State.calls, hx, WorkerPc.runs] at hw
  have hx := account hs h
  cases hp : s.pc h with
  | completing result => exact absurd (by rw [hp]; trivial) hw
  | done =>
    have hl : (s.life h).phase = .settled := congrArg CallPc.phase hp
    refine (mem_life rfl).1 (hx.returned hl ?_)
    rw [Life.answers, hl] at ha
    cases hc : (s.life h).cancelled with
    | false => rfl
    | true => simp [hc] at ha; exact absurd ha hn
  | _ =>
    rw [Life.answers, show (s.life h).phase = _ from congrArg CallPc.phase hp] at ha
    exact absurd ha hn

/-- Once `shutdown` or `request_stop` has closed the gate, only calls admitted before are ever accepted; when a
blocking `shutdown` has returned, nothing is in flight or queued, the workers are gone and every callback that will
ever run has returned; and while a call is unfinished or a blocking `shutdown` is in progress, some thread can take a
step. -/
theorem shutdown_sound (hs : (system b).Reachable s) :
    (.closed ∈ s.history → ∀ s', (system b).Later s s' → ∀ h, .submitReturned h .accepted ∈ s'.history →
      .admitted h ∈ s.history) ∧
    (∀ c, .shutdownReturned (.client c) ∈ s.history →
      s.inFlight = [] ∧ s.ready = [] ∧ (∀ w < s.budget.workerThreads, s.worker w = .exited) ∧
      ∀ s', (system b).Later s s' → ∀ h id result, .completionInvoked h id result ∈ s'.history →
        .completionReturned h ∈ s.history) ∧
    ((∃ h, (s.pc h).Unfinished) ∨ (∃ c, (s.op (.client c)).InShutdown) → s.Enabled) := by
  obtain ⟨hclosed, hjoined⟩ := closed_of_reachable hs
  refine ⟨fun hm s' hl h ha => ?_, fun c hm => ?_, fun h => ?_⟩
  · have hs' := TransitionSystem.Later.reachable hl hs
    have hp : (s'.pc h).Enqueued := enqueued_of_accepted hs' ha
    have hadm : .admitted h ∈ s'.history := by
      refine (mem_life rfl).1 ((account hs' h).admitted ?_)
      show (s'.pc h).phase.InFlight ∨ (s'.pc h).phase.Finished
      revert hp
      cases s'.pc h <;> simp [CallPc.Enqueued, CallPc.phase, Phase.InFlight, Phase.Finished]
    exact admitted_before hs (hclosed hm) hl h hadm
  · have hj := hjoined _ hm
    have ho := orderly hs
    have hf : s.inFlight = [] := not_not.1 (ho.stopped (ho.joined hj).1).1
    exact ⟨hf, (custody hs).ready_eq_nil hf, fun w _ => (ho.joined hj).2 w,
      fun s' hl h id result hm => callback_returned hs hj (invoked_before hs hj hl hm)⟩
  · rcases h with h | ⟨c, h⟩
    · exact enabled_of_unfinished hs (.inl h)
    · exact enabled_of_unfinished hs (.inr ⟨_, h⟩)

/-- After the answered call another client shuts the scheduler down: it drains, wakes the two workers and joins them. -/
private def shutdownRun : List Action :=
  answeredRun ++ .invoke (.client 1) .shutdown :: List.replicate 3 (.thread (.client 1) true none) ++
    [.worker 0 .exception, .worker 1 .exception] ++ List.replicate 3 (.thread (.client 1) true none)

private def returnedToSecond : Event → Bool
  | .shutdownReturned (.client 1) => true
  | _ => false

theorem shutdownRun_drained :
    ∃ s, (system conservativeBudget).Reachable s ∧ .shutdownReturned (.client 1) ∈ s.history ∧
      completionIds 0 s.history ≠ [] ∧ s.inFlight = [] ∧ s.ready = [] := by
  have hr : ((machine conservativeBudget).run (initial conservativeBudget) shutdownRun).map
      (fun s => (s.history.any returnedToSecond, (completionIds 0 s.history).length)) = some (true, 1) := by
    decide +kernel
  obtain ⟨s, hs, he⟩ := Option.map_eq_some_iff.1 hr
  obtain ⟨ha, hl⟩ := Prod.mk.inj he
  obtain ⟨e, hm, he⟩ := List.any_eq_true.1 ha
  have hm : .shutdownReturned (.client 1) ∈ s.history := by
    unfold returnedToSecond at he
    split at he
    · exact hm
    · cases he
  obtain ⟨hf, hq, -⟩ := (shutdown_sound (reachable_of_run hs)).2.1 1 hm
  refine ⟨s, reachable_of_run hs, hm, fun h => ?_, hf, hq⟩
  rw [h] at hl
  cases hl

end

end NativeMcp.Scheduler
