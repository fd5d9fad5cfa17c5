import NativeMcp.Scheduler.Life

/-!
# Where a delivered result comes from

The result that a completion callback is invoked with is the one the call's executor returned, unless the call timed
out (`completionInvoked_result`).
-/

namespace NativeMcp.Scheduler

/-- What the executor of a call returned. -/
def returnedResults (h : Handle) (es : List Event) : List ToolExecutionResult :=
  es.filterMap fun
    | .executorReturned h' result => if h' = h then some result else none
    | _ => none

namespace Life

/-- The executor has not ended. -/
def Unanswered : Phase → Prop
  | .absent | .offered | .refused | .admitted | .queued | .executing => True
  | _ => False

/-- The phase carries this result to be delivered. -/
def Carries (result : ToolExecutionResult) (p : Phase) : Prop :=
  p = .answered true result ∨ p = .owed true result ∨ p = .delivering result

/-- The result is the executor's, unless the call timed out. -/
def Sourced (h : Handle) (es : List Event) (result : ToolExecutionResult) : Prop :=
  .timedOut h ∈ es ∨ returnedResults h es = [result]

/-- Every result that is carried or was delivered is sourced. -/
structure Provenance (h : Handle) (l : Life) : Prop where
  unanswered : Unanswered l.phase → returnedResults h l.events = []
  carried : ∀ result, Carries result l.phase → Sourced h l.events result
  invoked : ∀ id result, .completionInvoked h id result ∈ l.events → Sourced h l.events result

variable {h : Handle} {l l' : Life} {es : List Event} {result : ToolExecutionResult}

private theorem Sourced.cons {e : Event} (he : returnedResults h (e :: es) = returnedResults h es)
    (hs : Sourced h es result) : Sourced h (e :: es) result :=
  hs.imp (List.mem_cons_of_mem _) fun hr => he.trans hr

/-- An event that is neither a return nor an invocation, in a step that carries nothing new. -/
private theorem Provenance.note {e : Event} {p : Phase} (hi : Provenance h l)
    (he : returnedResults h (e :: l.events) = returnedResults h l.events)
    (hn : ∀ id result, e ≠ .completionInvoked h id result) (hu : Unanswered p → Unanswered l.phase)
    (hc : ∀ result, Carries result p → Sourced h (e :: l.events) result) {id : Json} {c : Bool} :
    Provenance h ⟨id, p, c, e :: l.events⟩ where
  unanswered hp := he.trans (hi.unanswered (hu hp))
  carried := hc
  invoked i r hm := by
    rcases List.mem_cons.1 hm with hm | hm
    · exact absurd hm.symm (hn i r)
    · exact (hi.invoked i r hm).cons he

private theorem Provenance.step (hi : Provenance h l) (hs : Step h l l') : Provenance h l' := by
  cases hs with
  | offer id hp =>
    exact ⟨fun _ => hi.unanswered (by rw [hp]; trivial), fun r hc => by simp [Carries] at hc, hi.invoked⟩
  | refuse status hp =>
    refine hi.note rfl (by simp) (fun _ => ?_) fun r hc => by simp [Carries] at hc
    rcases hp with hp | hp <;> (rw [hp]; trivial)
  | admission hp => exact hi.note rfl (by simp) (fun _ => by rw [hp]; trivial) fun r hc => by simp [Carries] at hc
  | unwind hp => exact hi.note rfl (by simp) (fun _ => by rw [hp]; trivial) fun r hc => by simp [Carries] at hc
  | enqueue hp =>
    exact ⟨fun _ => hi.unanswered (by rw [hp]; trivial), fun r hc => by simp [Carries] at hc, hi.invoked⟩
  | accepted => exact hi.note rfl (by simp) (fun hu => hu) fun r hc => (hi.carried r hc).cons rfl
  | mark e hp he => cases he <;> exact hi.note rfl (by simp) (fun hu => hu) fun r hc => (hi.carried r hc).cons rfl
  | start hp => exact hi.note rfl (by simp) (fun _ => by rw [hp]; trivial) fun r hc => by simp [Carries] at hc
  | skip r hp => exact ⟨fun hu => hu.elim, fun r hc => by simp [Carries] at hc, hi.invoked⟩
  | answer r hp =>
    have h0 : returnedResults h l.events = [] := hi.unanswered (by rw [hp]; trivial)
    refine ⟨fun hu => hu.elim, fun r' hc => ?_, fun i r' hm => ?_⟩
    · obtain rfl : r = r' := by simpa [Carries] using hc
      exact .inr (by simpa [returnedResults] using h0)
    · rcases List.mem_cons.1 hm with hm | hm
      · cases hm
      · -- nothing was returned before, so what was delivered before had timed out
        rcases hi.invoked i r' hm with ht | hr
        · exact .inl (List.mem_cons_of_mem _ ht)
        · cases h0.symm.trans hr
  | expire r hp => exact hi.note rfl (by simp) (by simp [Unanswered]) fun r' _ => .inl (List.mem_cons_self ..)
  | finish b r hp =>
    refine hi.note rfl (by simp) (by simp [Unanswered]) fun r' hc => ?_
    have hc' : (!l.cancelled && b) = true ∧ r = r' := by simpa [Carries] using hc
    obtain rfl := hc'.2
    obtain rfl : b = true := (Bool.and_eq_true_iff.1 hc'.1).2
    exact (hi.carried r (.inl hp)).cons rfl
  | suppress r hp => exact ⟨fun hu => hu.elim, fun r hc => by simp [Carries] at hc, hi.invoked⟩
  | complete r hp =>
    have hr := hi.carried r (.inr (.inl hp))
    refine ⟨fun hu => hu.elim, fun r' hc => ?_, fun i r' hm => ?_⟩
    · obtain rfl : r = r' := by simpa [Carries] using hc
      exact hr.cons rfl
    · rcases List.mem_cons.1 hm with hm | hm
      · cases hm
        exact hr.cons rfl
      · exact (hi.invoked i r' hm).cons rfl
  | completed r hp => exact hi.note rfl (by simp) (by simp [Unanswered]) fun r hc => by simp [Carries] at hc

theorem provenance_of_reachable (hl : (system h).Reachable l) : Provenance h l := by
  refine hl.invariant (fun l ⟨_, _, he⟩ => ⟨fun _ => by rw [he]; rfl, fun r hc => ?_, fun i r hm => ?_⟩)
    fun _ _ _ hi hs => hi.step hs
  · simp_all [Carries]
  · simp [he] at hm

/-- What is being delivered, the callback was invoked with. -/
theorem invoked_of_delivering (hl : (system h).Reachable l) (hp : l.phase = .delivering result) :
    ∃ id, .completionInvoked h id result ∈ l.events := by
  revert result
  refine hl.invariant (I := fun l => ∀ {result}, l.phase = .delivering result →
    ∃ id, .completionInvoked h id result ∈ l.events) (fun l hi r hp => ?_) fun l l' _ hi hs r hp => ?_
  · rw [hi.1] at hp
    cases hp
  · cases hs with
    | complete r' _ =>
      cases hp
      exact ⟨_, List.mem_cons_self ..⟩
    | accepted | mark =>
      obtain ⟨id, hm⟩ := hi hp
      exact ⟨id, List.mem_cons_of_mem _ hm⟩
    | _ => cases hp

end Life

/-- What is being delivered, the callback was invoked with. -/
theorem invoked_of_completing {b : ResourceBudget} {s : State} (hs : (system b).Reachable s) {h : Handle}
    {result : ToolExecutionResult} (hp : s.pc h = .completing result) :
    ∃ id, .completionInvoked h id result ∈ s.history := by
  have hphase : (s.life h).phase = .delivering result := congrArg CallPc.phase hp
  obtain ⟨id, hm⟩ := Life.invoked_of_delivering ((Life.projection b h).reachable hs) hphase
  exact ⟨id, (mem_life rfl).1 hm⟩

/-- Without a timeout what the callback gets comes from the executor. -/
theorem returned_of_invoked {b : ResourceBudget} {s : State} (hs : (system b).Reachable s) {h : Handle} {id : Json}
    {result : ToolExecutionResult} (hd : .completionInvoked h id result ∈ s.history) (ht : .timedOut h ∉ s.history) :
    .executorReturned h result ∈ s.history := by
  have hp := Life.provenance_of_reachable ((Life.projection b h).reachable hs)
  rcases hp.invoked id result ((mem_life rfl).2 hd) with h' | h'
  · exact absurd ((mem_life rfl).1 h') ht
  · have hm : result ∈ returnedResults h (s.life h).events := by rw [h']; exact List.mem_singleton_self _
    obtain ⟨e, he, hr⟩ := List.mem_filterMap.1 hm
    split at hr
    · split at hr
      · rename_i hh
        cases hr
        rw [hh] at he
        exact (mem_life rfl).1 he
      · cases hr
    · cases hr

/-- Without a timeout the callback gets what the executor returned. -/
theorem completionInvoked_result {b : ResourceBudget} {s : State} (hs : (system b).Reachable s) {h : Handle}
    {id : Json} {delivered returned : ToolExecutionResult} (hd : .completionInvoked h id delivered ∈ s.history)
    (hr : .executorReturned h returned ∈ s.history) (ht : .timedOut h ∉ s.history) : delivered = returned := by
  have hp := Life.provenance_of_reachable ((Life.projection b h).reachable hs)
  rcases hp.invoked id delivered ((mem_life rfl).2 hd) with h' | h'
  · exact absurd ((mem_life rfl).1 h') ht
  · have hm : returned ∈ returnedResults h (s.life h).events :=
      List.mem_filterMap.2 ⟨_, (mem_life rfl).2 hr, if_pos rfl⟩
    rw [h', List.mem_singleton] at hm
    exact hm.symm

end NativeMcp.Scheduler
