import Mathlib.Data.List.Perm.Subperm
import NativeMcp.Scheduler.Calls

/-!
# The statistics

The counters of the scheduler balance with its in-flight table, except for the calls whose coroutine frame could not
be allocated: the catch block of `submit` takes the call out of the table but leaves it counted as accepted
(`balance`).  `Consistent` is what the registries and the counters are meant to satisfy; `consistent_iff` says that it
holds in exactly the runs that have not been through that catch block.
-/

namespace NativeMcp.Scheduler

def isUnwound : Event → Bool
  | .unwound _ => true
  | _ => false

/-- How many calls went through the catch block of `submit`. -/
def unwinds (es : List Event) : Nat := es.countP isUnwound

/-- The balance of the counters. -/
def Balanced (s : State) : Prop :=
  s.statistics.accepted =
      s.statistics.completed + s.statistics.cancelled + s.inFlight.length + unwinds s.history ∧
    s.statistics.timedOut ≤ s.statistics.completed

/-- A step that touches neither the counters nor the table, and records no failed `submit`. -/
private theorem Balanced.congr {s s' : State} (hb : Balanced s) (hs : s'.statistics = s.statistics)
    (hf : s'.inFlight = s.inFlight) (es : List Event) (hh : s'.history = es ++ s.history)
    (he : ∀ e ∈ es, isUnwound e = false) : Balanced s' := by
  have hu : unwinds s'.history = unwinds s.history := by
    have h₀ : es.countP isUnwound = 0 := List.countP_eq_zero.2 fun e hm => by simp [he e hm]
    rw [unwinds, hh, List.countP_append, h₀, Nat.zero_add]
    rfl
  unfold Balanced
  rw [hs, hf, hu]
  exact hb

private theorem balanced_finish {s : State} (hc : Calls.Custody s.calls) {h : Handle} {haveResult timedOut : Bool}
    {result : ToolExecutionResult} (hp : s.pc h = .finishing haveResult timedOut result) (hb : Balanced s) :
    Balanced (finish s h haveResult timedOut result) := by
  rw [finish_eq hc hp]
  have hl : (s.inFlight.filter fun e => e.1 ≠ (s.control h).key).length + 1 = s.inFlight.length :=
    hc.table.length_erase (show (s.pc h).InFlight by rw [hp]; trivial)
  obtain ⟨hb, ht⟩ := hb
  have hu : unwinds (.finished h :: s.history) = unwinds s.history := rfl
  cases hcan : (s.control h).cancelledByClient <;> cases timedOut <;>
    simp [Balanced, finishFound, State.setPc, State.log, hcan, hu] at hl ⊢ <;> omega

private theorem Move.not_unwound {s : State} {h : Handle} {q p : CallPc} {e : Option Event} {ev : Event}
    (hm : Move s h q p e) (he : e = some ev) : isUnwound ev = false := by
  cases hm <;> cases he <;> rfl

private theorem balanced_step {s s' : State} (hc : Calls.Custody s.calls) (hb : Balanced s) (hs : Step s s') :
    Balanced s' := by
  cases hs with
  | refuse t h status statistics ho hp hr => cases hr <;> exact hb
  | admission t h ho hp ha hk hl =>
    obtain ⟨hb, ht⟩ := hb
    have hu : unwinds (.admitted h :: s.history) = unwinds s.history := rfl
    refine ⟨?_, ht⟩
    simp [admitted, State.setPc, State.log, hu]
    omega
  | unwind t h ho hp =>
    have hl : (s.inFlight.filter fun e => e.1 ≠ (s.control h).key).length + 1 = s.inFlight.length :=
      hc.table.length_erase (show (s.pc h).InFlight by rw [hp]; trivial)
    obtain ⟨hb, ht⟩ := hb
    have hu : unwinds (.unwound h :: s.history) = unwinds s.history + 1 := List.countP_cons_of_pos rfl
    refine ⟨?_, ht⟩
    simp [unwind, State.setPc, State.log, hu] at hl ⊢
    omega
  | finish w h haveResult timedOut result hw hp => exact balanced_finish hc hp hb
  | unwound t h => exact hb.congr rfl rfl [_] rfl (by simp [isUnwound])
  | wakeOne t h w => exact hb.congr rfl rfl [_] rfl (by simp [isUnwound])
  | wakeNone t h => exact hb.congr rfl rfl [_] rfl (by simp [isUnwound])
  | cancelHit t id key h => exact hb.congr rfl rfl [_] rfl (by simp [isUnwound])
  | requestStop t =>
    refine hb.congr rfl rfl (.closed :: (s.inFlight.map Prod.snd).map .stopHit) rfl fun e he => ?_
    rcases List.mem_cons.1 he with rfl | he
    · rfl
    · obtain ⟨h, -, rfl⟩ := List.mem_map.1 he
      rfl
  | stopFirst t pending => cases pending <;> exact hb
  | workerShutdown w => exact hb.congr rfl rfl [_] rfl (by simp [isUnwound])
  | alreadyJoined t => exact hb.congr rfl rfl [_, _] rfl (by simp [isUnwound])
  | drain t => unfold drainWait; split <;> exact hb.congr rfl rfl [_] rfl (by simp [isUnwound])
  | recheck t => unfold drainWait; split <;> exact hb
  | joinedAll t k => exact hb.congr rfl rfl [_] rfl (by simp [isUnwound])
  | move w h p e hw hm =>
    refine hb.congr rfl rfl e.toList rfl fun ev he => ?_
    exact hm.not_unwound (Option.mem_toList.1 he)
  | complete w h result => exact hb.congr rfl rfl [_] rfl (by simp [isUnwound])
  | completed w h result => exact hb.congr rfl rfl [_] rfl (by simp [isUnwound])
  | _ => exact hb

theorem balance {b : ResourceBudget} {s : State} (hs : (system b).Reachable s) : Balanced s :=
  invariant (I := Balanced) ⟨rfl, Nat.le_refl 0⟩ (fun _ _ hs hb h => balanced_step (custody hs) hb h) hs

/-- What the table, the queue and the counters of the scheduler are meant to satisfy. -/
structure Consistent (s : State) : Prop where
  bounded : s.inFlight.length ≤ s.budget.maxPendingRequests
  distinct : (s.inFlight.map Prod.fst).Nodup
  keyed : ∀ k h, (k, h) ∈ s.inFlight → requestKey (s.control h).call.requestId = some k
  queuedOnce : s.ready.Nodup
  queuedInFlight : ∀ h ∈ s.ready, ∃ k, (k, h) ∈ s.inFlight
  /-- The `push_back` of `enqueue` stays within the reserved capacity. -/
  capacity : ∀ t h, s.op t = .submitting h → s.pc h = .suspending →
    s.ready.length < s.budget.maxPendingRequests
  found : ∀ h haveResult timedOut result, s.pc h = .finishing haveResult timedOut result →
    s.inFlight.lookup (s.control h).key = some h
  counted : s.statistics.accepted = s.statistics.completed + s.statistics.cancelled + s.inFlight.length
  timedOut : s.statistics.timedOut ≤ s.statistics.completed

section Registries

variable {s : State} {k : Bytes} {h : Handle}

private theorem keyed (hc : Calls.Custody s.calls) (hm : (k, h) ∈ s.inFlight) :
    requestKey (s.control h).call.requestId = some k := by
  obtain ⟨hp, rfl⟩ := (hc.table.mem k h).1 hm
  refine hc.keyed h ?_
  rintro e
  rw [e] at hp
  exact hp

private theorem isQueued_inFlight {p : CallPc} (hp : p.IsQueued) : p.InFlight := by
  rw [hp.eq_queued]
  trivial

private theorem queued_inFlight (hc : Calls.Custody s.calls) (hm : h ∈ s.ready) : ∃ k, (k, h) ∈ s.inFlight :=
  ⟨(s.control h).key, (hc.table.mem _ h).2 ⟨isQueued_inFlight ((hc.queue.mem h).1 hm), rfl⟩⟩

/-- A call that is in flight but not in the queue leaves room in the queue. -/
private theorem ready_lt (hc : Calls.Custody s.calls) (hp : (s.pc h).InFlight) (hq : ¬ (s.pc h).IsQueued) :
    s.ready.length < s.budget.maxPendingRequests := by
  have hn : (h :: s.ready).Nodup := List.nodup_cons.2 ⟨fun hm => hq ((hc.queue.mem h).1 hm), hc.queue.nodup⟩
  have hsub : h :: s.ready ⊆ s.inFlight.map Prod.snd := by
    intro c hm
    rcases List.mem_cons.1 hm with rfl | hm
    · exact hc.table.mem_items.2 hp
    · exact hc.table.mem_items.2 (isQueued_inFlight ((hc.queue.mem c).1 hm))
  have hle := (List.Nodup.subperm hn hsub).length_le
  rw [List.length_map] at hle
  exact Nat.lt_of_lt_of_le hle hc.bounded

end Registries

/-- In every reachable state the registries are in order, and the counters balance exactly if no call has been through
the catch block of `submit`. -/
theorem consistent_iff {b : ResourceBudget} {s : State} (hs : (system b).Reachable s) :
    Consistent s ↔ ∀ h, .unwound h ∉ s.history := by
  have hc := custody hs
  obtain ⟨hb, ht⟩ := balance hs
  constructor
  · intro hcs h hm
    have hu : 0 < unwinds s.history := List.countP_pos_iff.2 ⟨_, hm, rfl⟩
    have := hcs.counted
    omega
  · intro hn
    have hu : unwinds s.history = 0 := by
      refine List.countP_eq_zero.2 fun e hm he => ?_
      cases e with
      | unwound h => exact hn h hm
      | _ => cases he
    exact {
      bounded := hc.bounded
      distinct := hc.table.nodup
      keyed := fun k h hm => keyed hc hm
      queuedOnce := hc.queue.nodup
      queuedInFlight := fun h hm => queued_inFlight hc hm
      capacity := fun t h ho hp => ready_lt hc (by rw [hp]; trivial) (by rw [hp]; exact id)
      found := fun h _ _ _ hp => lookup_of_inFlight hc (by rw [hp]; trivial)
      counted := by omega
      timedOut := ht }

/-- One client submits one call; `frame` tells whether the coroutine frame can be allocated. -/
private def submitOne (frame : Bool) : List Action :=
  .invoke (.client 0) (.submit { requestId := .numberInteger 1, name := [], arguments := .object [] }) ::
    List.replicate 4 (.thread (.client 0) frame none)

theorem submitted_consistent :
    ∃ s, (system conservativeBudget).Reachable s ∧ s.inFlight.length = 1 ∧ Consistent s := by
  have hr : ((machine conservativeBudget).run (initial conservativeBudget) (submitOne true)).map
      (fun s => (s.inFlight.length, unwinds s.history)) = some (1, 0) := by decide +kernel
  obtain ⟨s, hs, he⟩ := Option.map_eq_some_iff.1 hr
  obtain ⟨hl, hu⟩ := Prod.mk.inj he
  refine ⟨s, reachable_of_run hs, hl, (consistent_iff (reachable_of_run hs)).2 fun h hm => ?_⟩
  have hp : 0 < unwinds s.history := List.countP_pos_iff.2 ⟨_, hm, rfl⟩
  omega

/-- A `submit` that returns `kStopped` because the frame cannot be allocated stays counted as accepted. -/
theorem failedSubmit_inconsistent :
    ∃ s, (system conservativeBudget).Reachable s ∧ ¬ Consistent s := by
  have hr : ((machine conservativeBudget).run (initial conservativeBudget) (submitOne false)).map
      (fun s => (s.statistics.accepted, s.statistics.completed, s.statistics.cancelled, s.inFlight.length)) =
      some (1, 0, 0, 0) := by decide +kernel
  obtain ⟨s, hs, he⟩ := Option.map_eq_some_iff.1 hr
  simp only [Prod.mk.injEq] at he
  obtain ⟨h₁, h₂, h₃, h₄⟩ := he
  refine ⟨s, reachable_of_run hs, fun hc => ?_⟩
  have := hc.counted
  omega

end NativeMcp.Scheduler
